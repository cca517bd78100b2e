/-!
# BLAKE3

The unkeyed BLAKE3 hash with 256 bits of output. The input is cut into chunks of 1024 bytes and a
chunk into blocks of 64; a compression function chains the blocks of a chunk, and the chunks are the
leaves of a binary tree whose left subtrees are complete. The flags given to the compression function
tell apart first and last blocks, inner nodes and the root.
-/

namespace Orchestration.Digest.Blake3

/-- Eight words that chain one compression to the next. -/
abbrev Chain := Vector UInt32 8

/-- The sixteen words of a block, or of the compression state. -/
abbrev Words := Vector UInt32 16

/-- The initial chaining words. -/
def initial : Chain :=
  #v[0x6A09E667, 0xBB67AE85, 0x3C6EF372, 0xA54FF53A, 0x510E527F, 0x9B05688C, 0x1F83D9AB, 0x5BE0CD19]

/-- The order in which a round's message words enter the next round. -/
def permutation : Vector (Fin 16) 16 :=
  #v[2, 6, 3, 10, 7, 0, 4, 13, 1, 11, 12, 5, 9, 14, 15, 8]

/-- The flag of the first block of a chunk. -/
def chunkStart : UInt32 := 1

/-- The flag of the last block of a chunk. -/
def chunkEnd : UInt32 := 2

/-- The flag of an inner node. -/
def parent : UInt32 := 4

/-- The flag of the node whose output is the hash. -/
def root : UInt32 := 8

/-- A word rotated to the right. -/
def rotateRight (x : UInt32) (n : UInt32) : UInt32 :=
  (x >>> n) ||| (x <<< (32 - n))

/-- Mix two message words into four words of the state. -/
def mix (v : Words) (a b c d : Fin 16) (mx my : UInt32) : Words :=
  let va := v[a] + v[b] + mx
  let vd := rotateRight (v[d] ^^^ va) 16
  let vc := v[c] + vd
  let vb := rotateRight (v[b] ^^^ vc) 12
  let va := va + vb + my
  let vd := rotateRight (vd ^^^ va) 8
  let vc := vc + vd
  let vb := rotateRight (vb ^^^ vc) 7
  (((v.set a va).set b vb).set c vc).set d vd

/-- One round: the columns of the state, then its diagonals. -/
def round (v m : Words) : Words :=
  let v := mix v 0 4 8 12 m[0] m[1]
  let v := mix v 1 5 9 13 m[2] m[3]
  let v := mix v 2 6 10 14 m[4] m[5]
  let v := mix v 3 7 11 15 m[6] m[7]
  let v := mix v 0 5 10 15 m[8] m[9]
  let v := mix v 1 6 11 12 m[10] m[11]
  let v := mix v 2 7 8 13 m[12] m[13]
  mix v 3 4 9 14 m[14] m[15]

/-- The message words in the order of the next round. -/
def permute (m : Words) : Words :=
  permutation.map fun i => m[i]

/-- A number of rounds, the message permuted between each two of them. -/
def rounds : Nat → Words → Words → Words
  | 0, v, _ => v
  | n + 1, v, m => rounds n (round v m) (permute m)

/-- The compression function, cut down to the words that chain on. -/
def compress (cv : Chain) (block : Words) (counter : UInt64) (length flags : UInt32) : Chain :=
  let v : Words := #v[cv[0], cv[1], cv[2], cv[3], cv[4], cv[5], cv[6], cv[7],
    initial[0], initial[1], initial[2], initial[3],
    counter.toUInt32, (counter >>> 32).toUInt32, length, flags]
  let w := rounds 7 v block
  Vector.ofFn fun i : Fin 8 => w[i.val] ^^^ w[i.val + 8]

/-- The word that four bytes at an offset form, the lowest first; missing bytes are zero. -/
def wordAt (bytes : ByteArray) (offset : Nat) : UInt32 :=
  let byte (i : Nat) : UInt32 := (bytes[offset + i]?.getD 0).toUInt32
  byte 0 ||| (byte 1 <<< 8) ||| (byte 2 <<< 16) ||| (byte 3 <<< 24)

/-- The block that starts at an offset. -/
def blockAt (bytes : ByteArray) (offset : Nat) : Words :=
  Vector.ofFn fun i : Fin 16 => wordAt bytes (offset + 4 * i.val)

/-- Chain the blocks of a chunk from an offset on. `more` blocks follow the one at the offset, and
`last` is the length of the final one; `first` marks the block that opens the chunk. -/
def chunkBlocks (bytes : ByteArray) (index : UInt64) (final : UInt32) (last : Nat) (first : UInt32) :
    Nat → Nat → Chain → Chain
  | 0, offset, cv =>
    compress cv (blockAt bytes offset) index last.toUInt32 (first ||| chunkEnd ||| final)
  | more + 1, offset, cv =>
    chunkBlocks bytes index final last 0 more (offset + 64)
      (compress cv (blockAt bytes offset) index 64 first)

/-- The chaining words of the chunk with the given index; `final` is the root's flag or zero. -/
def chunk (bytes : ByteArray) (index : Nat) (final : UInt32) : Chain :=
  let offset := 1024 * index
  let length := min 1024 (bytes.size - offset)
  let more := (length - 1) / 64
  chunkBlocks bytes index.toUInt64 final (length - 64 * more) chunkStart more offset initial

/-- The chaining words of an inner node. -/
def inner (left right : Chain) (final : UInt32) : Chain :=
  compress initial (left ++ right) 0 64 (parent ||| final)

/-- The chunks in the left subtree of a node over `n` chunks: the largest power of two below `n`. -/
def leftSize (n : Nat) : Nat :=
  Nat.pow 2 (n - 1).log2

theorem leftSize_pos (n : Nat) : 0 < leftSize n :=
  Nat.two_pow_pos _

theorem leftSize_lt {n : Nat} (h : 1 < n) : leftSize n < n := by
  have h₁ : leftSize n ≤ n - 1 := Nat.log2_self_le (by omega)
  omega

/-- The chaining words of the node over `n` chunks from an index on. -/
def node (bytes : ByteArray) (index n : Nat) (final : UInt32) : Chain :=
  if _h : 1 < n then
    inner (node bytes index (leftSize n) 0)
      (node bytes (index + leftSize n) (n - leftSize n) 0) final
  else chunk bytes index final
termination_by n
decreasing_by
  · exact leftSize_lt _h
  · have := leftSize_pos n; omega

/-- The four bytes of a word, the lowest first. -/
def wordBytes (w : UInt32) : List UInt8 :=
  [w.toUInt8, (w >>> 8).toUInt8, (w >>> 16).toUInt8, (w >>> 24).toUInt8]

/-- The hash of a byte string. An empty one still has one chunk. -/
def hash (bytes : ByteArray) : List UInt8 :=
  (node bytes 0 (max 1 ((bytes.size + 1023) / 1024)) root).toList.flatMap wordBytes

end Orchestration.Digest.Blake3
