import Orchestration.Proofs.Digest.Fingerprint

/-!
# Hashes of short texts

The hash of at most 1024 bytes is a chain of compressions over blocks of 64 bytes. Read off a list, the
blocks are what is left after the blocks before them, and such a hash can be evaluated.
-/

namespace Orchestration.Digest.Blake3

/-- The word that the first four bytes form, the lowest first; missing bytes are zero. -/
def leadWord (bs : List UInt8) : UInt32 :=
  let byte (i : Nat) : UInt32 := (bs[i]?.getD 0).toUInt32
  byte 0 ||| (byte 1 <<< 8) ||| (byte 2 <<< 16) ||| (byte 3 <<< 24)

/-- The block that the first 64 bytes form. -/
def leadBlock (bs : List UInt8) : Words :=
  Vector.ofFn fun i : Fin 16 => leadWord (bs.drop (4 * i.val))

/-- Chain the blocks of the only chunk. `more` blocks follow the first one. -/
def chainBlocks (last : Nat) (first : UInt32) : Nat → List UInt8 → Chain → Chain
  | 0, bs, cv => compress cv (leadBlock bs) 0 last.toUInt32 (first ||| chunkEnd ||| root)
  | more + 1, bs, cv =>
    chainBlocks last 0 more (bs.drop 64) (compress cv (leadBlock bs) 0 64 first)

/-- The hash of the bytes of a single chunk. -/
def shortHash (bs : List UInt8) : List UInt8 :=
  let more := (bs.length - 1) / 64
  (chainBlocks (bs.length - 64 * more) chunkStart more bs initial).toList.flatMap wordBytes

variable {bytes : ByteArray}

theorem getElem?_eq_toList (i : Nat) : bytes[i]? = bytes.data.toList[i]? := by
  by_cases h : i < bytes.size
  · rw [getElem?_pos bytes i h, List.getElem?_eq_getElem (by simpa using h)]
    rfl
  · rw [getElem?_neg bytes i h, List.getElem?_eq_none (by simpa using h)]

theorem wordAt_eq (offset : Nat) :
    wordAt bytes offset = leadWord (bytes.data.toList.drop offset) := by
  simp only [wordAt, leadWord, getElem?_eq_toList, List.getElem?_drop]

theorem blockAt_eq (offset : Nat) :
    blockAt bytes offset = leadBlock (bytes.data.toList.drop offset) := by
  simp only [blockAt, leadBlock, wordAt_eq, List.drop_drop]

theorem chunkBlocks_eq (last : Nat) (first : UInt32) (more offset : Nat) (cv : Chain) :
    chunkBlocks bytes 0 root last first more offset cv =
      chainBlocks last first more (bytes.data.toList.drop offset) cv := by
  induction more generalizing first offset cv with
  | zero => rw [chunkBlocks, chainBlocks, blockAt_eq]
  | succ more ih => rw [chunkBlocks, chainBlocks, blockAt_eq, ih, List.drop_drop]

/-- A text of at most 1024 bytes is hashed block by block. -/
theorem hash_toByteArray {bs : List UInt8} (h : bs.length ≤ 1024) :
    hash bs.toByteArray = shortHash bs := by
  have hsize : bs.toByteArray.size = bs.length := List.size_toByteArray
  have hlist : bs.toByteArray.data.toList = bs := List.toList_data_toByteArray
  have hchunks : max 1 ((bs.toByteArray.size + 1023) / 1024) = 1 := by omega
  have hnode : node bs.toByteArray 0 1 root = chunk bs.toByteArray 0 root := by
    rw [node, dif_neg (Nat.lt_irrefl 1)]
  have hindex : Nat.toUInt64 0 = 0 := rfl
  have hlength : min 1024 (bs.toByteArray.size - 1024 * 0) = bs.length := by omega
  unfold hash shortHash
  rw [hchunks, hnode]
  unfold chunk
  dsimp only
  rw [hindex, hlength, chunkBlocks_eq, hlist, Nat.mul_zero, List.drop_zero]

/-- The bytes that stand for characters. -/
def utf8 (cs : List Char) : List UInt8 :=
  cs.flatMap String.utf8EncodeChar

/-- Short texts with one fingerprint have one hash, block by block. -/
theorem shortHash_utf8_eq {cs ds : List Char} (hcs : (utf8 cs).length ≤ 1024)
    (hds : (utf8 ds).length ≤ 1024) (h : ofText (String.ofList cs) = ofText (String.ofList ds)) :
    shortHash (utf8 cs) = shortHash (utf8 ds) := by
  have hbytes (es : List Char) : (String.ofList es).toUTF8 = (utf8 es).toByteArray := rfl
  have hhash := ofText_eq_ofText_iff.1 h
  rwa [hbytes, hbytes, hash_toByteArray hcs, hash_toByteArray hds] at hhash

end Orchestration.Digest.Blake3
