import Orchestration.Text.Segments

/-!
# Paths

A path is kept as the text it was given as, because messages show it that way. Read as a place, it is
a list of parts: a `/` at the front, names, `..`, and a `.` only where it stands first; repeated
slashes and other dots mean nothing. Taking a path apart and putting one together work on the text and
leave what they do not touch as it was written.
-/

namespace Orchestration

/-- A path to a file or directory. -/
structure Path where
  /-- The path as written. -/
  text : String
deriving Repr, DecidableEq

namespace Path

/-- One step of a path. -/
inductive Part where
  /-- The root of the tree. -/
  | root
  /-- The directory where the path starts. -/
  | here
  /-- The directory above. -/
  | up
  /-- An entry of a directory. -/
  | name (text : String)
deriving Repr, DecidableEq

/-- Whether the path starts at the root. -/
def isRooted (p : Path) : Bool :=
  p.text.toList.head? = some '/'

/-- The pieces between slashes, without the empty one that stands for the root. -/
def pieces (p : Path) : List String :=
  if p.isRooted then (Text.split '/' p.text).tail else Text.split '/' p.text

/-- The parts that pieces after the first one stand for. -/
def partsOf (pieces : List String) : List Part :=
  (pieces.filter fun s => s ≠ "" && s ≠ ".").map fun s => if s = ".." then .up else .name s

/-- The parts of a path. -/
def parts (p : Path) : List Part :=
  if p.isRooted then .root :: partsOf p.pieces
  else
    match p.pieces with
    | "." :: rest => .here :: partsOf rest
    | pieces => partsOf pieces

/-- The last name of a path, if it ends in one. -/
def fileName? (p : Path) : Option String :=
  match p.parts.getLast? with
  | some (.name s) => some s
  | _ => none

/-- The characters of a name before and after its last dot. A dot in front separates nothing. -/
def splitExtension? (name : List Char) : Option (List Char × List Char) :=
  let back := name.reverse
  match back.dropWhile (· ≠ '.') with
  | '.' :: c :: stem => some ((c :: stem).reverse, (back.takeWhile (· ≠ '.')).reverse)
  | _ => none

/-- What follows the last dot of the last name. -/
def extension? (p : Path) : Option String :=
  p.fileName?.bind fun name => (splitExtension? name.toList).map fun e => String.ofList e.2

/-- Whether a piece is a step of the path; `before` are the pieces before it, the nearest first. -/
def isStep (rooted : Bool) (piece : String) (before : List String) : Bool :=
  piece ≠ "" && (piece ≠ "." || (!rooted && before.isEmpty))

/-- The pieces up to the last step among them; both lists have the nearest piece first. -/
def dropIdle (rooted : Bool) : List String → List String
  | [] => []
  | s :: before => if isStep rooted s before then s :: before else dropIdle rooted before

/-- The path made of some pieces, the last one first. -/
def ofPieces (rooted : Bool) (back : List String) : Path :=
  ⟨(if rooted then "/" else "") ++ "/".intercalate back.reverse⟩

/-- The directories above the pieces, the nearest first; the pieces are given last one first. -/
def above (rooted : Bool) : List String → List Path
  | [] => []
  | s :: before =>
    if isStep rooted s before then ofPieces rooted (dropIdle rooted before) :: above rooted before
    else above rooted before

/-- The directories above a path, the nearest first. The last of them is the root or, for a path that
starts nowhere, the empty path. -/
def ancestors (p : Path) : List Path :=
  above p.isRooted p.pieces.reverse

/-- The directory that a path lies in. -/
def parent? (p : Path) : Option Path :=
  p.ancestors.head?

/-- A path followed by another. One that starts at the root takes over; a slash is added only where
it is needed. -/
def join (p : Path) (q : String) : Path :=
  if q.toList.head? = some '/' then ⟨q⟩
  else if p.text = "" || p.text.toList.getLast? = some '/' then ⟨p.text ++ q⟩
  else ⟨p.text ++ "/" ++ q⟩

/-- The path with its last name replaced, or with one more name if it does not end in one. -/
def withFileName (p : Path) (name : String) : Path :=
  match p.fileName?, p.parent? with
  | some _, some dir => dir.join name
  | _, _ => p.join name

/-- The place of a part in the order of paths. -/
def Part.rank : Part → Nat
  | root => 0
  | here => 1
  | up => 2
  | name _ => 3

/-- The order of parts: by kind, and names as texts. -/
def Part.before : Part → Part → Bool
  | name s, name t => s < t
  | a, b => a.rank < b.rank

/-- The order of paths: part by part, a path before those it is the start of. -/
def partsBefore : List Part → List Part → Bool
  | _, [] => false
  | [], _ :: _ => true
  | a :: as, b :: bs => a.before b || (a = b && partsBefore as bs)

/-- Whether the first path comes no later than the second. -/
def le (p q : Path) : Bool :=
  !partsBefore q.parts p.parts

end Path

end Orchestration
