import Orchestration.Table

/-!
# File trees

A file tree is a directory of named files and directories, together with the place that relative
paths start from. A place in the tree is given by the names that lead to it from the root. Looking a
place up, putting something there and erasing it are the only primitives; what they do to other places
is stated below.
-/

namespace Orchestration

/-- A file with its text, or a directory with its entries. -/
inductive FileNode where
  /-- A file. -/
  | file (text : String)
  /-- A directory. Of entries with one name, the first counts. -/
  | directory (entries : List (String × FileNode))

/-- A place in a tree: the names that lead to it from the root. -/
abbrev Location := List String

namespace FileNode

/-- Whether this is a directory. -/
def isDirectory : FileNode → Bool
  | file _ => false
  | directory _ => true

/-- The text of a file. -/
def text? : FileNode → Option String
  | file text => some text
  | directory _ => none

/-- What lies at a place. -/
def find? : FileNode → Location → Option FileNode
  | n, [] => some n
  | file _, _ :: _ => none
  | directory entries, name :: rest => (entries.lookup name).bind fun n => n.find? rest

/-- The tree with `new` at a place. Nothing happens unless a directory is there to hold it. -/
def put (new : FileNode) : Location → FileNode → FileNode
  | [], _ => new
  | _ :: _, file text => file text
  | [name], directory entries => directory (Table.insertEntry name new entries)
  | name :: rest, directory entries =>
    match entries.lookup name with
    | none => directory entries
    | some n => directory (Table.insertEntry name (put new rest n) entries)

/-- The tree without what lies at a place. The root stays. -/
def erase : Location → FileNode → FileNode
  | [], n => n
  | _ :: _, file text => file text
  | [name], directory entries => directory (entries.filter fun e => e.1 ≠ name)
  | name :: rest, directory entries =>
    match entries.lookup name with
    | none => directory entries
    | some n => directory (Table.insertEntry name (erase rest n) entries)

mutual

/-- Everything below a directory, each directory before its entries, and entries by their names. -/
def descendants : FileNode → List (Location × FileNode)
  | file _ => []
  | directory entries =>
    ((descendantsEach entries).mergeSort fun a b => a.1 ≤ b.1).flatMap Prod.snd

/-- For each entry its name, and the entry with everything below it. -/
def descendantsEach : List (String × FileNode) → List (String × List (Location × FileNode))
  | [] => []
  | (name, n) :: rest =>
    (name, ([name], n) :: n.descendants.map fun e => (name :: e.1, e.2)) :: descendantsEach rest

end

/-- The entries of a directory, by their names. -/
def entries : FileNode → List (String × FileNode)
  | file _ => []
  | directory entries => entries.mergeSort fun a b => a.1 ≤ b.1

/-- The files below a directory with their texts. -/
def files (n : FileNode) : List (Location × String) :=
  n.descendants.filterMap fun e => e.2.text?.map fun text => (e.1, text)

end FileNode

/-- A tree, and the place that relative paths start from. -/
structure FileTree where
  /-- The whole tree. -/
  root : FileNode
  /-- The directory that relative paths start from. -/
  here : Location

namespace FileTree

/-- A tree whose only directory is the one that paths start from. -/
def empty (here : Location) : FileTree :=
  ⟨here.foldr (fun name n => .directory [(name, n)]) (.directory []), here⟩

/-- What lies at a place. -/
def find? (t : FileTree) (l : Location) : Option FileNode :=
  t.root.find? l

/-- The tree with a node at a place. -/
def put (t : FileTree) (l : Location) (n : FileNode) : FileTree :=
  { t with root := FileNode.put n l t.root }

/-- The tree without what lies at a place. -/
def erase (t : FileTree) (l : Location) : FileTree :=
  { t with root := t.root.erase l }

/-- The files below the directory that paths start from, each with its path and its text, in the order
of their paths. -/
def files (t : FileTree) : List (String × String) :=
  match t.find? t.here with
  | none => []
  | some n =>
    (n.files.map fun e => ("/".intercalate e.1, e.2)).mergeSort fun a b => a.1 ≤ b.1

/-- The files that are new or have another text than in an earlier tree. -/
def changedSince (t earlier : FileTree) : List (String × String) :=
  let old := earlier.files
  t.files.filter fun e => old.lookup e.1 ≠ some e.2

/-- The tree whose paths start from the root. -/
def fromRoot (t : FileTree) : FileTree :=
  { t with here := [] }

/-- The directories below the one that paths start from, each before those in it. -/
def directories (t : FileTree) : List String :=
  match t.find? t.here with
  | none => []
  | some n => (n.descendants.filter fun e => e.2.isDirectory).map fun e => "/".intercalate e.1

end FileTree

/-! ## First facts -/

namespace FileNode

@[simp]
theorem find?_nil (n : FileNode) : n.find? [] = some n := by
  cases n <;> rfl

/-- A place below the root is looked up in the entry that its first name gives. -/
theorem find?_directory_cons (es : List (String × FileNode)) (name : String) (rest : Location) :
    (directory es).find? (name :: rest) = (es.lookup name).bind fun n => n.find? rest := rfl

/-- A place is looked up in two stages. -/
theorem find?_append (n : FileNode) (l m : Location) :
    n.find? (l ++ m) = (n.find? l).bind fun k => k.find? m := by
  induction l generalizing n with
  | nil => simp
  | cons name rest ih =>
    cases n with
    | file text => rfl
    | directory es =>
      simp only [List.cons_append, find?_directory_cons]
      cases es.lookup name with
      | none => rfl
      | some k => exact ih k

end FileNode

end Orchestration
