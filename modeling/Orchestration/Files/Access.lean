import Orchestration.Files.Path
import Orchestration.Files.Tree

/-!
# Access by path

What can be done with the files of a tree through paths. A path is followed name by name, each of them
but the last through a directory that is there; `.` stays and `..` goes up, at the root without
effect. An operation that would replace a directory by a file, or reach through a file, is refused and
leaves the tree as it is.
-/

namespace Orchestration

/-- Why an operation on files is refused. -/
inductive FileError where
  /-- There is nothing at the path. -/
  | notFound
  /-- There already is something at the path. -/
  | alreadyExists
  /-- The path leads through something that is no directory. -/
  | notDirectory
  /-- The operation needs a file. -/
  | isDirectory
  /-- The path is a directory in use. -/
  | busy
  /-- A name or the whole path is too long. -/
  | nameTooLong
  /-- The path holds a character that no name can have. -/
  | badCharacter
deriving Repr, DecidableEq

/-- The wording of a file error. -/
def FileError.message : FileError → String
  | notFound => "No such file or directory (os error 2)"
  | alreadyExists => "File exists (os error 17)"
  | notDirectory => "Not a directory (os error 20)"
  | isDirectory => "Is a directory (os error 21)"
  | busy => "Device or resource busy (os error 16)"
  | nameTooLong => "File name too long (os error 36)"
  | badCharacter => "file name contained an unexpected NUL byte"

namespace Path

/-- The bytes that a name may have. -/
def maxNameSize : Nat := 255

/-- The bytes that a path must stay below. -/
def maxSize : Nat := 4096

/-- The names, dots and double dots that the path leads through. -/
def steps (p : Path) : List String :=
  (Text.split '/' p.text).filter fun s => s ≠ ""

/-- Whether the path ends in a slash and so asks for a directory. -/
def endsInSlash (p : Path) : Bool :=
  p.text.toList.getLast? = some '/'

/-- Why the path leads nowhere in any tree. -/
def fault? (p : Path) : Option FileError :=
  if p.text.toList.contains '\x00' then some .badCharacter
  else if p.text = "" then some .notFound
  else if maxSize ≤ p.text.utf8ByteSize then some .nameTooLong
  else none

/-- What a path asks for, once the directories it leads through have been found. -/
inductive Target where
  /-- A directory that the path reaches by a dot, by a double dot, or as the root. -/
  | reached (l : Location)
  /-- A name in a directory. With a slash behind it, it has to be a directory itself. -/
  | entry (dir : Location) (name : String) (slash : Bool)
deriving Repr, DecidableEq

end Path

namespace FileTree

/-- The directory that one step leads to. -/
def step (t : FileTree) (l : Location) (s : String) : Except FileError Location :=
  if s = "." then .ok l
  else if s = ".." then .ok l.dropLast
  else if Path.maxNameSize < s.utf8ByteSize then .error .nameTooLong
  else
    match t.find? (l ++ [s]) with
    | none => .error .notFound
    | some (.file _) => .error .notDirectory
    | some (.directory _) => .ok (l ++ [s])

/-- The directory that steps lead to, one after another. -/
def walk (t : FileTree) : Location → List String → Except FileError Location
  | l, [] => .ok l
  | l, s :: rest =>
    match t.step l s with
    | .error e => .error e
    | .ok l' => t.walk l' rest

/-- Where a path starts. -/
def start (t : FileTree) (p : Path) : Location :=
  if p.isRooted then [] else t.here

/-- What a path asks for. -/
def target (t : FileTree) (p : Path) : Except FileError Path.Target :=
  match p.fault? with
  | some e => .error e
  | none =>
    match t.walk (t.start p) p.steps.dropLast with
    | .error e => .error e
    | .ok dir =>
      match p.steps.getLast? with
      | none => .ok (.reached dir)
      | some "." => .ok (.reached dir)
      | some ".." => .ok (.reached dir.dropLast)
      | some name =>
        if Path.maxNameSize < name.utf8ByteSize then .error .nameTooLong
        else .ok (.entry dir name p.endsInSlash)

/-- What lies at a path. -/
def stat (t : FileTree) (p : Path) : Except FileError FileNode :=
  match t.target p with
  | .error e => .error e
  | .ok (.reached l) =>
    match t.find? l with
    | none => .error .notFound
    | some n => .ok n
  | .ok (.entry dir name slash) =>
    match t.find? (dir ++ [name]) with
    | none => .error .notFound
    | some n => if slash && !n.isDirectory then .error .notDirectory else .ok n

/-- Whether there is anything at a path. -/
def contains (t : FileTree) (p : Path) : Bool :=
  (t.stat p).toOption.isSome

/-- Whether there is a directory at a path. -/
def isDirectory (t : FileTree) (p : Path) : Bool :=
  (t.stat p).toOption.any FileNode.isDirectory

/-- Whether there is a file at a path. -/
def isFile (t : FileTree) (p : Path) : Bool :=
  (t.stat p).toOption.any fun n => !n.isDirectory

/-- The text of the file at a path. -/
def read (t : FileTree) (p : Path) : Except FileError String :=
  match t.stat p with
  | .error e => .error e
  | .ok (.directory _) => .error .isDirectory
  | .ok (.file text) => .ok text

/-- The tree with a text in the file at a path, which is new or is overwritten. -/
def write (t : FileTree) (p : Path) (text : String) : Except FileError FileTree :=
  match t.target p with
  | .error e => .error e
  | .ok (.reached _) => .error .isDirectory
  | .ok (.entry _ _ true) => .error .isDirectory
  | .ok (.entry dir name false) =>
    match t.find? (dir ++ [name]) with
    | some (.directory _) => .error .isDirectory
    | _ => .ok (t.put (dir ++ [name]) (.file text))

/-- The tree with a new directory at a path. -/
def createDirectory (t : FileTree) (p : Path) : Except FileError FileTree :=
  match t.target p with
  | .error e => .error e
  | .ok (.reached _) => .error .alreadyExists
  | .ok (.entry dir name _) =>
    match t.find? (dir ++ [name]) with
    | some _ => .error .alreadyExists
    | none => .ok (t.put (dir ++ [name]) (.directory []))

/-- The tree with a file moved to another path, where it replaces a file that was there. Only files
are moved. -/
def rename (t : FileTree) (source goal : Path) : Except FileError FileTree :=
  match t.target source with
  | .error e => .error e
  | .ok s =>
    match t.target goal with
    | .error e => .error e
    | .ok g =>
      match s, g with
      | .reached _, _ => .error .busy
      | _, .reached _ => .error .busy
      | .entry sourceDir sourceName sourceSlash, .entry goalDir goalName goalSlash =>
        match t.find? (sourceDir ++ [sourceName]) with
        | none => .error .notFound
        | some (.directory _) => .error .isDirectory
        | some (.file text) =>
          if sourceSlash || goalSlash then .error .notDirectory
          else
            match t.find? (goalDir ++ [goalName]) with
            | some (.directory _) => .error .isDirectory
            | _ => .ok ((t.erase (sourceDir ++ [sourceName])).put (goalDir ++ [goalName]) (.file text))

/-- The tree without the file at a path. -/
def removeFile (t : FileTree) (p : Path) : Except FileError FileTree :=
  match t.target p with
  | .error e => .error e
  | .ok (.reached _) => .error .isDirectory
  | .ok (.entry dir name slash) =>
    match t.find? (dir ++ [name]) with
    | none => .error .notFound
    | some (.directory _) => .error .isDirectory
    | some (.file _) => if slash then .error .notDirectory else .ok (t.erase (dir ++ [name]))

/-- The tree without the directory at a path and all that is in it. -/
def removeDirectory (t : FileTree) (p : Path) : Except FileError FileTree :=
  match t.target p with
  | .error e => .error e
  | .ok (.reached l) => .ok (t.put l (.directory []))
  | .ok (.entry dir name _) =>
    match t.find? (dir ++ [name]) with
    | none => .error .notFound
    | some (.file _) => .error .notDirectory
    | some (.directory _) => .ok (t.erase (dir ++ [name]))

/-- Create a directory where the directories above it may be missing, too. The first of the paths is
the directory, the others are those above it, the nearest first. A step that fails leaves the
directories made before it. -/
def createAll (t : FileTree) : List Path → Except FileError Unit × FileTree
  | [] => (.error .notFound, t)
  | p :: above =>
    if p.text = "" then (.ok (), t)
    else
      match t.createDirectory p with
      | .ok t' => (.ok (), t')
      | .error .notFound =>
        match t.createAll above with
        | (.error e, t') => (.error e, t')
        | (.ok _, t') =>
          match t'.createDirectory p with
          | .ok t'' => (.ok (), t'')
          | .error e => if t'.isDirectory p then (.ok (), t') else (.error e, t')
      | .error e => if t.isDirectory p then (.ok (), t) else (.error e, t)

/-- Create a directory and all directories above it that are missing. -/
def createDirectories (t : FileTree) (p : Path) : Except FileError Unit × FileTree :=
  t.createAll (p :: p.ancestors)

/-- The tree with a text in the file at a path, and with the directories that lead to it. Where that is
impossible, only those directories are made that can be. -/
def deposit (t : FileTree) (p : Path) (text : String) : FileTree :=
  let t' := (t.createAll p.ancestors).2
  (t'.write p text).toOption.getD t'

/-- The tree without the file or directory at a path, if there is one. -/
def discard (t : FileTree) (p : Path) : FileTree :=
  ((if t.isDirectory p then t.removeDirectory p else t.removeFile p).toOption).getD t

/-- The entries of the directory at a path, by their names. -/
def children (t : FileTree) (p : Path) : List (String × FileNode) :=
  match t.stat p with
  | .error _ => []
  | .ok n => n.entries

end FileTree

end Orchestration
