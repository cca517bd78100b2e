import Orchestration.Digest.Fingerprint
import Orchestration.Files.Access

/-!
# Artifacts

An artifact is a generated file. It is written beside its place first and then moved there, so the
place never holds half a text, and it is left alone if it already holds the text. Whether it does is
decided by the fingerprints.
-/

namespace Orchestration

namespace Path

/-- The path of an artifact with the given stem and extension in a directory. -/
def artifact (dir : Path) (stem extension : String) : Path :=
  dir.join (stem ++ "." ++ extension)

/-- The path where an artifact is written before it is moved to its place. -/
def draft (p : Path) : Path :=
  p.withFileName (p.fileName?.getD "" ++ ".tmp")

end Path

namespace FileTree

/-- Whether the path is a file with the fingerprint of the text. -/
def holds (t : FileTree) (p : Path) (text : String) : Bool :=
  match t.read p with
  | .error _ => false
  | .ok old => Digest.ofText old = Digest.ofText text

/-- Create the directory that a path lies in, unless it lies where paths start. -/
def createParent (t : FileTree) (p : Path) : Except FileError Unit × FileTree :=
  match p.parent? with
  | none => (.ok (), t)
  | some dir => if dir.text = "" then (.ok (), t) else t.createDirectories dir

/-- Write a text beside a path and move it there. If it cannot be moved, it is removed again. -/
def replace (t : FileTree) (p : Path) (text : String) : Except FileError Unit × FileTree :=
  match t.write p.draft text with
  | .error e => (.error e, t)
  | .ok drafted =>
    match drafted.rename p.draft p with
    | .ok moved => (.ok (), moved)
    | .error e => (.error e, (drafted.removeFile p.draft).toOption.getD drafted)

/-- Make the file at a path hold a text, and tell whether it had to be written. -/
def writeArtifact (t : FileTree) (p : Path) (text : String) : Except FileError Bool × FileTree :=
  if t.holds p text then (.ok false, t)
  else
    match t.createParent p with
    | (.error e, t') => (.error e, t')
    | (.ok _, t') =>
      match t'.replace p text with
      | (.error e, t'') => (.error e, t'')
      | (.ok _, t'') => (.ok true, t'')

end FileTree

/-- Why a file has no fingerprint. -/
inductive FingerprintError where
  /-- The file was not opened. -/
  | notOpened (path : Path) (error : FileError)
  /-- The file was not read. -/
  | notRead (path : Path) (error : FileError)
deriving Repr, DecidableEq

/-- The wording of a fingerprint error. -/
def FingerprintError.message : FingerprintError → String
  | notOpened path error => "cannot open " ++ path.text ++ ": " ++ error.message
  | notRead path error => "read error " ++ path.text ++ ": " ++ error.message

/-- The fingerprint of the file at a path. A directory can be opened but not read. -/
def FileTree.fingerprint (t : FileTree) (p : Path) : Except FingerprintError String :=
  match t.stat p with
  | .error e => .error (.notOpened p e)
  | .ok (.directory _) => .error (.notRead p .isDirectory)
  | .ok (.file text) => .ok (Digest.ofText text)

end Orchestration
