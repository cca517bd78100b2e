import Orchestration.CommandLine.Run

/-!
# The program

Runs one command on a copy of the files: those below the working directory and those below the
directory of the configuration. What the command changed is then written back.
-/

namespace Orchestration.CommandLine

/-- The configuration file of a command. -/
def Command.file? : Command → Option Path
  | validate file => some file
  | catalog file _ => some file
  | plan file _ _ => some file
  | generate file _ _ _ => some file
  | init _ | schema | completions _ => none

/-- A copy of a file or directory. A file whose text cannot be read counts as empty. -/
partial def copyEntry (e : IO.FS.DirEntry) : IO (String × FileNode) := do
  let isDirectory := (← e.path.symlinkMetadata).type matches .dir
  if isDirectory then
    let entries ← (← e.path.readDir).toList.mapM copyEntry
    return (e.fileName, .directory entries)
  else
    let text ← try IO.FS.readFile e.path catch _ => pure ""
    return (e.fileName, .file text)

/-- The tree with a copy of the directory at a path in it. -/
def copyDirectory (t : FileTree) (p : Path) : IO FileTree := do
  let absolute : Path := ⟨(← IO.FS.realPath p.text).toString⟩
  let e : IO.FS.DirEntry := ⟨absolute.text, "."⟩
  let (_, n) ← copyEntry e
  return (t.createDirectories absolute).2.put absolute.steps n

/-- The files that a command may need. -/
def copyFor (command : Command) : IO FileTree := do
  let here : Path := ⟨(← IO.currentDir).toString⟩
  let t ← copyDirectory (.empty here.steps) here
  match command.file?.map Path.directory with
  | none => return t
  | some dir =>
    if t.isDirectory dir then return t
    else try copyDirectory t dir catch _ => return t

/-- Write back what a command changed. -/
def writeBack (before after : FileTree) : IO Unit := do
  let old := before.fromRoot.directories
  for dir in after.fromRoot.directories do
    unless old.contains dir do
      IO.FS.createDirAll ("/" ++ dir)
  for (path, text) in after.fromRoot.changedSince before.fromRoot do
    IO.FS.writeFile ("/" ++ path) text

/-- Run a command, and tell whether it succeeded. -/
def perform (command : Command) : IO Bool := do
  let before ← copyFor command
  let outcome := command.run before
  writeBack before outcome.tree
  IO.print outcome.out
  IO.eprint outcome.err
  match outcome.failure? with
  | none => return true
  | some message =>
    IO.eprintln ("error: " ++ message)
    return false

/-- The names of the commands, for those who ask for help. -/
def summaryText : String :=
  "usage: querygen [--verbose] <command>\ncommands: "
    ++ ", ".intercalate (commands.map CommandRule.name)

/-- Tell what is wrong with arguments, or what they ask for; the result is the exit code. -/
def explain : UsageError → IO UInt32
  | .helpWanted => do
    IO.println summaryText
    return 0
  | .versionWanted => do
    IO.println "querygen 0.1.0"
    return 0
  | _ => do
    IO.eprintln summaryText
    return 2

end Orchestration.CommandLine

open Orchestration.CommandLine in
/-- Run the command that the arguments ask for. -/
def main (args : List String) : IO UInt32 := do
  match Command.ofArguments args with
  | .error e => explain e
  | .ok command => return if ← perform command then 0 else 1
