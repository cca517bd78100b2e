import Orchestration.CommandLine.Arguments
import Orchestration.Files.Path

/-!
# Commands

The commands of the command line with their arguments. Options before the command are those of the
command line itself; a command has these and its own, but the version is only told before a command.
-/

namespace Orchestration.CommandLine

/-- What the command line can be asked to do. -/
inductive Command where
  /-- Start a project in a directory. -/
  | init (dir : Path)
  /-- Check a configuration and all of its schemas. -/
  | validate (file : Path)
  /-- Show the operation catalog. -/
  | catalog (file : Path) (json : Bool)
  /-- Show the plans of all schemas, or of one. -/
  | plan (file : Path) (schema? : Option String) (json : Bool)
  /-- Make the artifacts of all schemas, or of one. -/
  | generate (file : Path) (schema? : Option String) (outDir? : Option Path)
      (template? : Option String)
  /-- Show what a configuration may look like. -/
  | schema
  /-- Show completions for a shell. -/
  | completions (shell : String)
deriving Repr, DecidableEq

/-- The configuration file, if none is given. -/
def defaultFile : String := "querygen.yaml"

/-- The option for more output. -/
def verboseRule : OptionRule := ⟨"verbose", some 'v', .nothing⟩

/-- The option for help. -/
def helpRule : OptionRule := ⟨"help", some 'h', .help⟩

/-- The option for the version. -/
def versionRule : OptionRule := ⟨"version", some 'V', .version⟩

/-- The option for the configuration file. -/
def fileRule : OptionRule := ⟨"file", some 'f', .path⟩

/-- The option for a single schema. -/
def schemaRule : OptionRule := ⟨"schema", some 's', .text⟩

/-- The option for output as a document. -/
def jsonRule : OptionRule := ⟨"json", none, .nothing⟩

/-- The shells that have completions. -/
def shells : List String := ["bash", "elvish", "fish", "powershell", "zsh"]

/-- The configuration file that arguments name. -/
def Reading.file (r : Reading) : Path :=
  ⟨(r.value? "file").getD defaultFile⟩

/-- How a command is called. -/
structure CommandRule where
  /-- Its name. -/
  name : String
  /-- Its own options. -/
  options : List OptionRule
  /-- The argument that stands for itself. -/
  argument? : Option OptionRule
  /-- The command that arguments ask for, unless one is missing. -/
  build : Reading → Option Command

/-- The arguments of a command: its own and those that every command has. -/
def CommandRule.arguments (c : CommandRule) : ArgumentRules :=
  ⟨c.options ++ [verboseRule, helpRule], c.argument?⟩

/-- The commands. -/
def commands : List CommandRule :=
  [ { name := "init"
      options := []
      argument? := some ⟨"path", none, .path⟩
      build := fun r => some (.init ⟨(r.value? "path").getD "."⟩) },
    { name := "validate"
      options := [fileRule]
      argument? := none
      build := fun r => some (.validate r.file) },
    { name := "catalog"
      options := [fileRule, jsonRule]
      argument? := none
      build := fun r => some (.catalog r.file (r.has "json")) },
    { name := "plan"
      options := [fileRule, schemaRule, jsonRule]
      argument? := none
      build := fun r => some (.plan r.file (r.value? "schema") (r.has "json")) },
    { name := "generate"
      options := [fileRule, schemaRule, ⟨"out-dir", none, .path⟩, ⟨"template", none, .text⟩]
      argument? := none
      build := fun r =>
        some (.generate r.file (r.value? "schema") ((r.value? "out-dir").map Path.mk)
          (r.value? "template")) },
    { name := "schema"
      options := []
      argument? := none
      build := fun _ => some .schema },
    { name := "completions"
      options := []
      argument? := some ⟨"shell", none, .choice shells⟩
      build := fun r => (r.value? "shell").map .completions } ]

/-- The word that asks for help in place of a command. -/
def helpWord : String := "help"

/-- The command with the given name. -/
def command? (name : String) : Option CommandRule :=
  commands.find? fun c => c.name = name

/-- Whether a word stands where a command is expected. -/
def isCommandWord (word : String) : Bool :=
  word = helpWord || (command? word).isSome

namespace Command

/-- The options of the command line itself. -/
def globalOptions : List OptionRule := [verboseRule, helpRule, versionRule]

/-- What becomes of a request for help, by the words that follow. -/
def helpFor : List String → UsageError
  | [] => .helpWanted
  | [word] => if isCommandWord word then .helpWanted else .unknownCommand
  | _ => .unknownCommand

/-- Read the arguments of a command. -/
def ofRule (c : CommandRule) (args : List String) : Except UsageError Command :=
  match c.arguments.read args with
  | .error e => .error e
  | .ok r =>
    match c.build r with
    | none => .error .missingArgument
    | some command => .ok command

/-- What is wrong with arguments that end before a command. -/
def withoutCommand (r : Reading) : UsageError :=
  if r.given.isEmpty then .nothingGiven else .missingCommand

/-- What is wrong with arguments that have two dashes before a command. -/
def afterEscape (r : Reading) : List String → UsageError
  | [] => withoutCommand r
  | word :: _ => if isCommandWord word then .unknownArgument else .unknownCommand

/-- Read arguments from an option or the command on. -/
def readFrom (r : Reading) : List String → Except UsageError Command
  | [] => .error (withoutCommand r)
  | word :: rest =>
    if word = helpWord then .error (helpFor rest)
    else
      match command? word with
      | some c => ofRule c rest
      | none =>
        match Form.ofText word with
        | .escape => .error (afterEscape r rest)
        | form =>
          match r.option? globalOptions form with
          | none => .error .unknownCommand
          | some (.error e) => .error e
          | some (.ok r) => readFrom r rest

/-- The command that arguments ask for. -/
def ofArguments (args : List String) : Except UsageError Command :=
  readFrom .start args

end Command

end Orchestration.CommandLine
