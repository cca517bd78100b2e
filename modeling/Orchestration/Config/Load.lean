import Orchestration.Config.Decode
import Orchestration.Files.Pattern
import Orchestration.Toml.Tree
import Orchestration.Yaml.Tree

/-!
# Loading configurations

A configuration is read from a file whose extension tells its format. The schemas of the files that its
patterns ask for are put behind its own, pattern by pattern. Patterns and file names in a configuration
are meant relative to the directory of the configuration.
-/

namespace Orchestration

/-- The formats of configurations. -/
inductive Format where
  /-- Indented text. -/
  | yaml
  /-- Text with headed sections. -/
  | toml
deriving Repr, DecidableEq

namespace Format

/-- The name of a format. -/
def name : Format → String
  | yaml => "YAML"
  | toml => "TOML"

/-- The format of the file at a path. -/
def ofPath (p : Path) : Format :=
  if p.extension? = some "toml" then toml else yaml

/-- What a text in the format says. -/
def parse? : Format → String → Option Document
  | yaml => Yaml.parse?
  | toml => Toml.parse?

end Format

/-- Why a configuration or a descriptor was not loaded. -/
inductive LoadError where
  /-- A file was not read. -/
  | unreadable (path : Path) (error : FileError)
  /-- The text of a configuration means nothing. -/
  | badConfig (format : Format)
  /-- The text of a schema file means nothing. -/
  | badSchemas (path : Path) (format : Format)
  /-- A pattern is none. -/
  | badPattern (pattern : String)
  /-- The descriptor file was not read. -/
  | unreadableDescriptor (path : Path) (error : FileError)
  /-- The text of a descriptor means nothing. -/
  | badDescriptor
deriving Repr, DecidableEq

/-- The wording of a load error. -/
def LoadError.message : LoadError → String
  | unreadable path error => "failed to read " ++ path.text ++ ": " ++ error.message
  | badConfig format => format.name ++ " parse error"
  | badSchemas path format => path.text ++ ": " ++ format.name ++ " parse error"
  | badPattern pattern => "invalid include pattern '" ++ pattern ++ "'"
  | unreadableDescriptor path error =>
    "failed to read descriptor " ++ path.text ++ ": " ++ error.message
  | badDescriptor => "descriptor parse error"

/-- The directory that the names in a configuration are relative to. -/
def Path.directory (p : Path) : Path :=
  match p.parent? with
  | none => ⟨"."⟩
  | some dir => if dir.text = "" then ⟨"."⟩ else dir

/-- Read a configuration from a text. -/
def Config.parse (format : Format) (text : String) : Except LoadError Config :=
  match (format.parse? text).bind Config.ofDocument? with
  | none => .error (.badConfig format)
  | some c => .ok c

/-- Read a descriptor from a text. -/
def Descriptor.parse (text : String) : Except LoadError Descriptor :=
  match (Yaml.parse? text).bind Descriptor.ofDocument? with
  | none => .error .badDescriptor
  | some d => .ok d

namespace FileTree

/-- The text of a file of a configuration. -/
def loadText (t : FileTree) (p : Path) : Except LoadError String :=
  match t.read p with
  | .error e => .error (.unreadable p e)
  | .ok text => .ok text

/-- The schemas of a schema file. -/
def loadSchemas (t : FileTree) (p : Path) : Except LoadError (List Schema) := do
  let text ← t.loadText p
  match ((Format.ofPath p).parse? text).bind Schema.listOfDocument? with
  | none => .error (.badSchemas p (.ofPath p))
  | some schemas => .ok schemas

/-- The schemas of the files that a pattern asks for. -/
def loadIncluded (t : FileTree) (base : Path) (pattern : String) :
    Except LoadError (List Schema) :=
  match (base.join pattern).pattern? with
  | none => .error (.badPattern pattern)
  | some q => return (← (t.matchingFiles q).mapM t.loadSchemas).flatten

/-- The configuration in a file, with the schemas that its patterns bring in. -/
def loadConfig (t : FileTree) (p : Path) : Except LoadError Config := do
  let text ← t.loadText p
  let c ← Config.parse (.ofPath p) text
  let included ← c.includes.mapM (t.loadIncluded p.directory)
  return { c with schemas := c.schemas ++ included.flatten }

/-- The descriptor in a file. -/
def loadDescriptor (t : FileTree) (p : Path) : Except LoadError Descriptor :=
  match t.read p with
  | .error e => .error (.unreadableDescriptor p e)
  | .ok text => Descriptor.parse text

end FileTree

end Orchestration
