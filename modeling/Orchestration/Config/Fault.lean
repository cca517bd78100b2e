import Orchestration.Config.Basic
import Orchestration.Naming.Identifier
import Orchestration.Text.Blank

/-!
# Faults of a configuration

What can be wrong with a configuration before its catalog is known: the version, names that are no
identifiers or are reserved, file stems that are more than a stem, empty groups, and schemas declared
twice. All faults are listed, in the order of the configuration.
-/

namespace Orchestration

/-- A fault of a member's explicit name. -/
inductive NameFault where
  /-- The name is no identifier. -/
  | notIdentifier
  /-- The name is reserved in generated code. -/
  | reserved
deriving Repr, DecidableEq

/-- A fault of a configuration. -/
inductive ConfigFault where
  /-- The version is not the supported one. -/
  | version (found : String)
  /-- No descriptor file is named. -/
  | noCatalog
  /-- The namespace is no path of identifiers. -/
  | badNamespace (scope : String)
  /-- The receiver is no identifier. -/
  | badReceiver (receiver : String)
  /-- A schema has no name. -/
  | unnamedSchema
  /-- A schema's name is no identifier. -/
  | badSchemaName (schema : String)
  /-- A schema's output file is no plain file stem. -/
  | badOutFile (schema outFile : String)
  /-- A schema has no groups. -/
  | noGroups (schema : String)
  /-- A group has no members. -/
  | noMembers (schema : String) (group : Nat)
  /-- A member names no operation. -/
  | noOperation (schema : String) (group : Nat)
  /-- A member's explicit name, of the given kind, is at fault. -/
  | badMemberName (schema operation kind name : String) (fault : NameFault)
  /-- Two schemas have one name. -/
  | duplicateSchema (schema : String)
deriving Repr, DecidableEq

namespace ConfigFault

/-- The wording of a fault. -/
def message : ConfigFault → String
  | version found => "version must be \"1.0\", got \"" ++ found ++ "\""
  | noCatalog => "catalog must name a descriptor file"
  | badNamespace scope => "namespace '" ++ scope ++ "' is not a valid module path"
  | badReceiver receiver => "receiver '" ++ receiver ++ "' is not an identifier"
  | unnamedSchema => "schema name must not be empty"
  | badSchemaName schema => "schema '" ++ schema ++ "' name is not an identifier"
  | badOutFile schema outFile =>
    "schema '" ++ schema ++ "' out_file '" ++ outFile ++ "' must be a plain file stem"
  | noGroups schema => "schema '" ++ schema ++ "' has no groups"
  | noMembers schema group => "schema '" ++ schema ++ "' group " ++ toString group ++ " has no members"
  | noOperation schema group =>
    "schema '" ++ schema ++ "' group " ++ toString group ++ " has a member with no operation"
  | badMemberName schema operation kind name fault =>
    "schema '" ++ schema ++ "' member '" ++ operation ++ "' " ++ kind ++ " '" ++ name ++
      (match fault with
       | .notIdentifier => "' is not an identifier"
       | .reserved => "' is reserved in generated code")
  | duplicateSchema schema => "schema '" ++ schema ++ "' is declared more than once"

end ConfigFault

/-- What is wrong with an explicit name, if anything is. -/
def nameFault? (name : String) : Option NameFault :=
  if !Naming.isIdentifier name then some .notIdentifier
  else if Naming.isReserved name then some .reserved
  else none

namespace Member

/-- The fault of one of the member's explicit names. -/
def nameFaults (schema : String) (m : Member) (kind : String) (name : Option String) :
    List ConfigFault :=
  ((name.bind fun n => (nameFault? n).map fun fault =>
    ConfigFault.badMemberName schema m.operation kind n fault)).toList

/-- The faults of a member of the group with the given number. -/
def faults (schema : String) (group : Nat) (m : Member) : List ConfigFault :=
  if m.operation = "" then [.noOperation schema group]
  else m.nameFaults schema "param_name" m.paramName ++ m.nameFaults schema "result_name" m.resultName

end Member

/-- The faults of the group with the given number. -/
def Group.faults (schema : String) (number : Nat) (g : Group) : List ConfigFault :=
  (if g.members.isEmpty then [.noMembers schema number] else [])
    ++ g.members.flatMap (Member.faults schema number)

namespace Schema

/-- Whether a text is a plain file stem. -/
def isPlainStem (stem : String) : Bool :=
  stem ≠ "" && stem.toList.all fun c => c ≠ '/' && c ≠ '\\'

/-- The faults of a schema. A schema without a name has no others. -/
def faults (s : Schema) : List ConfigFault :=
  if s.name = "" then [.unnamedSchema]
  else
    (if Naming.isIdentifier s.name then [] else [.badSchemaName s.name])
      ++ ((s.outFile.filter fun stem => !isPlainStem stem).map (ConfigFault.badOutFile s.name)).toList
      ++ (if s.groups.isEmpty then [.noGroups s.name] else [])
      ++ s.groups.zipIdx.flatMap fun e => e.1.faults s.name e.2

/-- The faults of schemas in order; `seen` are the names of those before. A repeated name is reported
after the other faults of its schema. -/
def faultsAll (seen : List String) : List Schema → List ConfigFault
  | [] => []
  | s :: rest =>
    s.faults ++ (if s.name ≠ "" && seen.contains s.name then [.duplicateSchema s.name] else [])
      ++ faultsAll (s.name :: seen) rest

end Schema

namespace Config

/-- The supported version. -/
def supportedVersion : String := "1.0"

/-- The faults of a configuration. -/
def faults (c : Config) : List ConfigFault :=
  (if c.version = supportedVersion then [] else [.version c.version])
    ++ (if (Text.trim c.catalog.toList).isEmpty then [.noCatalog] else [])
    ++ ((c.scope.filter fun s => !Naming.isModulePath s.toList).map ConfigFault.badNamespace).toList
    ++ (if Naming.isIdentifier c.receiver then [] else [.badReceiver c.receiver])
    ++ Schema.faultsAll [] c.schemas

end Config

end Orchestration
