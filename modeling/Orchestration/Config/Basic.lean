import Orchestration.Schema.Basic

/-!
# Configurations

A configuration names the operation descriptor, says where and how files are generated, and holds the
aggregation schemas, of which further ones may be pulled in from other files.
-/

namespace Orchestration

/-- What a failing schema does to the rest of a batch. -/
inductive FailurePolicy where
  /-- The remaining schemas are skipped. -/
  | stopOnFirst
  /-- The remaining schemas are generated all the same. -/
  | continueIndependent
deriving Repr, DecidableEq

namespace FailurePolicy

/-- The policies, the default first. -/
def all : List FailurePolicy := [stopOnFirst, continueIndependent]

/-- The name of a policy. -/
def name : FailurePolicy → String
  | stopOnFirst => "stop_on_first"
  | continueIndependent => "continue_independent"

/-- The policy with the given name. -/
def ofName? (s : String) : Option FailurePolicy :=
  all.find? fun p => p.name = s

end FailurePolicy

/-- One generator instance and the schemas it compiles. -/
structure Config where
  /-- The version of the configuration format. -/
  version : String
  /-- The namespace of the generated code, if it is not to be the catalog's. -/
  scope : Option String
  /-- The directory of the generated files. -/
  outDir : String
  /-- The template of the generated files. -/
  template : String
  /-- The type the generated operations belong to. -/
  receiver : String
  /-- The descriptor file, relative to the configuration file. -/
  catalog : String
  /-- Patterns of further schema files, relative to the configuration file. -/
  includes : List String
  /-- The schemas. -/
  schemas : List Schema
  /-- What a failing schema does to the rest. -/
  failure : FailurePolicy
deriving Repr, DecidableEq

namespace Config

/-- The directory of the generated files, if none is given. -/
def defaultOutDir : String := "."

/-- The template, if none is given. -/
def defaultTemplate : String := "multi_query"

/-- The receiver, if none is given. -/
def defaultReceiver : String := "Queries"

end Config

end Orchestration
