/-!
# Why a schema has no plan

Every cause names what it is about. All messages start with the schema's name, so the schema stands
beside the cause and not inside it.
-/

namespace Orchestration

/-- What keeps a schema from being resolved or compiled. -/
inductive PlanError.Cause where
  /-- An operation is not in the catalog. -/
  | unknownOperation (operation : String)
  /-- No output type is given. -/
  | missingOutputType
  /-- The output type is not in the catalog. -/
  | unknownOutputType (typeName : String)
  /-- A shared path starts at a parameter that no earlier member binds. -/
  | unboundSharedParam (operation path : String)
  /-- A shared path goes on to a field that its parameter does not have. -/
  | unknownSharedField (operation path root field : String)
  /-- The output type has no fields to fill. -/
  | notComposite (typeName : String)
  /-- The output type is a reference to a reference. -/
  | doubleIndirection (typeName : String)
  /-- The signature of an operation is of no use. -/
  | unanalyzableOperation (operation reason : String)
  /-- Two members bring in one parameter with different types. -/
  | conflictingParam (field existing incoming : String)
  /-- An explicit result name is taken. -/
  | resultNameConflict (operation name : String)
  /-- An explicit parameter name is reserved. -/
  | reservedParamName (operation name : String)
  /-- A shared path is malformed. -/
  | invalidParamPath (path : String)
deriving Repr, DecidableEq

namespace PlanError.Cause

/-- Whether the cause is a reference that leads nowhere; the others are shapes that do not fit. -/
def isResolution : PlanError.Cause → Bool
  | unknownOperation .. | missingOutputType | unknownOutputType .. | unboundSharedParam ..
  | unknownSharedField .. => true
  | _ => false

/-- The wording of a cause. -/
def message : PlanError.Cause → String
  | unknownOperation operation => "operation '" ++ operation ++ "' not found in catalog"
  | missingOutputType => "output type is missing"
  | unknownOutputType typeName => "output type '" ++ typeName ++ "' not found in catalog"
  | unboundSharedParam operation path =>
    "'" ++ operation ++ "' shares parameter '" ++ path ++ "' before any group binds it"
  | unknownSharedField operation path root field =>
    "'" ++ operation ++ "' shares '" ++ path ++ "' but '" ++ root ++ "' has no field '" ++ field ++ "'"
  | notComposite typeName => "output type '" ++ typeName ++ "' is not a composite type"
  | doubleIndirection typeName =>
    "output type '" ++ typeName ++ "' is wrapped in indirection twice"
  | unanalyzableOperation operation reason =>
    "operation '" ++ operation ++ "' has an unanalyzable signature: " ++ reason
  | conflictingParam field existing incoming =>
    "parameter '" ++ field ++ "' bound as " ++ existing ++ " and " ++ incoming
  | resultNameConflict operation name =>
    "result name '" ++ name ++ "' of '" ++ operation ++ "' is already taken"
  | reservedParamName operation name =>
    "parameter name '" ++ name ++ "' of '" ++ operation ++ "' is reserved in generated code"
  | invalidParamPath path => "invalid shared parameter path '" ++ path ++ "'"

end PlanError.Cause

/-- A schema that has no plan, and why. -/
structure PlanError where
  /-- The schema's name. -/
  schema : String
  /-- What is wrong with it. -/
  cause : PlanError.Cause
deriving Repr, DecidableEq

/-- The full message. -/
def PlanError.message (e : PlanError) : String :=
  "schema '" ++ e.schema ++ "': " ++ e.cause.message

end Orchestration
