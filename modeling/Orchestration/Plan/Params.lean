import Orchestration.Plan.Basic
import Orchestration.Schema.Resolved

/-!
# Collecting parameters

Every member with an argument either brings a parameter into the new operation or shares one that is
there. A composite argument is always a parameter named after its type; a plain one is named by the
member, shared along a path, or named after its operation. Two members may bring in one parameter if
its type is the same; the first to do so decides its place.
-/

namespace Orchestration

open PlanError (Cause)

/-- The parameter name of a composite: the snake form of its type, set apart from reserved names. -/
def compositeParamName (typeName : String) : String :=
  let field := Naming.snakeCase typeName
  if Naming.isReserved field then field ++ "_param" else field

/-- The parameter name of a plain argument that the schema leaves unnamed. -/
def defaultParamName (operation : String) : String :=
  Naming.snakeCase operation ++ "_arg"

/-- The parameters with one more, unless it is there with the same type. -/
def registerParam (params : Table Param) (entry : Param) : Except Cause (Table Param) :=
  match params.get? entry.fieldName with
  | none => .ok (params.insert entry.fieldName entry)
  | some existing =>
    if existing.typeName = entry.typeName then .ok params
    else .error (.conflictingParam entry.fieldName existing.typeName entry.typeName)

/-- The binding along a path into the parameters. Only the first field after the root is checked. -/
def shareParam (params : Table Param) (operation : String) (path : ParamPath) :
    Except Cause Binding :=
  match params.get? path.root with
  | none => .error (.unboundSharedParam operation path.display)
  | some root =>
    match path.rest with
    | [] => .ok (.shared path.root [])
    | field :: rest =>
      if root.composite && root.fields.contains field then .ok (.shared path.root (field :: rest))
      else .error (.unknownSharedField operation path.display path.root field)

/-- Bind a plain argument to a parameter of the given name. -/
def bindPlain (params : Table Param) (name typeName : String) :
    Except Cause (Table Param × Binding) := do
  let params ← registerParam params
    { fieldName := name
      typeName := typeName
      fields := (Argument.plain typeName).fields
      composite := false }
  return (params, .field name)

/-- Where a member takes its argument from, and the parameters after it. -/
def bindArgument (params : Table Param) (m : ResolvedMember) (op : OperationShape) :
    Except Cause (Table Param × Binding) :=
  match op.argument with
  | .none => .ok (params, .none)
  | .composite typeName fields => do
    let name := compositeParamName typeName
    let params ← registerParam params
      { fieldName := name, typeName := typeName, fields := fields, composite := true }
    return (params, .field name)
  | .plain typeName =>
    match m.paramName, m.sharedParam with
    | some name, _ =>
      if Naming.isReserved name then .error (.reservedParamName op.name name)
      else bindPlain params name typeName
    | none, some path => do
      let binding ← shareParam params op.name path
      return (params, binding)
    | none, none => bindPlain params (defaultParamName op.name) typeName

/-- The parameter that a member is going to bring in, if it is to bring one in. -/
def announcedParam? (m : ResolvedMember) (op : OperationShape) : Option String :=
  if op.fault.isSome then none
  else
    match op.argument with
    | .none => none
    | .composite typeName _ => some (compositeParamName typeName)
    | .plain _ =>
      match m.paramName, m.sharedParam with
      | some name, _ => some name
      | none, some _ => none
      | none, none => some (defaultParamName op.name)

end Orchestration
