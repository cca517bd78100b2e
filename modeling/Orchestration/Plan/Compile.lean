import Orchestration.Naming.Allocator
import Orchestration.Naming.Plural
import Orchestration.Plan.Output
import Orchestration.Plan.Params

/-!
# Compiling schemas

The groups and members of a resolved schema are walked in declaration order. Each member first binds
its argument and then names its result; the first problem ends the walk. All parameter names of the
schema are taken before any result is named, so that no result can hide a parameter that a later
member still needs.
-/

namespace Orchestration

open PlanError (Cause)

/-- The name of the parameter when the parameters are gathered in a type of their own. -/
def paramStructName : String := "params"

namespace Compile

/-- What the walk has collected so far. -/
structure Progress where
  /-- The parameters of the new operation. -/
  params : Table Param
  /-- The names given away. -/
  names : Naming.TakenNames

/-- The name of a member's result, and the names taken after it. -/
def nameResult (names : Naming.TakenNames) (m : ResolvedMember) (op : OperationShape) :
    Except Cause (String × Naming.TakenNames) :=
  if op.result.isErrorOnly then .ok ("", names)
  else
    match m.resultMode with
    | .suppress => .ok ("", names)
    | .discard => .ok (discardMarker, names)
    | .bind =>
      match m.resultName with
      | some name =>
        match names.claim? name with
        | none => .error (.resultNameConflict m.operation name)
        | some names => .ok (name, names)
      | none =>
        .ok (names.claimDerived (Naming.resultName op.result.typeName op.result.isCollection))

/-- Compile one member. -/
def member (catalog : Catalog) (state : Progress) (m : ResolvedMember) :
    Except Cause (PlanMember × Progress) :=
  match catalog.get? m.operation with
  | none => .error (.unknownOperation m.operation)
  | some op =>
    match op.fault with
    | some fault => .error (.unanalyzableOperation m.operation fault.message)
    | none => do
      let (params, binding) ← bindArgument state.params m op
      let (var, names) ← nameResult state.names m op
      return ({ operation := m.operation
                resultVar := var
                resultType := op.result.typeName
                resultIsCollection := op.result.isCollection
                isErrorOnly := op.result.isErrorOnly
                binding := binding }, ⟨params, names⟩)

/-- Compile the members of a group, in order. -/
def members (catalog : Catalog) :
    Progress → List ResolvedMember → Except Cause (List PlanMember × Progress)
  | state, [] => .ok ([], state)
  | state, m :: rest => do
    let (compiled, state) ← member catalog state m
    let (others, state) ← members catalog state rest
    return (compiled :: others, state)

/-- Compile groups, in order. A transaction needs more than one member. -/
def groups (catalog : Catalog) :
    Progress → List ResolvedGroup → Except Cause (List PlanGroup × Progress)
  | state, [] => .ok ([], state)
  | state, g :: rest => do
    let (compiled, state) ← members catalog state g.members
    let (others, state) ← groups catalog state rest
    return (⟨g.declaredTransactional && 1 < g.members.length, compiled⟩ :: others, state)

/-- The parameter names that the members of a schema are going to bring in. -/
def announcedParams (catalog : Catalog) (s : ResolvedSchema) : List String :=
  (s.groups.flatMap ResolvedGroup.members).filterMap fun m =>
    (catalog.get? m.operation).bind (announcedParam? m)

/-- The state before the first member. -/
def start (catalog : Catalog) (s : ResolvedSchema) : Progress :=
  ⟨∅, (announcedParams catalog s).foldl Naming.TakenNames.insert Naming.TakenNames.initial⟩

end Compile

/-- The new operation's parameter: whether it gathers several, its name and its type. -/
def wrapParams (schemaName : String) (params : Table Param) : Bool × String × String :=
  match params.values with
  | [] => (false, "", "")
  | [only] => (false, only.fieldName, only.typeName)
  | _ => (true, paramStructName, schemaName ++ "Params")

/-- The plan of a resolved schema. -/
def ResolvedSchema.compile (s : ResolvedSchema) (catalog : Catalog) (scope : String) :
    Except PlanError Plan :=
  Except.mapError (PlanError.mk s.name) do
    let (groups, state) ← Compile.groups catalog (Compile.start catalog s) s.groups
    let (useParamStruct, paramName, paramTypeName) := wrapParams s.name state.params
    return { name := s.name
             scope := scope
             params := state.params
             useParamStruct := useParamStruct
             paramName := paramName
             paramTypeName := paramTypeName
             groups := groups
             outputTypeName := s.output.typeName
             outputIsRef := s.output.isRef
             outputFields := assembleOutput s.output.fields.entries groups
             usesSharedContext := groups.any PlanGroup.transactional }

end Orchestration
