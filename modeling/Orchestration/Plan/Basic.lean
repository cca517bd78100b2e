import Orchestration.Table

/-!
# Plans

A plan is the fully resolved form of a schema: the parameters of the new operation, its groups with
where every member takes its argument from and what its result is called, and which result fills
which field of the output.
-/

namespace Orchestration

/-- One parameter of the new operation. -/
structure Param where
  /-- Its name. -/
  fieldName : String
  /-- Its printed type. -/
  typeName : String
  /-- The fields of its type; a plain parameter has a single field without a name. -/
  fields : Table String
  /-- Whether its type is a composite. -/
  composite : Bool
deriving DecidableEq

/-- Where a member takes its argument from. -/
inductive Binding where
  /-- The member takes none. -/
  | none
  /-- A parameter of the new operation. -/
  | field (name : String)
  /-- A path into a parameter that an earlier member brought in. -/
  | shared (root : String) (path : List String)
deriving Repr, DecidableEq

/-- One call of the new operation. -/
structure PlanMember where
  /-- The operation called. -/
  operation : String
  /-- What the result is called: empty if it is not bound, `_` if it is dropped. -/
  resultVar : String
  /-- The name of the result's type. -/
  resultType : String
  /-- Whether the result is a collection. -/
  resultIsCollection : Bool
  /-- Whether the operation only succeeds or fails. -/
  isErrorOnly : Bool
  /-- Where the argument comes from. -/
  binding : Binding
deriving Repr, DecidableEq

/-- The name that drops a result. -/
def discardMarker : String := "_"

/-- Whether the member's result can be used later. -/
def PlanMember.bindsResult (m : PlanMember) : Bool :=
  m.resultVar ≠ "" && m.resultVar ≠ discardMarker

/-- How the members of a group run. -/
inductive Discipline where
  /-- In sequence, inside one transaction. -/
  | transactional
  /-- At the same time, joined at the end. -/
  | concurrent
  /-- In sequence. -/
  | direct
deriving Repr, DecidableEq

/-- The discipline's name in capitals. -/
def Discipline.label : Discipline → String
  | transactional => "TRANSACTIONAL"
  | concurrent => "CONCURRENT"
  | direct => "DIRECT"

/-- One group of the new operation. -/
structure PlanGroup where
  /-- Whether its members share a transaction. -/
  transactional : Bool
  /-- Its members, in declaration order. -/
  members : List PlanMember
deriving Repr, DecidableEq

/-- How the group runs: several members without a transaction run concurrently. -/
def PlanGroup.discipline (g : PlanGroup) : Discipline :=
  if g.transactional then .transactional
  else if 1 < g.members.length then .concurrent
  else .direct

/-- One field of the output. -/
structure OutputField where
  /-- Its name. -/
  name : String
  /-- Its type, as written. -/
  typeName : String
  /-- The result that fills it; a field without one takes its default. -/
  source : Option String
deriving Repr, DecidableEq

/-- The fully resolved form of a schema. -/
structure Plan where
  /-- The name of the new operation. -/
  name : String
  /-- The namespace of the generated code. -/
  scope : String
  /-- The parameters, in the order in which members first bring them in. -/
  params : Table Param
  /-- Whether the parameters are gathered in a type of their own. -/
  useParamStruct : Bool
  /-- The name of the new operation's parameter, empty if it has none. -/
  paramName : String
  /-- The type of the new operation's parameter. -/
  paramTypeName : String
  /-- The groups, in the order in which they run. -/
  groups : List PlanGroup
  /-- The composite that the output is. -/
  outputTypeName : String
  /-- Whether the new operation gives a reference to it. -/
  outputIsRef : Bool
  /-- The fields of the output. -/
  outputFields : List OutputField
  /-- Whether any group shares a transaction. -/
  usesSharedContext : Bool
deriving DecidableEq

namespace Plan

/-- The expression that reaches a member's argument inside the generated body. -/
def bindingExpr (p : Plan) (b : Binding) : Option String :=
  let lead := if p.useParamStruct then p.paramName ++ "." else ""
  match b with
  | .none => Option.none
  | .field name => some (lead ++ name)
  | .shared root path => some (path.foldl (fun expr field => expr ++ "." ++ field) (lead ++ root))

end Plan

end Orchestration
