import Orchestration.Catalog.Operation
import Orchestration.Naming.SnakeCase
import Orchestration.PlanError
import Orchestration.Schema.Basic
import Orchestration.Schema.ParamPath

/-!
# Resolved schemas

Resolving a schema against a catalog checks that every operation exists, that the output is a
composite behind at most one reference, and that shared paths are well formed. Every optional part is
then given an explicit value. The output is resolved first, then the members in order; the first
problem ends the resolution.
-/

namespace Orchestration

/-- What becomes of a member's result. -/
inductive ResultMode where
  /-- It is bound to a name. -/
  | bind
  /-- It is not bound at all. -/
  | suppress
  /-- It is bound to the discard marker. -/
  | discard
deriving Repr, DecidableEq

/-- The type that the results are assembled into. -/
structure OutputShape where
  /-- The composite's name. -/
  typeName : String
  /-- Whether the new operation gives a reference to it. -/
  isRef : Bool
  /-- Its fields. -/
  fields : Fields
deriving DecidableEq

/-- A member with every choice made explicit. -/
structure ResolvedMember where
  /-- The operation's name in the catalog. -/
  operation : String
  /-- The name given for a plain argument. -/
  paramName : Option String
  /-- The path given into an earlier parameter. -/
  sharedParam : Option ParamPath
  /-- The name given for the result. -/
  resultName : Option String
  /-- What becomes of the result. -/
  resultMode : ResultMode
deriving Repr, DecidableEq

/-- A group of resolved members. -/
structure ResolvedGroup where
  /-- Whether the members are declared to share a transaction. -/
  declaredTransactional : Bool
  /-- The members, in declaration order. -/
  members : List ResolvedMember
deriving Repr, DecidableEq

/-- A schema whose references were checked against a catalog. -/
structure ResolvedSchema where
  /-- The name of the new operation. -/
  name : String
  /-- What the results are assembled into. -/
  output : OutputShape
  /-- The groups, in the order in which they run. -/
  groups : List ResolvedGroup
  /-- The stem of the output file. -/
  outFile : String
deriving DecidableEq

namespace Schema

open PlanError (Cause)

/-- The built-in value types, which are never an output. -/
def scalarTypes : List String :=
  ["bool", "char", "str", "String", "i8", "i16", "i32", "i64", "i128", "isize", "u8", "u16",
   "u32", "u64", "u128", "usize", "f32", "f64"]

/-- Whether a character belongs to the references in front of a type. -/
def isReferenceMark (c : Char) : Bool :=
  c = '&' || Text.isBlank c

/-- Whether the text can only be a wrapped or built-in type. -/
def isNeverComposite (cs : List Char) : Bool :=
  ['['].isPrefixOf cs || "Vec<".toList.isPrefixOf cs || "Option<".toList.isPrefixOf cs
    || scalarTypes.contains (String.ofList cs)

/-- The output that a trimmed, non-empty expression names. -/
def outputOf (types : TypeTable) (expr : List Char) : Except Cause OutputShape :=
  let depth := (expr.takeWhile isReferenceMark).count '&'
  let inner := expr.dropWhile isReferenceMark
  let name := String.ofList inner
  if 1 < depth then .error (.doubleIndirection (String.ofList expr))
  else if isNeverComposite inner then .error (.notComposite (String.ofList expr))
  else
    match types.get? name with
    | none => .error (.unknownOutputType name)
    | some fields =>
      if fields.isEmpty then .error (.notComposite name) else .ok ⟨name, depth == 1, fields⟩

/-- The output of a schema. -/
def resolveOutput (types : TypeTable) (output : Option String) : Except Cause OutputShape :=
  match Text.trim (output.getD "").toList with
  | [] => .error .missingOutputType
  | expr => outputOf types expr

end Schema

namespace Member

open PlanError (Cause)

/-- What becomes of the member's result; suppressing it wins over discarding it. -/
def resultMode (m : Member) : ResultMode :=
  if m.suppressResult then .suppress else if m.discardResult then .discard else .bind

/-- The member with its shared path read. -/
def withPath (m : Member) (path : Option ParamPath) : ResolvedMember :=
  { operation := m.operation
    paramName := m.paramName
    sharedParam := path
    resultName := m.resultName
    resultMode := m.resultMode }

/-- The member with every choice made explicit. -/
def resolve (catalog : Catalog) (m : Member) : Except Cause ResolvedMember :=
  if (catalog.get? m.operation).isNone then .error (.unknownOperation m.operation)
  else
    match m.sharedParam with
    | none => .ok (m.withPath none)
    | some text =>
      match ParamPath.parse? text with
      | none => .error (.invalidParamPath text)
      | some path => .ok (m.withPath (some path))

end Member

/-- The group with its members resolved. -/
def Group.resolve (catalog : Catalog) (g : Group) : Except PlanError.Cause ResolvedGroup := do
  let members ← g.members.mapM (Member.resolve catalog)
  return ⟨g.transactional, members⟩

namespace Schema

/-- The stem of the output file: the one given, or the snake form of the name. -/
def stem (s : Schema) : String :=
  s.outFile.getD (Naming.snakeCase s.name)

/-- The schema with its references checked against a catalog. -/
def resolve (catalog : Catalog) (s : Schema) : Except PlanError ResolvedSchema :=
  Except.mapError (PlanError.mk s.name) do
    let output ← resolveOutput catalog.types s.output
    let groups ← s.groups.mapM (Group.resolve catalog)
    return { name := s.name, output := output, groups := groups, outFile := s.stem }

end Schema

end Orchestration
