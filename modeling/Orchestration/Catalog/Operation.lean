import Orchestration.Catalog.Signature

/-!
# Operation shapes

The part of a signature that aggregation needs: what argument an operation takes and what result it
gives. A signature may fail to have such a shape; the fault is then recorded next to whatever could
be read before it, and using the operation is refused later.
-/

namespace Orchestration

/-- The argument of an operation, beside the invocation context. -/
inductive Argument where
  /-- The operation takes none. -/
  | none
  /-- A composite, with its fields. -/
  | composite (typeName : String) (fields : Fields)
  /-- Any other value, by its printed type. -/
  | plain (typeName : String)
deriving DecidableEq

namespace Argument

/-- The name of the argument's type, empty if there is no argument. -/
def typeName : Argument → String
  | none => ""
  | composite name _ => name
  | plain name => name

/-- The fields of the argument; a plain one counts as a single field without a name. -/
def fields : Argument → Fields
  | none => ∅
  | composite _ fields => fields
  | plain name => Table.empty.insert "" name

/-- Whether the argument is a composite. -/
def isComposite : Argument → Bool
  | composite _ _ => true
  | _ => false

/-- The argument, or none if its type has no name: whether there is one is told by the name. -/
def ifNamed (a : Argument) : Argument :=
  if a.typeName = "" then none else a

end Argument

/-- How the values of a result are held. -/
inductive ResultForm where
  /-- One value. -/
  | single
  /-- A reference to one value. -/
  | reference
  /-- A collection. -/
  | collection
deriving Repr, DecidableEq

/-- The result of an operation. -/
inductive ResultShape where
  /-- Nothing but success or an error. -/
  | errorOnly
  /-- Values of a type; the name is empty if the type could not be read. -/
  | value (form : ResultForm) (typeName : String) (fields : Fields)
deriving DecidableEq

namespace ResultShape

/-- Whether the operation only succeeds or fails. -/
def isErrorOnly : ResultShape → Bool
  | errorOnly => true
  | value .. => false

/-- The name of the result's type, empty if there is none. -/
def typeName : ResultShape → String
  | errorOnly => ""
  | value _ name _ => name

/-- The fields of the result's type. -/
def fields : ResultShape → Fields
  | errorOnly => ∅
  | value _ _ fields => fields

/-- Whether the result is a collection. -/
def isCollection : ResultShape → Bool
  | value .collection _ _ => true
  | _ => false

/-- Whether the result is a reference to one value. -/
def isReference : ResultShape → Bool
  | value .reference _ _ => true
  | _ => false

end ResultShape

/-- Why a signature has no shape that aggregation can use. -/
inductive SignatureFault where
  /-- There is no output at all. -/
  | noResults
  /-- The first output is of a kind that cannot be a result. -/
  | unsupportedResult (shape : TypeShape)
  /-- There is no input at all. -/
  | missingContext
  /-- The first input is something other than the context. -/
  | contextExpected (shape : TypeShape)
  /-- The argument is of a kind that cannot be passed. -/
  | unsupportedArgument (shape : TypeShape)
  /-- There is more than one input after the context. -/
  | tooManyArguments (count : Nat)
deriving DecidableEq

/-- The wording of a fault. -/
def SignatureFault.message : SignatureFault → String
  | noResults => "operation has no results"
  | unsupportedResult shape => "unsupported result type " ++ shape.display
  | missingContext => "missing invocation context"
  | contextExpected shape => "first input must be the context, got " ++ shape.display
  | unsupportedArgument shape => "unsupported parameter type " ++ shape.display
  | tooManyArguments count => "expected at most one argument, got " ++ toString count

/-- The shape of one operation. -/
structure OperationShape where
  /-- The operation's name. -/
  name : String
  /-- Its argument. -/
  argument : Argument
  /-- Its result. -/
  result : ResultShape
  /-- Why the signature is of no use, if it is not. -/
  fault : Option SignatureFault
deriving DecidableEq

namespace OperationShape

/-- Whether the operation takes an argument beyond the context. -/
def hasArgument (op : OperationShape) : Bool :=
  op.argument ≠ .none

/-- The form of a result shape, and the shape of one value in it. -/
def formOf : TypeShape → ResultForm × TypeShape
  | .ref inner => (.reference, inner)
  | .list (.ref element) => (.collection, element)
  | .list element => (.collection, element)
  | shape => (.single, shape)

/-- The result that the outputs describe. One output is the error slot alone; of several the first
is the result. -/
def resultOf : List TypeShape → ResultShape × Option SignatureFault
  | [] => (.value .single "" ∅, some .noResults)
  | [_] => (.errorOnly, none)
  | first :: _ :: _ =>
    let (form, target) := formOf first
    match target with
    | .struct name fields => (.value form name fields, none)
    | .scalar name => (.value form name ∅, none)
    | other => (.value form "" ∅, some (.unsupportedResult other))

/-- The argument that the inputs describe. -/
def argumentOf : List TypeShape → Except SignatureFault Argument
  | [] => .error .missingContext
  | .context :: rest =>
    match rest with
    | [] => .ok .none
    | [shape] =>
      match shape.composite? with
      | some (name, fields) => .ok (.composite name fields)
      | none =>
        match shape with
        | .scalar _ | .list _ | .ref _ => .ok (.plain shape.display)
        | other => .error (.unsupportedArgument other)
    | more => .error (.tooManyArguments more.length)
  | first :: _ => .error (.contextExpected first)

/-- The shape of the operation with the given name and signature. The result is read first; the
argument is left out when the result already has a fault. -/
def ofSignature (name : String) (s : Signature) : OperationShape :=
  match resultOf s.outputs with
  | (result, some fault) => ⟨name, .none, result, some fault⟩
  | (result, none) =>
    match argumentOf s.inputs with
    | .error fault => ⟨name, .none, result, some fault⟩
    | .ok argument => ⟨name, argument.ifNamed, result, none⟩

/-- A one-line summary of the shape. -/
def summary (op : OperationShape) : String :=
  match op.fault with
  | some fault => op.name ++ " UNANALYZABLE (" ++ fault.message ++ ")"
  | none =>
    let argument :=
      match op.argument with
      | .none => ""
      | .composite name fields => name ++ " \x7b" ++ toString fields.size ++ "\x7d"
      | .plain name => name
    let result :=
      match op.result with
      | .errorOnly => "error"
      | .value .collection name _ => "[" ++ name ++ "]"
      | .value .reference name _ => "&" ++ name
      | .value .single name _ => name
    op.name ++ "(" ++ argument ++ ") -> " ++ result

end OperationShape

/-- Everything aggregation knows about the operations it may combine. -/
structure Catalog where
  /-- The namespace of the operations. -/
  scope : String
  /-- The shapes of the operations, by name. -/
  operations : Table OperationShape
  /-- The composite types. -/
  types : TypeTable

namespace Catalog

/-- The shape of an operation. -/
def get? (c : Catalog) (name : String) : Option OperationShape :=
  c.operations.get? name

/-- The catalog of the operations that a registry lists. -/
def ofRegistry (r : Registry) : Catalog :=
  { scope := r.scope
    operations := r.listed.map OperationShape.ofSignature
    types := r.types }

/-- The catalog of a descriptor. -/
def ofDescriptor (d : Descriptor) : Catalog :=
  ofRegistry (Registry.ofDescriptor d)

end Catalog

end Orchestration
