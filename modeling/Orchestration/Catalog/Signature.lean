import Orchestration.TypeExpr.Parser

/-!
# Operation signatures

A descriptor lists composite types and operations, with every type written as an expression. Reading
its expressions against its own composite types gives a registry: a name-indexed table of signatures.
Operations that administer the registry itself can be resolved by name but are never listed.
-/

namespace Orchestration

/-- The inputs and outputs of an operation as a descriptor writes them. -/
structure OperationEntry where
  /-- The input expressions, the invocation context first. -/
  inputs : List String
  /-- The output expressions, the error slot last. -/
  outputs : List String
deriving DecidableEq

/-- A description of composite types and operations. -/
structure Descriptor where
  /-- The namespace the operations live in. -/
  scope : String
  /-- The composite types with the expressions of their fields. -/
  types : TypeTable
  /-- The operations. -/
  operations : Table OperationEntry
deriving DecidableEq

/-- The description of nothing. -/
def Descriptor.empty : Descriptor :=
  ⟨"", ∅, ∅⟩

/-- The shapes of the inputs and outputs of one operation. -/
structure Signature where
  /-- The inputs, the invocation context first. -/
  inputs : List TypeShape
  /-- The outputs, the error slot last. -/
  outputs : List TypeShape
deriving DecidableEq

/-- Operation signatures by name, with the composite types they mention. -/
structure Registry where
  /-- The namespace the operations live in. -/
  scope : String
  /-- The composite types. -/
  types : TypeTable
  /-- Every operation, administrative ones included. -/
  operations : Table Signature

namespace Registry

/-- The operations that clone, decorate or introspect the registry itself. -/
def administrativeNames : List String :=
  ["WithTx", "ExtractMethods", "GetPkg", "Clone", "Describe"]

/-- Whether a name belongs to an administrative operation. -/
def isAdministrative (name : String) : Bool :=
  administrativeNames.contains name

/-- The composite types of a descriptor, their field types without surrounding white space. -/
def typesOf (types : TypeTable) : TypeTable :=
  types.map fun _ fields => fields.map fun _ expr => Text.trimmed expr

/-- The registry that a descriptor describes. -/
def ofDescriptor (d : Descriptor) : Registry :=
  let types := typesOf d.types
  { scope := d.scope
    types := types
    operations := d.operations.map fun _ entry =>
      { inputs := entry.inputs.map (TypeExpr.parse types)
        outputs := entry.outputs.map (TypeExpr.parse types) } }

/-- The signature of an operation. -/
def resolve (r : Registry) (name : String) : Option Signature :=
  r.operations.get? name

/-- The operations open to aggregation, in order. -/
def listed (r : Registry) : Table Signature :=
  r.operations.filterKeys fun name => !isAdministrative name

end Registry

end Orchestration
