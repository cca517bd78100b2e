import Orchestration.Catalog.Operation
import Orchestration.Proofs.Table
import Orchestration.Proofs.TypeExpr.Grammar

/-!
# Descriptors that agree on some operations

Two descriptors agree on some operations if they have one namespace, the same composite types and the
same entries for these operations. They may list whatever else, in any order. Each signature is read
on its own and each type is looked up by name, so the catalogs agree as well.
-/

namespace Orchestration

/-! ## Statements -/

/-- Two descriptors with one namespace and the same types, in whatever order, that have the same inputs
and outputs for the named operations. -/
structure Descriptor.AgreeOn (names : List String) (d d' : Descriptor) : Prop where
  scope : d.scope = d'.scope
  types : ∀ name, d.types.get? name = d'.types.get? name
  operations : ∀ name ∈ names, d.operations.get? name = d'.operations.get? name

/-- Two catalogs with one namespace and the same types, in whatever order, that have the same shapes
for the named operations. -/
structure Catalog.AgreeOn (names : List String) (c c' : Catalog) : Prop where
  scope : c.scope = c'.scope
  types : ∀ name, c.types.get? name = c'.types.get? name
  operations : ∀ name ∈ names, c.get? name = c'.get? name

/-! ## Reading signatures -/

namespace TypeExpr

variable {types types' : TypeTable}

theorem readLeaf_congr (h : ∀ name, types.get? name = types'.get? name) (cs : List Char) :
    readLeaf types cs = readLeaf types' cs := by
  unfold readLeaf lookUp
  simp only [h]

theorem read_congr (h : ∀ name, types.get? name = types'.get? name) (cs : List Char) :
    read types cs = read types' cs := by
  induction cs using read.induct types with
  | case1 cs hpeel => rw [read_of_peel_none hpeel, read_of_peel_none hpeel, readLeaf_congr h]
  | case2 cs w inner hpeel _ _ ih => rw [read_of_peel_some hpeel, read_of_peel_some hpeel, ih]
  | case3 cs w inner hpeel _ ih => rw [read_of_peel_some hpeel, read_of_peel_some hpeel, ih]

/-- A type expression is read by looking types up. -/
theorem parse_congr (h : ∀ name, types.get? name = types'.get? name) :
    parse types = parse types' :=
  funext fun expr => read_congr h expr.toList

end TypeExpr

namespace Registry

theorem get?_typesOf (types : TypeTable) (name : String) :
    (typesOf types).get? name =
      (types.get? name).map fun fields => fields.map fun _ expr => Text.trimmed expr :=
  Table.get?_map _ types name

/-- The signature that an entry of a descriptor gives. -/
theorem resolve_ofDescriptor (d : Descriptor) (name : String) :
    (ofDescriptor d).resolve name = (d.operations.get? name).map fun entry =>
      ⟨entry.inputs.map (TypeExpr.parse (typesOf d.types)),
        entry.outputs.map (TypeExpr.parse (typesOf d.types))⟩ :=
  Table.get?_map _ d.operations name

end Registry

/-! ## Extracting catalogs -/

namespace Catalog

/-- An administrative operation has no shape, any other one that of its signature. -/
theorem get?_ofRegistry (r : Registry) (name : String) :
    (ofRegistry r).get? name =
      if Registry.isAdministrative name then none
      else (r.resolve name).map (OperationShape.ofSignature name) := by
  have hmap : (ofRegistry r).get? name =
      (r.listed.get? name).map (OperationShape.ofSignature name) := Table.get?_map _ r.listed name
  have hlisted : r.listed.get? name =
      if !Registry.isAdministrative name then r.resolve name else none :=
    Table.get?_filterKeys _ r.operations name
  rw [hmap, hlisted]
  cases Registry.isAdministrative name <;> rfl

variable {d d' : Descriptor} {names : List String}

/-- Descriptors that agree on some operations have catalogs that do. -/
theorem agreeOn_ofDescriptor (h : d.AgreeOn names d') :
    (ofDescriptor d).AgreeOn names (ofDescriptor d') := by
  have htypes (name : String) :
      (Registry.typesOf d.types).get? name = (Registry.typesOf d'.types).get? name := by
    rw [Registry.get?_typesOf, Registry.get?_typesOf, h.types]
  constructor
  case scope => exact h.scope
  case types => exact htypes
  case operations =>
    intro name hname
    unfold ofDescriptor
    rw [get?_ofRegistry, get?_ofRegistry, Registry.resolve_ofDescriptor,
      Registry.resolve_ofDescriptor, h.operations name hname, TypeExpr.parse_congr htypes]

end Catalog

end Orchestration
