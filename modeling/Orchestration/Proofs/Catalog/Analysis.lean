import Orchestration.Proofs.Catalog.Agreement
import Orchestration.Proofs.Plan.Refusal

/-!
# Signatures that cannot be used

A signature without outputs, without the context in front, with more than one argument, with an
unknown part or with a nested collection is not meant to be used. The analysis looks at the inputs one
by one, and at the first of several outputs: it refuses what it sees there, but neither the error slot
nor the elements of a collection that is an argument. An operation whose signature is refused ends the
compilation of every schema that calls it.
-/

namespace Orchestration

/-! ## Shapes and signatures -/

namespace TypeShape

/-- A shape that stands for text that is no type expression. -/
def IsUnknown (shape : TypeShape) : Prop :=
  ∃ text, shape = .unknown text

/-- Collections of collections, and of references to collections. -/
inductive IsNested : TypeShape → Prop where
  | list (element : TypeShape) : IsNested (.list (.list element))
  | references (element : TypeShape) : IsNested (.list (.ref (.list element)))

/-- The shapes of single values. -/
inductive IsValue : TypeShape → Prop where
  | scalar (name : String) : IsValue (.scalar name)
  | struct (name : String) (fields : Fields) : IsValue (.struct name fields)

/-- What can be a result: a value or a collection of values, and a reference in front of the value. -/
inductive IsResult : TypeShape → Prop where
  | value {shape : TypeShape} (h : shape.IsValue) : IsResult shape
  | reference {inner : TypeShape} (h : inner.IsValue) : IsResult (.ref inner)
  | collection {element : TypeShape} (h : element.IsValue) : IsResult (.list element)
  | references {inner : TypeShape} (h : inner.IsValue) : IsResult (.list (.ref inner))

/-- What can be an argument: a value, or any reference or collection. -/
inductive IsArgument : TypeShape → Prop where
  | value {shape : TypeShape} (h : shape.IsValue) : IsArgument shape
  | reference (inner : TypeShape) : IsArgument (.ref inner)
  | collection (element : TypeShape) : IsArgument (.list element)

end TypeShape

namespace Signature

/-- The signatures that are not meant to be used. -/
inductive Unfit (s : Signature) : Prop where
  /-- There is no output. -/
  | noOutputs (h : s.outputs = [])
  /-- The first input is missing or is not the context. -/
  | noContext (h : s.inputs.head? ≠ some .context)
  /-- There is more than one argument after the context. -/
  | manyArguments (h : 2 < s.inputs.length)
  /-- An input is unknown. -/
  | unknownInput {shape : TypeShape} (mem : shape ∈ s.inputs) (h : shape.IsUnknown)
  /-- An output is unknown. -/
  | unknownOutput {shape : TypeShape} (mem : shape ∈ s.outputs) (h : shape.IsUnknown)
  /-- The argument is a nested collection. -/
  | nestedArgument {shape : TypeShape} (arg : s.inputs[1]? = some shape) (h : shape.IsNested)
  /-- The first output is a nested collection. -/
  | nestedOutput {shape : TypeShape} (first : s.outputs.head? = some shape) (h : shape.IsNested)

/-- The signatures that the analysis accepts. -/
structure Accepted (s : Signature) : Prop where
  /-- The context comes first, with one argument after it at most. -/
  inputs : s.inputs = [.context] ∨ ∃ shape, s.inputs = [.context, shape] ∧ shape.IsArgument
  /-- There is one output, whatever it is, or the first of several can be a result. -/
  outputs : (∃ only, s.outputs = [only]) ∨
    ∃ first second rest, s.outputs = first :: second :: rest ∧ first.IsResult

/-- What the analysis does not see of a signature: its only output, every output after the first, and
the elements of a collection that is an argument. -/
inductive Overlooked (s : Signature) : Prop where
  /-- The only output is unknown or a nested collection. -/
  | onlyOutput {only : TypeShape} (outputs : s.outputs = [only]) (h : only.IsUnknown ∨ only.IsNested)
  /-- An output after the first is unknown. -/
  | laterOutput {first later : TypeShape} {rest : List TypeShape} (outputs : s.outputs = first :: rest)
    (mem : later ∈ rest) (h : later.IsUnknown)
  /-- The argument is a nested collection. -/
  | argument {shape : TypeShape} (inputs : s.inputs = [.context, shape]) (h : shape.IsNested)

end Signature

/-! ## What the analysis accepts -/

namespace OperationShape

open TypeShape

variable {outputs inputs : List TypeShape} {name : String} {s : Signature}

/-- A shape can be a result exactly if what its form leaves is a value. -/
theorem isResult_iff_formOf (shape : TypeShape) : shape.IsResult ↔ (formOf shape).2.IsValue := by
  constructor
  · intro h
    cases h with
    | value h => cases h <;> constructor
    | reference h => exact h
    | collection h => cases h <;> constructor
    | references h => exact h
  · intro h
    unfold formOf at h
    split at h
    · exact .reference h
    · exact .references h
    · exact .collection h
    · exact .value h

theorem resultOf_accepts_iff :
    (resultOf outputs).2 = none ↔ (∃ only, outputs = [only]) ∨
      ∃ first second rest, outputs = first :: second :: rest ∧ first.IsResult := by
  match outputs with
  | [] => simp [resultOf]
  | [only] => simp [resultOf]
  | first :: second :: rest =>
    have hvalue : (resultOf (first :: second :: rest)).2 = none ↔ (formOf first).2.IsValue := by
      unfold resultOf
      dsimp only
      cases (formOf first).2 with
      | scalar name => exact iff_of_true rfl (.scalar name)
      | struct name fields => exact iff_of_true rfl (.struct name fields)
      | context => exact iff_of_false nofun nofun
      | error => exact iff_of_false nofun nofun
      | ref inner => exact iff_of_false nofun nofun
      | list element => exact iff_of_false nofun nofun
      | unknown text => exact iff_of_false nofun nofun
    rw [hvalue, ← isResult_iff_formOf]
    simp

theorem argumentOf_accepts_iff :
    (∃ argument, argumentOf inputs = .ok argument) ↔
      inputs = [.context] ∨ ∃ shape, inputs = [.context, shape] ∧ shape.IsArgument := by
  match inputs with
  | [] => simp [argumentOf]
  | [.context] => simp [argumentOf]
  | [.context, shape] =>
    have hargument : (∃ argument, argumentOf [.context, shape] = .ok argument) ↔ shape.IsArgument := by
      unfold argumentOf
      dsimp only
      cases shape with
      | scalar name => exact iff_of_true ⟨_, rfl⟩ (.value (.scalar name))
      | struct name fields => exact iff_of_true ⟨_, rfl⟩ (.value (.struct name fields))
      | ref inner =>
        refine iff_of_true ?_ (.reference inner)
        cases inner <;> exact ⟨_, rfl⟩
      | list element => exact iff_of_true ⟨_, rfl⟩ (.collection element)
      | context => exact iff_of_false nofun nofun
      | error => exact iff_of_false nofun nofun
      | unknown text => exact iff_of_false nofun nofun
    rw [hargument]
    simp
  | .context :: shape :: third :: rest => simp [argumentOf]
  | .error :: _ => simp [argumentOf]
  | .scalar _ :: _ => simp [argumentOf]
  | .struct _ _ :: _ => simp [argumentOf]
  | .ref _ :: _ => simp [argumentOf]
  | .list _ :: _ => simp [argumentOf]
  | .unknown _ :: _ => simp [argumentOf]

/-- A signature has no fault exactly if it is accepted. -/
theorem fault_eq_none_iff : (ofSignature name s).fault = none ↔ s.Accepted := by
  have hparts : (ofSignature name s).fault = none ↔
      (∃ argument, argumentOf s.inputs = .ok argument) ∧ (resultOf s.outputs).2 = none := by
    unfold ofSignature
    split
    · next h => simp [h]
    · next h => cases hargument : argumentOf s.inputs <;> simp [h]
  rw [hparts, resultOf_accepts_iff, argumentOf_accepts_iff]
  exact ⟨fun ⟨hinputs, houtputs⟩ => ⟨hinputs, houtputs⟩, fun h => ⟨h.inputs, h.outputs⟩⟩

end OperationShape

/-! ## What is unfit and accepted -/

namespace TypeShape

variable {shape : TypeShape}

theorem IsValue.not_unknown (h : shape.IsValue) : ¬ shape.IsUnknown := by
  rintro ⟨text, rfl⟩
  cases h

theorem IsResult.fit (h : shape.IsResult) : ¬ shape.IsUnknown ∧ ¬ shape.IsNested := by
  cases h with
  | value h => exact ⟨h.not_unknown, by rintro ⟨⟩ <;> cases h⟩
  | reference h => exact ⟨nofun, nofun⟩
  | collection h => exact ⟨nofun, by rintro ⟨⟩ <;> cases h⟩
  | references h => exact ⟨nofun, by rintro ⟨⟩; cases h⟩

theorem IsArgument.not_unknown (h : shape.IsArgument) : ¬ shape.IsUnknown := by
  rintro ⟨text, rfl⟩
  cases h with
  | value h => cases h

end TypeShape

/-- An unfit signature that is accepted is unfit where the analysis does not look. -/
theorem Signature.Unfit.overlooked {s : Signature} (h : s.Unfit) (haccepted : s.Accepted) :
    s.Overlooked := by
  obtain ⟨hinputs, houtputs⟩ := haccepted
  cases h with
  | noOutputs h => simp [h] at houtputs
  | noContext h => rcases hinputs with hinputs | ⟨shape, hinputs, -⟩ <;> simp [hinputs] at h
  | manyArguments h => rcases hinputs with hinputs | ⟨shape, hinputs, -⟩ <;> simp [hinputs] at h
  | unknownInput hmem hunknown =>
    rcases hinputs with hinputs | ⟨argument, hinputs, hargument⟩
    · rw [hinputs, List.mem_singleton] at hmem
      obtain ⟨text, rfl⟩ := hunknown
      cases hmem
    · rw [hinputs, List.mem_cons, List.mem_singleton] at hmem
      rcases hmem with rfl | rfl
      · obtain ⟨text, htext⟩ := hunknown
        cases htext
      · exact absurd hunknown hargument.not_unknown
  | unknownOutput hmem hunknown =>
    rcases houtputs with ⟨only, houtputs⟩ | ⟨first, second, rest, houtputs, hresult⟩
    · rw [houtputs, List.mem_singleton] at hmem
      subst hmem
      exact .onlyOutput houtputs (Or.inl hunknown)
    · rw [houtputs, List.mem_cons] at hmem
      rcases hmem with rfl | hmem
      · exact absurd hunknown hresult.fit.1
      · exact .laterOutput houtputs hmem hunknown
  | nestedArgument hargument hnested =>
    rcases hinputs with hinputs | ⟨argument, hinputs, -⟩
    · simp [hinputs] at hargument
    · rw [hinputs] at hargument
      cases hargument
      exact .argument hinputs hnested
  | nestedOutput hfirst hnested =>
    rcases houtputs with ⟨only, houtputs⟩ | ⟨first, second, rest, houtputs, hresult⟩
    · rw [houtputs] at hfirst
      cases hfirst
      exact .onlyOutput houtputs (Or.inr hnested)
    · rw [houtputs] at hfirst
      cases hfirst
      exact absurd hnested hresult.fit.2

/-! ## Operations with unfit signatures -/

theorem Catalog.get?_of_listed {r : Registry} {name : String} {s : Signature}
    (h : r.listed.get? name = some s) :
    (ofRegistry r).get? name = some (OperationShape.ofSignature name s) := by
  show (r.listed.map OperationShape.ofSignature).get? name = _
  rw [Table.get?_map, h]
  rfl

/-- **What comes of the signatures that are not meant to be used.** A listed operation has a fault
unless its signature is accepted; an unfit signature is accepted only if it is overlooked. A schema
that calls an operation with a fault has no plan, and the fault is what is reported unless a member
before the call has a problem of its own. -/
theorem unfit_signature_refused (r : Registry) (name : String) (s : Signature)
    (hlisted : r.listed.get? name = some s) :
    ((OperationShape.ofSignature name s).fault = none ↔ s.Accepted) ∧
      (s.Unfit → (∃ fault, (OperationShape.ofSignature name s).fault = some fault) ∨ s.Overlooked) ∧
      ∀ fault, (OperationShape.ofSignature name s).fault = some fault →
        ∀ (schema : ResolvedSchema) (scope : String) (before : List ResolvedMember)
          (m : ResolvedMember) (after : List ResolvedMember),
          schema.members = before ++ m :: after → m.operation = name →
          (∀ p, schema.compile (Catalog.ofRegistry r) scope ≠ .ok p) ∧
            ((∀ earlier m' later, before = earlier ++ m' :: later →
                ∃ op, (Catalog.ofRegistry r).get? m'.operation = some op ∧
                  Compilable (Catalog.ofRegistry r) schema earlier m' op) →
              schema.compile (Catalog.ofRegistry r) scope =
                .error ⟨schema.name, .unanalyzableOperation name fault.message⟩) := by
  refine ⟨OperationShape.fault_eq_none_iff, fun hunfit => ?_, ?_⟩
  · cases hfault : (OperationShape.ofSignature name s).fault with
    | some fault => exact Or.inl ⟨fault, rfl⟩
    | none => exact Or.inr (hunfit.overlooked (OperationShape.fault_eq_none_iff.1 hfault))
  · rintro fault hfault schema scope before m after hmembers rfl
    have hop := Catalog.get?_of_listed hlisted
    exact ⟨not_compiles_of_fault hmembers hop hfault, compile_eq_unanalyzable hmembers hop hfault⟩

/-- Operations whose signatures are unfit: one with an argument that is no type expression, and three
that are overlooked. -/
def unfitDescriptor : Descriptor :=
  { scope := "db"
    types := Table.ofList [("Page", Table.ofList [("id", "i64")])]
    operations := Table.ofList
      [("Load", ⟨["Context"], ["Page", "Error"]⟩),
       ("Index", ⟨["Context", "map[string]int"], ["Error"]⟩),
       ("Store", ⟨["Context", "[[i64]]"], ["Error"]⟩),
       ("Ping", ⟨["Context"], ["no type"]⟩),
       ("Count", ⟨["Context"], ["i64", "no type"]⟩)] }

/-- A schema that calls the operations of the given names, one after another. -/
def callsOf (operations : List String) : ResolvedSchema :=
  { name := "GetPage"
    output := ⟨"Page", false, Table.ofList [("id", "i64")]⟩
    groups := operations.map fun operation => ⟨false, [⟨operation, none, none, none, .bind⟩]⟩
    outFile := "get_page" }

theorem unfit_signature_refused_index :
    let r := Registry.ofDescriptor unfitDescriptor
    let s : Signature := ⟨[.context, .unknown "map[string]int"], [.error]⟩
    r.listed.get? "Index" = some s ∧ s.Unfit ∧
      (callsOf ["Load", "Index", "Load"]).compile (Catalog.ofRegistry r) "db" =
        .error ⟨"GetPage", .unanalyzableOperation "Index"
          "unsupported parameter type ?map[string]int"⟩ := by
  intro r s
  have hlisted : r.listed.get? "Index" = some s := by decide +kernel
  have hunfit : s.Unfit := .unknownInput (List.mem_cons_of_mem _ (List.mem_cons_self ..)) ⟨_, rfl⟩
  obtain ⟨-, -, hrefused⟩ := unfit_signature_refused r "Index" s hlisted
  refine ⟨hlisted, hunfit, ?_⟩
  refine (hrefused (.unsupportedArgument (.unknown "map[string]int")) rfl
    (callsOf ["Load", "Index", "Load"]) "db" [⟨"Load", none, none, none, .bind⟩]
    ⟨"Index", none, none, none, .bind⟩ [⟨"Load", none, none, none, .bind⟩] rfl rfl).2 ?_
  -- the only member before the call takes no argument and names no result
  intro earlier m' later hbefore
  obtain ⟨rfl, rfl, rfl⟩ : earlier = [] ∧ m' = ⟨"Load", none, none, none, .bind⟩ ∧ later = [] := by
    cases earlier with
    | nil => simpa [eq_comm] using hbefore
    | cons first earlier => simp at hbefore
  exact ⟨⟨"Load", .none, .value .single "Page" (Table.ofList [("id", "i64")]), none⟩, by decide +kernel,
    ⟨rfl, nofun, nofun, nofun, nofun⟩⟩

/-- A nested collection as an argument, an only output that is unknown and an unknown output after the
first go unnoticed, and a schema that calls all three operations has a plan. -/
theorem unfit_signature_accepted :
    let r := Registry.ofDescriptor unfitDescriptor
    let stored : Signature := ⟨[.context, .list (.list (.scalar "i64"))], [.error]⟩
    let pinged : Signature := ⟨[.context], [.unknown "no type"]⟩
    let counted : Signature := ⟨[.context], [.scalar "i64", .unknown "no type"]⟩
    (r.listed.get? "Store" = some stored ∧ stored.Unfit ∧
        (OperationShape.ofSignature "Store" stored).fault = none) ∧
      (r.listed.get? "Ping" = some pinged ∧ pinged.Unfit ∧
        (OperationShape.ofSignature "Ping" pinged).fault = none) ∧
      (r.listed.get? "Count" = some counted ∧ counted.Unfit ∧
        (OperationShape.ofSignature "Count" counted).fault = none) ∧
      ∃ p, (callsOf ["Store", "Ping", "Count"]).compile (Catalog.ofRegistry r) "db" = .ok p := by
  intro r stored pinged counted
  have hstored : stored.Unfit := .nestedArgument rfl (.list _)
  have hpinged : pinged.Unfit := .unknownOutput (List.mem_cons_self ..) ⟨_, rfl⟩
  have hcounted : counted.Unfit :=
    .unknownOutput (List.mem_cons_of_mem _ (List.mem_cons_self ..)) ⟨_, rfl⟩
  have hplan : ∃ p, (callsOf ["Store", "Ping", "Count"]).compile (Catalog.ofRegistry r) "db" = .ok p ∧
      True :=
    exists_plan_of_any (by decide +kernel)
  obtain ⟨p, hp, -⟩ := hplan
  exact ⟨⟨by decide +kernel, hstored, rfl⟩, ⟨by decide +kernel, hpinged, rfl⟩,
    ⟨by decide +kernel, hcounted, rfl⟩, p, hp⟩

end Orchestration
