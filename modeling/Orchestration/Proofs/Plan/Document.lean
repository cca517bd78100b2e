import Orchestration.Proofs.Digest.Fingerprint

/-!
# What the document of a plan says

The document of a plan holds every part of it, with the parameters, their fields, the groups, their
members and the output fields in their order. So a plan can be read off the text that its fingerprint
is made from.
-/

namespace Orchestration

theorem Table.toJson_injective {α : Type} {f : α → Json} (hf : Function.Injective f) :
    Function.Injective (Table.toJson f) := by
  intro t u h
  have hentries : t.entries.map (fun e => (e.1, f e.2)) = u.entries.map fun e => (e.1, f e.2) :=
    Json.obj.inj h
  have hentry : Function.Injective fun e : String × α => (e.1, f e.2) := by
    intro e e' he
    obtain ⟨hkey, hvalue⟩ := Prod.mk.inj he
    exact Prod.ext hkey (hf hvalue)
  exact Table.ext (List.map_injective_iff.2 hentry hentries)

theorem str_injective : Function.Injective Json.str :=
  fun _ _ => Json.str.inj

theorem Json.strings_injective : Function.Injective Json.strings := by
  intro xs ys h
  exact List.map_injective_iff.2 str_injective (Json.arr.inj h)

theorem Json.optional_injective : Function.Injective Json.optional := by
  intro x y h
  cases x with
  | none =>
    cases y with
    | none => rfl
    | some t => cases h
  | some s =>
    cases y with
    | none => cases h
    | some t => rw [Json.str.inj h]

theorem Param.toJson_injective : Function.Injective Param.toJson := by
  intro p q h
  obtain ⟨name, type, fields, composite⟩ := p
  obtain ⟨name', type', fields', composite'⟩ := q
  simp only [Param.toJson, Json.obj.injEq, List.cons.injEq, Prod.mk.injEq, Json.str.injEq,
    Json.bool.injEq, true_and, and_true] at h
  obtain ⟨rfl, rfl, hfields, rfl⟩ := h
  rw [Table.toJson_injective str_injective hfields]

/-- The kind in front keeps the three kinds of bindings apart. -/
theorem Binding.toJson_injective : Function.Injective Binding.toJson := by
  intro b b' h
  cases b with
  | none =>
    cases b' with
    | none => rfl
    | field name' => simp [Binding.toJson] at h
    | shared root' path' => simp [Binding.toJson] at h
  | field name =>
    cases b' with
    | none => simp [Binding.toJson] at h
    | field name' => simpa [Binding.toJson] using h
    | shared root' path' => simp [Binding.toJson] at h
  | shared root path =>
    cases b' with
    | none => simp [Binding.toJson] at h
    | field name => simp [Binding.toJson] at h
    | shared root' path' =>
      simp only [Binding.toJson, Json.obj.injEq, List.cons.injEq, Prod.mk.injEq, Json.str.injEq,
        true_and, and_true] at h
      obtain ⟨rfl, hpath⟩ := h
      rw [Json.strings_injective hpath]

theorem PlanMember.toJson_injective : Function.Injective PlanMember.toJson := by
  intro m m' h
  obtain ⟨operation, var, type, collection, errorOnly, binding⟩ := m
  obtain ⟨operation', var', type', collection', errorOnly', binding'⟩ := m'
  simp only [PlanMember.toJson, Json.obj.injEq, List.cons.injEq, Prod.mk.injEq, Json.str.injEq,
    Json.bool.injEq, true_and, and_true] at h
  obtain ⟨rfl, rfl, rfl, rfl, rfl, hbinding⟩ := h
  rw [Binding.toJson_injective hbinding]

theorem PlanGroup.toJson_injective : Function.Injective PlanGroup.toJson := by
  intro g g' h
  obtain ⟨transactional, members⟩ := g
  obtain ⟨transactional', members'⟩ := g'
  simp only [PlanGroup.toJson, Json.obj.injEq, List.cons.injEq, Prod.mk.injEq, Json.arr.injEq,
    Json.bool.injEq, true_and, and_true] at h
  obtain ⟨rfl, hmembers⟩ := h
  rw [List.map_injective_iff.2 PlanMember.toJson_injective hmembers]

theorem OutputField.toJson_injective : Function.Injective OutputField.toJson := by
  intro f f' h
  obtain ⟨name, type, source⟩ := f
  obtain ⟨name', type', source'⟩ := f'
  simp only [OutputField.toJson, Json.obj.injEq, List.cons.injEq, Prod.mk.injEq, Json.str.injEq,
    true_and, and_true] at h
  obtain ⟨rfl, rfl, hsource⟩ := h
  rw [Json.optional_injective hsource]

theorem Plan.toJson_injective : Function.Injective Plan.toJson := by
  intro p q h
  obtain ⟨name, scope, params, useStruct, paramName, paramType, groups, type, isRef, fields, shares⟩ := p
  obtain ⟨name', scope', params', useStruct', paramName', paramType', groups', type', isRef', fields',
    shares'⟩ := q
  simp only [Plan.toJson, Json.obj.injEq, List.cons.injEq, Prod.mk.injEq, Json.str.injEq,
    Json.bool.injEq, Json.arr.injEq, true_and, and_true] at h
  obtain ⟨rfl, rfl, hparams, rfl, rfl, rfl, hgroups, rfl, rfl, hfields, rfl⟩ := h
  rw [Table.toJson_injective Param.toJson_injective hparams,
    List.map_injective_iff.2 PlanGroup.toJson_injective hgroups,
    List.map_injective_iff.2 OutputField.toJson_injective hfields]

/-- The text that the fingerprint of a plan is made from is that of no other plan. -/
theorem Plan.compact_toJson_inj {p q : Plan} : p.toJson.compact = q.toJson.compact ↔ p = q := by
  constructor
  · intro h
    exact Plan.toJson_injective (Json.compact_injective h)
  · rintro rfl
    rfl

/-- **A plan is determined by the text that its fingerprint is made from**, and by its fingerprint
unless the texts of two plans collide. -/
theorem plan_determined_by_document (p q : Plan) :
    (p.toJson.compact = q.toJson.compact ↔ p = q) ∧
      (Digest.ofPlan p = Digest.ofPlan q ↔
        p = q ∨ Digest.Blake3.Collide p.toJson.compact.toUTF8 q.toJson.compact.toUTF8) := by
  have hfingerprint : Digest.ofPlan p = Digest.ofPlan q ↔ _ := Digest.ofText_eq_iff
  exact ⟨Plan.compact_toJson_inj, by rw [hfingerprint, Plan.compact_toJson_inj]⟩

end Orchestration
