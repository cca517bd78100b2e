import Orchestration.Proofs.Except
import Orchestration.Schema.Resolved
import Mathlib.Data.List.Forall2

/-!
# The members of a resolved schema

Resolving keeps the members of a schema, in order and group by group. What it makes explicit about a
member is what becomes of the result and which path the text for a shared parameter denotes; the rest
is copied.
-/

namespace Orchestration

variable {α β : Type} {catalog : Catalog} {s : Schema} {r : ResolvedSchema} {m : Member}
  {m' : ResolvedMember}

/-- The members of all groups, in order. -/
def Schema.members (s : Schema) : List Member :=
  s.groups.flatMap Group.members

/-- The members of all groups, in order. -/
def ResolvedSchema.members (s : ResolvedSchema) : List ResolvedMember :=
  s.groups.flatMap ResolvedGroup.members

theorem mem_of_forall₂ {R : α → β → Prop} {xs : List α} {ys : List β} (h : List.Forall₂ R xs ys) :
    (∀ y ∈ ys, ∃ x ∈ xs, R x y) ∧ ∀ x ∈ xs, ∃ y ∈ ys, R x y := by
  induction h with
  | nil => simp
  | cons hxy _ ih =>
    simp only [List.forall_mem_cons, List.exists_mem_cons_iff]
    exact ⟨⟨Or.inl hxy, fun y hy => Or.inr (ih.1 y hy)⟩, Or.inl hxy, fun x hx => Or.inr (ih.2 x hx)⟩

/-- A member is resolved exactly if the catalog has its operation and the text for its shared
parameter, if it has one, can be read. -/
theorem Member.resolve_eq_ok_iff :
    m.resolve catalog = .ok m' ↔ (∃ op, catalog.get? m.operation = some op) ∧
      ∃ path, Option.Rel (fun text p => ParamPath.parse? text = some p) m.sharedParam path ∧
        m' = m.withPath path := by
  unfold resolve
  cases catalog.get? m.operation with
  | none => simp
  | some op =>
    cases m.sharedParam with
    | none =>
      constructor
      · intro h
        cases h
        exact ⟨⟨op, rfl⟩, none, .none, rfl⟩
      · rintro ⟨-, _, hread, rfl⟩
        cases hread
        rfl
    | some text =>
      cases hparse : ParamPath.parse? text with
      | none =>
        constructor
        · intro h
          simp [hparse] at h
        · rintro ⟨-, _, ⟨hread⟩, -⟩
          rw [hparse] at hread
          cases hread
      | some p =>
        constructor
        · intro h
          simp only [hparse] at h
          cases h
          exact ⟨⟨op, rfl⟩, some p, .some hparse, rfl⟩
        · rintro ⟨-, _, ⟨hread⟩, rfl⟩
          rw [hparse] at hread
          cases hread
          simp [hparse]

theorem Group.forall₂_of_resolve {g : Group} {g' : ResolvedGroup} (h : g.resolve catalog = .ok g') :
    List.Forall₂ (fun m m' => m.resolve catalog = .ok m') g.members g'.members := by
  obtain ⟨members, hmembers, hg'⟩ := bind_eq_ok_iff.1 h
  rw [← pure_eq_ok_iff.1 hg']
  exact forall₂_of_mapM hmembers

/-- The members of a resolved schema are those of the schema, each resolved. -/
theorem Schema.forall₂_of_resolve (h : s.resolve catalog = .ok r) :
    List.Forall₂ (fun m m' => m.resolve catalog = .ok m') s.members r.members := by
  obtain ⟨output, -, h⟩ := bind_eq_ok_iff.1 (mapError_eq_ok_iff.1 h)
  obtain ⟨groups, hgroups, hr⟩ := bind_eq_ok_iff.1 h
  rw [← pure_eq_ok_iff.1 hr]
  exact List.rel_flatMap (forall₂_of_mapM hgroups) fun _ _ => Group.forall₂_of_resolve

theorem Schema.members_of_resolve (h : s.resolve catalog = .ok r) :
    (∀ m' ∈ r.members, ∃ m ∈ s.members, m.resolve catalog = .ok m') ∧
      ∀ m ∈ s.members, ∃ m' ∈ r.members, m.resolve catalog = .ok m' :=
  mem_of_forall₂ (forall₂_of_resolve h)

end Orchestration
