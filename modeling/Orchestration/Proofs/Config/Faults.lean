import Orchestration.Config.Fault
import Orchestration.Proofs.Naming.SnakeCase
import Orchestration.Schema.Resolved

/-!
# Configurations without faults

What is known of the schemas of a configuration in which nothing was found to be wrong.
-/

namespace Orchestration

variable {s : Schema} {ss : List Schema} {seen : List String} {c : Config}

theorem nameFault?_eq_none_iff {name : String} :
    nameFault? name = none ↔ Naming.isIdentifier name = true ∧ Naming.isReserved name = false := by
  unfold nameFault?
  cases Naming.isIdentifier name <;> cases Naming.isReserved name <;> simp

namespace Member

variable {m : Member} {schema kind : String} {number : Nat}

theorem nameFault?_of_nameFaults {name : Option String} (h : m.nameFaults schema kind name = []) :
    ∀ n, name = some n → nameFault? n = none := by
  rintro n rfl
  cases hfault : nameFault? n with
  | none => rfl
  | some fault =>
    rw [nameFaults, Option.bind_some, hfault] at h
    cases h

/-- The names that a member without faults gives are identifiers, and none of them is reserved. -/
theorem nameFault?_of_faults (h : m.faults schema number = []) :
    (∀ n, m.paramName = some n → nameFault? n = none) ∧
      ∀ n, m.resultName = some n → nameFault? n = none := by
  unfold faults at h
  split at h
  · cases h
  · rw [List.append_eq_nil_iff] at h
    exact ⟨nameFault?_of_nameFaults h.1, nameFault?_of_nameFaults h.2⟩

end Member

namespace Schema

theorem isPlainStem_of_faults {stem : String} (h : s.faults = []) (hstem : s.outFile = some stem) :
    isPlainStem stem = true := by
  unfold faults at h
  split at h
  · cases h
  · rw [List.append_eq_nil_iff, List.append_eq_nil_iff, List.append_eq_nil_iff] at h
    obtain ⟨⟨⟨-, hplain⟩, -⟩, -⟩ := h
    rw [hstem] at hplain
    cases hp : isPlainStem stem with
    | true => rfl
    | false =>
      rw [Option.filter_some, hp] at hplain
      cases hplain

/-- The stem of a schema without faults stays in one directory. -/
theorem slashless_of_faults (h : s.faults = []) : '/' ∉ s.stem.toList := by
  intro hslash
  unfold stem at hslash
  cases hstem : s.outFile with
  | none =>
    rw [hstem, Option.getD_none] at hslash
    rcases Naming.mem_snakeCase hslash with heq | halnum
    · exact absurd heq (by decide)
    · exact absurd halnum (by decide)
  | some stem =>
    rw [hstem, Option.getD_some] at hslash
    have hplain := isPlainStem_of_faults h hstem
    rw [isPlainStem, Bool.and_eq_true, List.all_eq_true] at hplain
    exact absurd (hplain.2 '/' hslash) (by decide)

/-- The faults of its members are among those of a schema. -/
theorem member_faults_of_faults {g : Group} {m : Member} (h : s.faults = []) (hg : g ∈ s.groups)
    (hm : m ∈ g.members) : ∃ number, m.faults s.name number = [] := by
  unfold faults at h
  split at h
  · cases h
  · rw [← List.zipIdx_map_fst 0 s.groups] at hg
    obtain ⟨e, he, rfl⟩ := List.mem_map.1 hg
    have hgroup := List.flatMap_eq_nil_iff.1 (List.append_eq_nil_iff.1 h).2 e he
    rw [Group.faults, List.append_eq_nil_iff] at hgroup
    exact ⟨e.2, List.flatMap_eq_nil_iff.1 hgroup.2 m hm⟩

theorem faults_of_faultsAll (h : faultsAll seen ss = []) (hs : s ∈ ss) : s.faults = [] := by
  induction ss generalizing seen with
  | nil => exact absurd hs List.not_mem_nil
  | cons s' rest ih =>
    rw [faultsAll, List.append_eq_nil_iff, List.append_eq_nil_iff] at h
    rcases List.mem_cons.1 hs with rfl | hs
    · exact h.1.1
    · exact ih h.2 hs

end Schema

theorem Config.faults_of_mem (h : c.faults = []) (hs : s ∈ c.schemas) : s.faults = [] := by
  unfold faults at h
  exact Schema.faults_of_faultsAll (List.append_eq_nil_iff.1 h).2 hs

end Orchestration
