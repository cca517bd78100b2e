import Orchestration.Proofs.Naming.IdentifierForm
import Orchestration.Proofs.Text.Segments

/-!
# Module paths

A text is a module path exactly if it is one or more identifiers joined by `::`. Identifiers hold no
colon, so splitting such a text gives the identifiers back.
-/

namespace Orchestration.Naming

open Orchestration.Text

variable {c : Char} {cs p : List Char} {parts : List (List Char)}

/-- One or more identifiers joined by `::`. -/
def IsPath (cs : List Char) : Prop :=
  ∃ parts : List (List Char), parts ≠ [] ∧ (∀ p ∈ parts, isIdentifierText p = true) ∧
    joinWith [':', ':'] parts = cs

theorem colon_not_mem (h : isIdentifierText p = true) : ':' ∉ p :=
  fun hc => absurd (isIdentifierRest_of_mem h hc) (by decide)

/-! ## Splitting -/

theorem pathParts_of_not_mem (h : ':' ∉ p) : pathParts p = [p] := by
  induction p with
  | nil => rfl
  | cons c cs ih =>
    rw [List.mem_cons, not_or] at h
    obtain ⟨hc, hcs⟩ := h
    have hne : ∀ cs', c = ':' → cs = ':' :: cs' → False := fun _ he => absurd he.symm hc
    rw [pathParts.eq_3 _ _ hne, ih hcs]

theorem pathParts_append (h : ':' ∉ p) :
    pathParts (p ++ [':', ':'] ++ cs) = p :: pathParts cs := by
  induction p with
  | nil => rfl
  | cons c p ih =>
    rw [List.mem_cons, not_or] at h
    obtain ⟨hc, hp⟩ := h
    have hne : ∀ cs', c = ':' → p ++ [':', ':'] ++ cs = ':' :: cs' → False :=
      fun _ he => absurd he.symm hc
    rw [List.cons_append, List.cons_append, pathParts.eq_3 _ _ hne, ih hp]

theorem joinWith_pathParts (cs : List Char) :
    pathParts cs ≠ [] ∧ joinWith [':', ':'] (pathParts cs) = cs := by
  induction cs using pathParts.induct with
  | case1 => exact ⟨List.cons_ne_nil _ _, rfl⟩
  | case2 cs ih =>
    obtain ⟨hne, hjoin⟩ := ih
    obtain ⟨p, ps, he⟩ := List.exists_cons_of_ne_nil hne
    rw [he] at hjoin
    rw [pathParts, he]
    exact ⟨List.cons_ne_nil _ _, by rw [joinWith, hjoin]; rfl⟩
  | case3 c cs hne hnil ih => exact absurd hnil ih.1
  | case4 c cs hne p ps he ih =>
    obtain ⟨-, hjoin⟩ := ih
    rw [pathParts.eq_3 _ _ hne, he]
    rw [he] at hjoin
    refine ⟨List.cons_ne_nil _ _, ?_⟩
    cases ps with
    | nil => rw [← hjoin]; rfl
    | cons q qs => rw [← hjoin]; rfl

theorem pathParts_joinWith (hne : parts ≠ []) (h : ∀ p ∈ parts, ':' ∉ p) :
    pathParts (joinWith [':', ':'] parts) = parts := by
  induction parts using joinWith.induct with
  | case1 => exact absurd rfl hne
  | case2 p => exact pathParts_of_not_mem (h p (List.mem_singleton_self p))
  | case3 p q rest ih =>
    have hrest : ∀ r ∈ q :: rest, ':' ∉ r := fun r hr => h r (List.mem_cons_of_mem p hr)
    rw [joinWith, pathParts_append (h p (List.mem_cons_self ..)), ih (List.cons_ne_nil _ _) hrest]

/-- The check splits at every `::`; the texts that pass are the module paths. -/
theorem isModulePath_iff : isModulePath cs = true ↔ IsPath cs := by
  unfold isModulePath
  rw [List.all_eq_true]
  constructor
  · intro h
    obtain ⟨hne, hjoin⟩ := joinWith_pathParts cs
    exact ⟨pathParts cs, hne, h, hjoin⟩
  · rintro ⟨parts, hne, hparts, rfl⟩
    rwa [pathParts_joinWith hne fun p hp => colon_not_mem (hparts p hp)]

/-! ## Ends of paths -/

theorem IsPath.ne_nil (h : IsPath cs) : cs ≠ [] := by
  rintro rfl
  have hempty := isModulePath_iff.2 h
  cases hempty

theorem IsPath.of_mem (h : IsPath cs) (hc : c ∈ cs) : isIdentifierRest c = true ∨ c = ':' := by
  obtain ⟨parts, -, hparts, rfl⟩ := h
  rcases mem_joinWith hc with hc | ⟨p, hp, hc⟩
  · right
    simpa using hc
  · exact Or.inl (isIdentifierRest_of_mem (hparts p hp) hc)

theorem IsPath.notMem (h : IsPath cs) (hrest : isIdentifierRest c = false) (hne : c ≠ ':') :
    c ∉ cs := by
  intro hc
  rcases h.of_mem hc with hrest' | hcolon
  · rw [hrest] at hrest'
    cases hrest'
  · exact hne hcolon

/-- No white space stands in a path. -/
theorem IsPath.isBlank_eq_false (h : IsPath cs) (hc : c ∈ cs) : isBlank c = false := by
  rcases h.of_mem hc with hrest | rfl
  · exact isBlank_of_isIdentifierRest hrest
  · decide

end Orchestration.Naming
