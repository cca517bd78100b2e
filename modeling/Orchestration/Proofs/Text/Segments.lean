import Orchestration.Text.Segments
import Mathlib.Data.List.Basic

/-!
# Splitting and joining

Splitting a text at a separator and joining the pieces again gives the text back. Joining pieces and
splitting what they make gives the pieces back if none of them holds the separator, which no piece of
a splitting does.
-/

namespace Orchestration.Text

variable {sep : Char} {xs ys : List Char} {glue s t : String} {ps : List String}

/-- The pieces put together with `sep` between each two of them. -/
def joinWith (sep : List Char) : List (List Char) → List Char
  | [] => []
  | [s] => s
  | s :: t :: rest => s ++ sep ++ joinWith sep (t :: rest)

/-! ## Segments -/

theorem segments_append_sep (xs ys : List Char) :
    segments sep (xs ++ sep :: ys) = segments sep xs ++ segments sep ys := by
  induction xs with
  | nil => simp [segments]
  | cons c cs ih =>
    rw [List.cons_append, segments, segments, ih]
    by_cases hc : c = sep
    · rw [if_pos hc, if_pos hc, List.cons_append]
    · rw [if_neg hc, if_neg hc]
      cases hs : segments sep cs with
      | nil => exact absurd hs (segments_ne_nil sep cs)
      | cons first rest => rfl

/-- What stands in front and holds no separator belongs to the first segment. -/
theorem segments_append_of_notMem (h : sep ∉ xs) (ys : List Char) :
    ∃ first, segments sep (xs ++ ys) = (xs ++ first) :: (segments sep ys).tail := by
  induction xs with
  | nil =>
    cases hs : segments sep ys with
    | nil => exact absurd hs (segments_ne_nil sep ys)
    | cons first rest => exact ⟨first, hs⟩
  | cons c cs ih =>
    rw [List.mem_cons, not_or] at h
    obtain ⟨first, hfirst⟩ := ih h.2
    refine ⟨first, ?_⟩
    rw [List.cons_append, segments, if_neg (Ne.symm h.1), hfirst]
    rfl

theorem segments_of_notMem (h : sep ∉ xs) : segments sep xs = [xs] := by
  induction xs with
  | nil => rfl
  | cons c cs ih =>
    rw [List.mem_cons, not_or] at h
    rw [segments, if_neg (Ne.symm h.1), ih h.2]

theorem notMem_of_mem_segments (h : xs ∈ segments sep ys) : sep ∉ xs := by
  induction ys generalizing xs with
  | nil =>
    rw [segments, List.mem_singleton] at h
    rw [h]
    exact List.not_mem_nil
  | cons c cs ih =>
    rw [segments] at h
    by_cases hc : c = sep
    · rw [if_pos hc] at h
      rcases List.mem_cons.mp h with rfl | h
      · exact List.not_mem_nil
      · exact ih h
    · rw [if_neg hc] at h
      cases hs : segments sep cs with
      | nil => exact absurd hs (segments_ne_nil sep cs)
      | cons first rest =>
        rw [hs] at h ih
        rcases List.mem_cons.mp h with rfl | h
        · rw [List.mem_cons, not_or]
          exact ⟨Ne.symm hc, ih (List.mem_cons_self ..)⟩
        · exact ih (List.mem_cons_of_mem _ h)

/-- The last segment ends as the text does. -/
theorem getLast?_segments {c : Char} (h : xs.getLast? = some c) (hc : c ≠ sep) :
    ∃ last, (segments sep xs).getLast? = some last ∧ last.getLast? = some c := by
  induction xs with
  | nil => cases h
  | cons a cs ih =>
    rw [segments]
    by_cases hcs : cs = []
    · subst hcs
      obtain rfl : a = c := Option.some.inj h
      rw [if_neg hc]
      exact ⟨[a], rfl, rfl⟩
    · rw [List.getLast?_cons_of_ne_nil hcs] at h
      obtain ⟨last, hlast, hends⟩ := ih h
      cases hs : segments sep cs with
      | nil => exact absurd hs (segments_ne_nil sep cs)
      | cons s rest =>
        rw [hs] at hlast
        by_cases ha : a = sep
        · rw [if_pos ha]
          exact ⟨last, by rwa [List.getLast?_cons_cons], hends⟩
        · rw [if_neg ha]
          cases rest with
          | nil =>
            obtain rfl : s = last := Option.some.inj hlast
            have hne : s ≠ [] := by
              rintro rfl
              cases hends
            exact ⟨a :: s, rfl, by rwa [List.getLast?_cons_of_ne_nil hne]⟩
          | cons s' rest => exact ⟨last, by rwa [List.getLast?_cons_cons] at hlast ⊢, hends⟩

/-- Joining the segments with their separator gives the text back. -/
theorem joinWith_segments (sep : Char) (cs : List Char) :
    joinWith [sep] (segments sep cs) = cs := by
  induction cs with
  | nil => rfl
  | cons c cs ih =>
    cases hs : segments sep cs with
    | nil => exact absurd hs (segments_ne_nil sep cs)
    | cons s rest =>
      rw [hs] at ih
      by_cases h : c = sep
      · subst h
        simp [segments, hs, joinWith, ih]
      · cases rest with
        | nil => simpa [segments, h, hs, joinWith] using ih
        | cons t rest => simpa [segments, h, hs, joinWith] using ih

theorem joinWith_eq_intercalate (xs : List Char) (xss : List (List Char)) :
    joinWith xs xss = xs.intercalate xss := by
  induction xss with
  | nil => rfl
  | cons ys rest ih =>
    cases rest with
    | nil => simp [joinWith]
    | cons zs rest => rw [joinWith, ih, List.intercalate_cons_cons]

theorem mem_joinWith {c : Char} {xss : List (List Char)}
    (h : c ∈ joinWith xs xss) : c ∈ xs ∨ ∃ ys ∈ xss, c ∈ ys := by
  induction xss using joinWith.induct with
  | case1 => exact absurd h List.not_mem_nil
  | case2 s => exact Or.inr ⟨s, List.mem_singleton_self s, h⟩
  | case3 s t rest ih =>
    unfold joinWith at h
    rcases List.mem_append.1 h with h | h
    · rcases List.mem_append.1 h with h | h
      · exact Or.inr ⟨s, List.mem_cons_self .., h⟩
      · exact Or.inl h
    · rcases ih h with h | ⟨xs, hxs, hc⟩
      · exact Or.inl h
      · exact Or.inr ⟨xs, List.mem_cons_of_mem s hxs, hc⟩

/-! ## Pieces of a string -/

theorem split_ne_nil (sep : Char) (s : String) : split sep s ≠ [] := by
  intro h
  exact segments_ne_nil sep s.toList (List.map_eq_nil_iff.1 h)

theorem split_append (hglue : glue.toList = [sep]) (s t : String) :
    split sep (s ++ glue ++ t) = split sep s ++ split sep t := by
  have hlist : (s ++ glue ++ t).toList = s.toList ++ sep :: t.toList := by
    rw [String.toList_append, String.toList_append, hglue, List.append_assoc, List.singleton_append]
  rw [split, hlist, segments_append_sep, List.map_append]
  rfl

theorem split_of_notMem (h : sep ∉ s.toList) : split sep s = [s] := by
  rw [split, segments_of_notMem h, List.map_singleton, String.ofList_toList]

theorem notMem_of_mem_split (h : s ∈ split sep t) : sep ∉ s.toList := by
  obtain ⟨xs, hxs, rfl⟩ := List.mem_map.1 h
  rw [String.toList_ofList]
  exact notMem_of_mem_segments hxs

/-- Joined pieces without the separator are what splitting gives back. -/
theorem split_intercalate (hglue : glue.toList = [sep]) (hne : ps ≠ [])
    (h : ∀ s ∈ ps, sep ∉ s.toList) : split sep (glue.intercalate ps) = ps := by
  induction ps with
  | nil => exact absurd rfl hne
  | cons s rest ih =>
    have hs := split_of_notMem (h s (List.mem_cons_self ..))
    cases rest with
    | nil => rw [String.intercalate_singleton, hs]
    | cons t rest =>
      have hrest := ih (List.cons_ne_nil t rest) fun u hu => h u (List.mem_cons_of_mem s hu)
      rw [String.intercalate_cons_cons, split_append hglue, hs, hrest]
      rfl

/-- Joining the pieces of a text gives the text back. -/
theorem intercalate_split (hglue : glue.toList = [sep]) (s : String) :
    glue.intercalate (split sep s) = s := by
  have hlist : (split sep s).map String.toList = segments sep s.toList := by
    simp [split, Function.comp_def]
  rw [← String.toList_inj, String.toList_intercalate, hglue, hlist]
  exact (joinWith_eq_intercalate [sep] _).symm.trans (joinWith_segments sep s.toList)

end Orchestration.Text
