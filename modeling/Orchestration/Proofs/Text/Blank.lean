import Orchestration.Text.Blank

/-!
# What trimming takes off

Trimming takes a run of white space off either end and leaves a text that neither starts nor ends with
white space. So a text that does neither is what is left of it between any two runs.
-/

namespace Orchestration.Text

variable {c : Char} {cs core lead trail : List Char}

/-- A run of white space, maybe an empty one. -/
def IsBlankRun (cs : List Char) : Prop :=
  ∀ c ∈ cs, isBlank c = true

theorem IsBlankRun.nil : IsBlankRun [] :=
  fun _ h => absurd h List.not_mem_nil

theorem IsBlankRun.append (hcs : IsBlankRun cs) (htrail : IsBlankRun trail) :
    IsBlankRun (cs ++ trail) := by
  intro c hc
  rcases List.mem_append.1 hc with hc | hc
  · exact hcs c hc
  · exact htrail c hc

theorem isBlankRun_takeWhile (cs : List Char) : IsBlankRun (cs.takeWhile isBlank) :=
  fun _ hc => List.all_eq_true.1 List.all_takeWhile _ hc

theorem trimLeft_append (hlead : IsBlankRun lead) : trimLeft (lead ++ cs) = trimLeft cs :=
  List.dropWhile_append_of_pos hlead

theorem trimRight_append (htrail : IsBlankRun trail) : trimRight (cs ++ trail) = trimRight cs := by
  have hreverse : ∀ c ∈ trail.reverse, isBlank c = true := fun c hc =>
    htrail c (List.mem_reverse.1 hc)
  rw [trimRight, List.reverse_append, List.dropWhile_append_of_pos hreverse, trimRight]

theorem trimLeft_cons (hc : isBlank c = false) : trimLeft (c :: cs) = c :: cs := by
  rw [trimLeft, List.dropWhile_cons_of_neg (by simp [hc])]

theorem trimRight_concat (hc : isBlank c = false) : trimRight (cs ++ [c]) = cs ++ [c] := by
  rw [trimRight, List.reverse_concat, List.dropWhile_cons_of_neg (by simp [hc]), List.reverse_cons,
    List.reverse_reverse]

theorem exists_trimLeft (cs : List Char) : ∃ lead, IsBlankRun lead ∧ cs = lead ++ trimLeft cs :=
  ⟨cs.takeWhile isBlank, isBlankRun_takeWhile cs, List.takeWhile_append_dropWhile.symm⟩

theorem exists_trimRight (cs : List Char) : ∃ trail, IsBlankRun trail ∧ cs = trimRight cs ++ trail := by
  obtain ⟨lead, hlead, he⟩ := exists_trimLeft cs.reverse
  refine ⟨lead.reverse, fun c hc => hlead c (List.mem_reverse.1 hc), ?_⟩
  have h := congrArg List.reverse he
  rwa [List.reverse_reverse, List.reverse_append] at h

/-- What trimming takes off are two runs of white space. -/
theorem exists_trim (cs : List Char) :
    ∃ lead trail, IsBlankRun lead ∧ IsBlankRun trail ∧ cs = lead ++ trim cs ++ trail := by
  obtain ⟨lead, hlead, hleft⟩ := exists_trimLeft cs
  obtain ⟨trail, htrail, hright⟩ := exists_trimRight (trimLeft cs)
  refine ⟨lead, trail, hlead, htrail, ?_⟩
  rw [List.append_assoc, trim, ← hright, ← hleft]

theorem isBlank_of_head?_trim (h : (trim cs).head? = some c) : isBlank c = false := by
  obtain ⟨trail, -, he⟩ := exists_trimRight (trimLeft cs)
  obtain ⟨rest, hrest⟩ := List.head?_eq_some_iff.1 h
  have hfirst : (cs.dropWhile isBlank).head? = some c := by
    rw [trim] at hrest
    rw [hrest] at he
    exact congrArg List.head? he
  have hnot := List.head?_dropWhile_not isBlank cs
  rwa [hfirst] at hnot

/-- What stands before something that stays is kept. -/
theorem trimRight_prepend (h : trimRight cs ≠ []) : trimRight (lead ++ cs) = lead ++ trimRight cs := by
  have hne : (cs.reverse.dropWhile isBlank).isEmpty ≠ true := by
    intro hempty
    rw [List.isEmpty_iff] at hempty
    exact h (congrArg List.reverse hempty)
  rw [trimRight, List.reverse_append, List.dropWhile_append, if_neg hne, List.reverse_append,
    List.reverse_reverse, trimRight]

theorem trimRight_cons (hc : isBlank c = false) : trimRight (c :: cs) = c :: trimRight cs := by
  by_cases hnil : trimRight cs = []
  · obtain ⟨trail, htrail, he⟩ := exists_trimRight cs
    rw [hnil, List.nil_append] at he
    subst he
    have hdrop : trimRight ([c] ++ cs) = trimRight [c] := trimRight_append htrail
    have hkeep : trimRight ([] ++ [c]) = [] ++ [c] := trimRight_concat hc
    rw [hnil]
    exact hdrop.trans hkeep
  · have hkeep : trimRight ([c] ++ cs) = [c] ++ trimRight cs := trimRight_prepend hnil
    exact hkeep

theorem trimRight_eq_self (hlast : ∀ c, cs.getLast? = some c → isBlank c = false) :
    trimRight cs = cs := by
  by_cases hne : cs = []
  · rw [hne]
    rfl
  · have hc := hlast _ (List.getLast?_eq_some_getLast hne)
    rw [← List.dropLast_concat_getLast hne]
    exact trimRight_concat hc

/-- Between two runs of white space, a text that neither starts nor ends with any is what is left. -/
theorem trim_of_ends (hlead : IsBlankRun lead) (htrail : IsBlankRun trail) (hne : core ≠ [])
    (hfirst : ∀ c, core.head? = some c → isBlank c = false)
    (hlast : ∀ c, core.getLast? = some c → isBlank c = false) :
    trim (lead ++ core ++ trail) = core := by
  have hleft : trimLeft (lead ++ core ++ trail) = core ++ trail := by
    obtain ⟨first, rest, rfl⟩ := List.exists_cons_of_ne_nil hne
    rw [List.append_assoc, trimLeft_append hlead]
    exact trimLeft_cons (hfirst first rfl)
  rw [trim, hleft, trimRight_append htrail, trimRight_eq_self hlast]

/-- A text without white space is kept. -/
theorem trim_eq_self (h : ∀ c ∈ cs, isBlank c = false) : trim cs = cs := by
  cases cs with
  | nil => rfl
  | cons first rest =>
    rw [trim, trimLeft_cons (h first (List.mem_cons_self ..))]
    exact trimRight_eq_self fun c hc => h c (List.mem_of_getLast? hc)

end Orchestration.Text
