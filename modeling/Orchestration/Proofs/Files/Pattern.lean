import Orchestration.Files.Pattern
import Mathlib.Data.List.Basic

/-!
# Reading patterns

A name without wildcards is read as itself. Reading a path as a pattern goes name by name, so a pattern
behind a directory is read as the names of the directory, which may hold wildcards like any other, and
then as the pattern.
-/

namespace Orchestration

/-! ## Names without wildcards -/

/-- A name in which no character is a wildcard or opens a bracket. -/
def Plain (name : String) : Prop :=
  ∀ c ∈ name.toList, c ≠ '*' ∧ c ≠ '?' ∧ c ≠ '['

instance (name : String) : Decidable (Plain name) :=
  List.decidableBAll (fun c => c ≠ '*' ∧ c ≠ '?' ∧ c ≠ '[') name.toList

namespace NameToken

variable {cs : List Char} {tokens : List NameToken}

theorem ofText?_of_plain (h : ∀ c ∈ cs, c ≠ '*' ∧ c ≠ '?' ∧ c ≠ '[') :
    ofText? cs = some (cs.map char) := by
  induction cs with
  | nil => simp [ofText?]
  | cons c cs ih =>
    obtain ⟨hstar, hmark, hopen⟩ := h c (List.mem_cons_self ..)
    have hrest := ih fun x hx => h x (List.mem_cons_of_mem c hx)
    rw [ofText?, hrest]
    · rfl
    all_goals simp [hstar, hmark, hopen]

theorem mapM_char?_eq_some_iff {name : List Char} :
    tokens.mapM NamePattern.char? = some name ↔ tokens = name.map char := by
  induction tokens generalizing name with
  | nil => simp
  | cons t ts ih =>
    cases t with
    | char c =>
      cases name with
      | nil => simp [NamePattern.char?, Option.bind_eq_some_iff]
      | cons d name =>
        simp only [List.mapM_cons, NamePattern.char?, Option.bind_eq_bind, Option.pure_def,
          Option.bind_some, Option.bind_eq_some_iff, ih, Option.some.injEq, List.cons.injEq,
          List.map_cons, NameToken.char.injEq]
        constructor
        · rintro ⟨_, rfl, rfl, rfl⟩
          exact ⟨rfl, rfl⟩
        · rintro ⟨rfl, rfl⟩
          exact ⟨name, rfl, rfl, rfl⟩
    | any => cases name <;> simp [NamePattern.char?]
    | run => cases name <;> simp [NamePattern.char?]
    | within ranges => cases name <;> simp [NamePattern.char?]
    | except ranges => cases name <;> simp [NamePattern.char?]

theorem map_cons_ne_chars {t : NameToken} (ht : NamePattern.char? t = none)
    (o : Option (List NameToken)) (name : List Char) : o.map (t :: ·) ≠ some (name.map char) := by
  intro h
  obtain ⟨ts, -, hts⟩ := Option.map_eq_some_iff.1 h
  cases name with
  | nil => cases hts
  | cons c name =>
    rw [(List.cons.inj hts).1] at ht
    cases ht

/-- Characters are read from these very characters. -/
theorem eq_of_ofText? {name : List Char} (h : ofText? cs = some (name.map char)) : cs = name := by
  fun_induction ofText? cs generalizing name with
  | case1 => simpa [eq_comm] using h
  | case2 cs => exact absurd h (map_cons_ne_chars rfl _ _)
  | case3 => cases h
  | case4 cs => exact absurd h (map_cons_ne_chars rfl _ _)
  | case5 => cases h
  | case6 cs => exact absurd h (map_cons_ne_chars rfl _ _)
  | case7 => cases h
  | case8 cs => exact absurd h (map_cons_ne_chars rfl _ _)
  | case9 c cs _ _ _ _ _ ih =>
    obtain ⟨ts, hts, heq⟩ := Option.map_eq_some_iff.1 h
    cases name with
    | nil => cases heq
    | cons d name =>
      obtain ⟨hchar, rfl⟩ := List.cons.inj heq
      rw [ih hts, NameToken.char.inj hchar]

/-- Tokens that stand for a dot stand for two as well, unless there is only the dot. -/
theorem matchesAll_dots (hwild : tokens.mapM NamePattern.char? = none)
    (hhead : tokens.head? = some (.char '.')) (hdot : matchesAll tokens ['.'] = true) :
    matchesAll tokens ['.', '.'] = true := by
  obtain ⟨ts, rfl⟩ := List.head?_eq_some_iff.1 hhead
  have hne : char '.' ≠ run := nofun
  rw [matchesAll_cons_cons hne, Bool.and_eq_true] at hdot
  rw [matchesAll_cons_cons hne, Bool.and_eq_true]
  refine ⟨hdot.1, ?_⟩
  cases ts with
  | nil => cases hwild
  | cons t ts =>
    obtain ⟨ht, hts⟩ : t = run ∧ matchesAll ts [] = true := by
      simpa [matchesAll_cons_nil] using hdot.2
    rw [ht, matchesAll_run_cons, matchesAll_cons_nil, hts]
    simp

end NameToken

namespace NamePattern

variable {s name : String} {q : NamePattern} {qs : List NamePattern} {pieces : List String}

theorem ofText?_of_plain (h : Plain s) : ofText? s = some (.literal s) := by
  have hne : s ≠ "**" := by
    rintro rfl
    exact (h '*' (by decide)).1 rfl
  rw [ofText?, if_neg hne, NameToken.ofText?_of_plain h, Option.map_some,
    NameToken.mapM_char?_eq_some_iff.2 rfl]
  dsimp only
  rw [String.ofList_toList]

/-- Only a name without wildcards is read as itself. -/
theorem eq_of_ofText? (h : ofText? s = some (.literal name)) : name = s := by
  unfold ofText? at h
  split at h
  · cases h
  · obtain ⟨tokens, htokens, hread⟩ := Option.map_eq_some_iff.1 h
    split at hread
    · next cs hcs =>
      rw [NameToken.mapM_char?_eq_some_iff.1 hcs] at htokens
      rw [← NamePattern.literal.inj hread, ← NameToken.eq_of_ofText? htokens, String.ofList_toList]
    · cases hread

/-- A name with wildcards that does not stand for the directory above does not stand for the directory
itself either. -/
theorem dotsMatching_eq_nil {tokens : List NameToken} (h : ofText? s = some (.wild tokens))
    (hup : ".." ∉ FileTree.dotsMatching tokens) : FileTree.dotsMatching tokens = [] := by
  have hwild : tokens.mapM char? = none := by
    unfold ofText? at h
    split at h
    · cases h
    · obtain ⟨tokens', -, hread⟩ := Option.map_eq_some_iff.1 h
      split at hread
      · cases hread
      · next hnone => rwa [NamePattern.wild.inj hread] at hnone
  unfold FileTree.dotsMatching at hup ⊢
  split_ifs at hup ⊢ with hhead
  · have hnot : NameToken.matchesAll tokens ['.', '.'] = false := by
      simpa [List.mem_filter] using hup
    have hnot' : NameToken.matchesAll tokens ['.'] = false := by
      by_contra hdot
      rw [Bool.not_eq_false] at hdot
      rw [NameToken.matchesAll_dots hwild hhead hdot] at hnot
      cases hnot
    simp [hnot, hnot']
  · rfl

/-! ## Patterns behind names -/

theorem collapse_literal (name : String) (qs : List NamePattern) :
    collapse (.literal name :: qs) = .literal name :: collapse qs := by
  rw [collapse]
  nofun

theorem collapse_literals (names : List String) (qs : List NamePattern) :
    collapse (names.map .literal ++ qs) = names.map .literal ++ collapse qs := by
  induction names with
  | nil => rfl
  | cons name names ih => rw [List.map_cons, List.cons_append, collapse_literal, ih]; rfl

theorem exists_collapse_cons (q : NamePattern) (qs : List NamePattern) :
    ∃ rest, collapse (q :: qs) = q :: rest ∧ ∀ x ∈ rest, x ∈ collapse qs := by
  by_cases h : q = anywhere ∧ ∃ rest, collapse qs = anywhere :: rest
  · obtain ⟨rfl, rest, hrest⟩ := h
    refine ⟨rest, by rw [collapse]; exact hrest, fun x hx => ?_⟩
    rw [hrest]
    exact List.mem_cons_of_mem _ hx
  · refine ⟨collapse qs, ?_, fun x hx => hx⟩
    rw [collapse]
    exact fun rest hq hrest => h ⟨hq, rest, hrest⟩

theorem mem_of_mem_collapse (h : q ∈ collapse qs) : q ∈ qs := by
  induction qs with
  | nil => exact h
  | cons x qs ih =>
    obtain ⟨rest, hrest, hmem⟩ := exists_collapse_cons x qs
    rw [hrest] at h
    rcases List.mem_cons.1 h with rfl | h
    · exact List.mem_cons_self ..
    · exact List.mem_cons_of_mem _ (ih (hmem q h))

theorem length_collapse_le (qs : List NamePattern) : (collapse qs).length ≤ qs.length := by
  fun_induction collapse qs with
  | case1 => exact Nat.le_refl _
  | case2 qs rest heq ih =>
    rw [heq] at ih
    exact Nat.le_succ_of_le ih
  | case3 q qs _ ih => exact Nat.succ_le_succ ih

theorem mapM_ofText?_of_plain (h : ∀ s ∈ pieces, Plain s) :
    pieces.mapM ofText? = some (pieces.map .literal) := by
  induction pieces with
  | nil => rfl
  | cons s pieces ih =>
    simp [List.mapM_cons, ofText?_of_plain (h s (List.mem_cons_self ..)),
      ih fun x hx => h x (List.mem_cons_of_mem s hx)]

theorem exists_piece_of_mapM (h : pieces.mapM ofText? = some qs) (hq : q ∈ qs) :
    ∃ s ∈ pieces, ofText? s = some q := by
  induction pieces generalizing qs with
  | nil =>
    obtain rfl : qs = [] := by simpa [eq_comm] using h
    cases hq
  | cons s pieces ih =>
    simp only [List.mapM_cons, Option.bind_eq_bind, Option.bind_eq_some_iff, Option.pure_def,
      Option.some.injEq] at h
    obtain ⟨x, hx, rest, hrest, rfl⟩ := h
    rcases List.mem_cons.1 hq with rfl | hq
    · exact ⟨s, List.mem_cons_self .., hx⟩
    · obtain ⟨s', hs', hread⟩ := ih hrest hq
      exact ⟨s', List.mem_cons_of_mem s hs', hread⟩

theorem length_eq_of_mapM (h : pieces.mapM ofText? = some qs) : qs.length = pieces.length := by
  induction pieces generalizing qs with
  | nil =>
    obtain rfl : qs = [] := by simpa [eq_comm] using h
    rfl
  | cons s pieces ih =>
    simp only [List.mapM_cons, Option.bind_eq_bind, Option.bind_eq_some_iff, Option.pure_def,
      Option.some.injEq] at h
    obtain ⟨x, -, rest, hrest, rfl⟩ := h
    rw [List.length_cons, List.length_cons, ih hrest]

/-- Patterns that do not go on with an empty name behind the dots in front. -/
def Begins : List NamePattern → Prop
  | [] => True
  | q :: rest => if q = .literal "." then Begins rest else q ≠ .literal ""

theorem not_begins_empty (qs : List NamePattern) : ¬ Begins (.literal "" :: qs) := by
  intro h
  rw [Begins, if_neg (by decide)] at h
  exact h rfl

theorem begins_of_here (h : Begins (.literal "." :: qs)) : Begins qs := by
  rwa [Begins, if_pos rfl] at h

theorem begins_of_pieces (h : pieces.mapM ofText? = some qs)
    (htight : ∀ dots rest, (∀ s ∈ dots, s = ".") → pieces = dots ++ "" :: rest → rest = [])
    (hlast : pieces.getLast? ≠ some "") : Begins (collapse qs) := by
  induction pieces generalizing qs with
  | nil =>
    obtain rfl : qs = [] := by simpa [eq_comm] using h
    trivial
  | cons s pieces ih =>
    simp only [List.mapM_cons, Option.bind_eq_bind, Option.bind_eq_some_iff, Option.pure_def,
      Option.some.injEq] at h
    obtain ⟨q, hq, qs, hqs, rfl⟩ := h
    by_cases hdot : q = .literal "."
    · subst hdot
      obtain rfl := eq_of_ofText? hq
      have hlast' : pieces.getLast? ≠ some "" := by
        intro hnil
        rw [List.getLast?_cons, hnil] at hlast
        exact hlast rfl
      rw [collapse_literal]
      show if _ then _ else _
      rw [if_pos rfl]
      refine ih hqs (fun dots rest hdots heq => htight ("." :: dots) rest ?_ ?_) hlast'
      · intro s hs
        rcases List.mem_cons.1 hs with rfl | hs
        · rfl
        · exact hdots s hs
      · rw [heq]
        rfl
    · obtain ⟨rest, hrest, -⟩ := exists_collapse_cons q qs
      rw [hrest]
      show if _ then _ else _
      rw [if_neg hdot]
      rintro rfl
      obtain rfl := eq_of_ofText? hq
      obtain rfl := htight [] pieces nofun rfl
      exact hlast rfl

end NamePattern

/-- What a name pattern may be so that it leads from a directory into it. -/
def NamePattern.Descends : NamePattern → Prop
  | .literal name => name ≠ ".." ∧ '/' ∉ name.toList
  | .wild tokens => FileTree.dotsMatching tokens = []
  | .anywhere => True

/-- A pattern of files below the directory that it is put behind. -/
structure Inward (pattern : String) : Prop where
  /-- It does not start at the root, -/
  relative : pattern.toList.head? ≠ some '/'
  /-- no name in it is that of the directory above, -/
  named : ".." ∉ Text.split '/' pattern
  /-- and none with wildcards stands for it. -/
  undotted : ∀ s ∈ Text.split '/' pattern, ∀ tokens,
    NamePattern.ofText? s = some (.wild tokens) → ".." ∉ FileTree.dotsMatching tokens
  /-- Behind dots in front there is no doubled slash. -/
  tight : ∀ dots rest, (∀ s ∈ dots, s = ".") →
    Text.split '/' pattern = dots ++ "" :: rest → rest = []

end Orchestration
