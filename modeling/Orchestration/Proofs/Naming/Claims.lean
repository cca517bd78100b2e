import Orchestration.Proofs.Naming.Allocator
import Mathlib.Data.List.ReduceOption

/-!
# Histories of claims

A claim is made on exactly one name or on a base to derive a name from. The search for a free numbered
form of a base that is taken goes through the numbers from 2 on and always ends, with the least one
that is free. So whatever claims were made before, no name is given away twice, and a claim of exactly
one name is refused only if the name was given away before or was taken from the start.
-/

namespace Orchestration.Naming.TakenNames

variable {t : TakenNames} {base name x : String} {n rounds : Nat}

/-! ## Statements -/

/-- The search for a free numbered form of a base, from a number on: how many candidates it passes over
and the name that it ends with. -/
inductive Search (t : TakenNames) (base : String) : Nat → Nat → String → Prop where
  /-- The candidate is free. -/
  | found {n : Nat} (free : numbered base n ∉ t.names) : Search t base n 0 (numbered base n)
  /-- The candidate is taken, and the search goes on with the next number. -/
  | passed {n rounds : Nat} {name : String} (taken : numbered base n ∈ t.names)
      (rest : Search t base (n + 1) rounds name) : Search t base n (rounds + 1) name

/-- How a name is derived from a base: the candidates that are passed over, and the name. -/
inductive Derivation (t : TakenNames) (base : String) : Nat → String → Prop where
  /-- The base is free. -/
  | base (free : base ∉ t.names) : Derivation t base 0 base
  /-- The base is taken, and a numbered form of it is searched for from 2 on. -/
  | numbered {rounds : Nat} {name : String} (taken : base ∈ t.names)
      (search : Search t base 2 rounds name) : Derivation t base rounds name

/-- The first free name for a base: the base itself, or the numbered form with the least free number
from 2 on. -/
inductive FirstFree (t : TakenNames) (base : String) : String → Prop where
  /-- The base is free. -/
  | base (free : base ∉ t.names) : FirstFree t base base
  /-- The base is taken, and so is every numbered form before this one. -/
  | numbered {n : Nat} (taken : base ∈ t.names) (two_le : 2 ≤ n) (free : numbered base n ∉ t.names)
      (least : ∀ m, 2 ≤ m → m < n → TakenNames.numbered base m ∈ t.names) :
      FirstFree t base (numbered base n)

/-- A claim. -/
inductive Claim where
  /-- On exactly this name. -/
  | explicit (name : String)
  /-- On a name derived from this base. -/
  | derived (base : String)
deriving Repr, DecidableEq

/-- The name that a claim gives away, unless it is refused, and what is taken after the claim. -/
def claim (t : TakenNames) : Claim → Option String × TakenNames
  | .explicit name =>
    match t.claim? name with
    | some t' => (some name, t')
    | none => (none, t)
  | .derived base => (some (t.claimDerived base).1, (t.claimDerived base).2)

/-- What claims answer that are made one after another, and what is taken after them. -/
def claimAll : TakenNames → List Claim → List (Option String) × TakenNames
  | t, [] => ([], t)
  | t, c :: cs =>
    let (answer, t) := t.claim c
    let (answers, t) := claimAll t cs
    (answer :: answers, t)

/-- The names that claims give away, in order. -/
def givenNames (t : TakenNames) (cs : List Claim) : List String :=
  (t.claimAll cs).1.reduceOption

/-! ## The search ends -/

theorem Search.unique {rounds' : Nat} {name' : String} (h : Search t base n rounds name)
    (h' : Search t base n rounds' name') : rounds' = rounds ∧ name' = name := by
  induction h generalizing rounds' name' with
  | found hfree =>
    cases h' with
    | found => exact ⟨rfl, rfl⟩
    | passed htaken => exact absurd htaken hfree
  | passed htaken _ ih =>
    cases h' with
    | found hfree => exact absurd htaken hfree
    | passed _ hrest =>
      obtain ⟨rfl, rfl⟩ := ih hrest
      exact ⟨rfl, rfl⟩

/-- The search passes over what is taken and ends with the first number that is free. -/
theorem search_of_least (hfree : numbered base (n + rounds) ∉ t.names)
    (hleast : ∀ m, n ≤ m → m < n + rounds → numbered base m ∈ t.names) :
    Search t base n rounds (numbered base (n + rounds)) := by
  induction rounds generalizing n with
  | zero => exact .found hfree
  | succ rounds ih =>
    have hnext : n + (rounds + 1) = n + 1 + rounds := by omega
    rw [hnext] at hfree hleast ⊢
    refine .passed (hleast n (Nat.le_refl n) (by omega)) (ih hfree fun m hm hlt => ?_)
    exact hleast m (by omega) hlt

/-- No more candidates are passed over than there are names taken. -/
theorem freeNumber_le (t : TakenNames) (base : String) : t.freeNumber base ≤ t.names.length + 2 := by
  obtain ⟨k, hk, hfree⟩ := exists_free_number t base
  rw [List.mem_range] at hk
  obtain ⟨-, -, hleast⟩ := freeNumber_spec t base
  by_contra hgt
  exact hfree (hleast (k + 2) (by omega) (by omega))

/-- The search from 2 on ends with the least number that is free. -/
theorem exists_search (t : TakenNames) (base : String) :
    ∃ rounds ≤ t.names.length, Search t base 2 rounds (numbered base (t.freeNumber base)) := by
  obtain ⟨htwo, hfree, hleast⟩ := freeNumber_spec t base
  obtain ⟨rounds, hrounds⟩ := Nat.exists_eq_add_of_le htwo
  have hle := freeNumber_le t base
  rw [hrounds] at hfree hleast hle ⊢
  exact ⟨rounds, by omega, search_of_least hfree hleast⟩

theorem Derivation.unique {rounds' : Nat} {name' : String} (h : Derivation t base rounds name)
    (h' : Derivation t base rounds' name') : rounds' = rounds ∧ name' = name := by
  cases h with
  | base hfree =>
    cases h' with
    | base => exact ⟨rfl, rfl⟩
    | numbered htaken => exact absurd htaken hfree
  | numbered htaken hsearch =>
    cases h' with
    | base hfree => exact absurd htaken hfree
    | numbered _ hsearch' => exact hsearch.unique hsearch'

/-- Deriving a name ends on every base, after no more candidates than there are names taken. -/
theorem exists_derivation (t : TakenNames) (base : String) :
    ∃ rounds ≤ t.names.length, Derivation t (baseOr base) rounds (t.derivedName base) := by
  rcases derivedName_eq t base with ⟨hfree, he⟩ | ⟨htaken, he⟩
  · rw [he]
    exact ⟨0, Nat.zero_le _, .base hfree⟩
  · rw [he]
    obtain ⟨rounds, hle, hsearch⟩ := exists_search t (baseOr base)
    exact ⟨rounds, hle, .numbered htaken hsearch⟩

/-! ## Derived names -/

theorem FirstFree.unique {name' : String} (h : FirstFree t base name) (h' : FirstFree t base name') :
    name' = name := by
  cases h with
  | base free =>
    cases h' with
    | base => rfl
    | numbered taken => exact absurd taken free
  | @numbered n taken two_le free least =>
    cases h' with
    | base free' => exact absurd taken free'
    | @numbered n' _ two_le' free' least' =>
      -- neither number is below the other one
      rcases Nat.lt_trichotomy n' n with hlt | rfl | hgt
      · exact absurd (least n' two_le' hlt) free'
      · rfl
      · exact absurd (least' n two_le hgt) free

/-- A derived name is the first free one. -/
theorem firstFree_derivedName (t : TakenNames) (base : String) :
    FirstFree t (baseOr base) (t.derivedName base) := by
  rcases derivedName_eq t base with ⟨hfree, he⟩ | ⟨htaken, he⟩
  · rw [he]
    exact .base hfree
  · rw [he]
    obtain ⟨htwo, hfree, hleast⟩ := freeNumber_spec t (baseOr base)
    exact .numbered htaken htwo hfree hleast

/-! ## Claims one after another -/

/-- A claim gives a free name away, which is taken after it, or is refused because exactly its name is
taken. -/
theorem claim_cases (t : TakenNames) (c : Claim) :
    (∃ x, x ∉ t.names ∧ t.claim c = (some x, t.insert x)) ∨
      ∃ x ∈ t.names, c = .explicit x ∧ t.claim c = (none, t) := by
  cases c with
  | derived base => exact Or.inl ⟨t.derivedName base, derivedName_notMem t base, rfl⟩
  | explicit x =>
    by_cases hx : x ∈ t.names
    · have hrefused : t.claim? x = none := if_pos (contains_eq_true_iff.2 hx)
      exact Or.inr ⟨x, hx, rfl, by rw [claim, hrefused]⟩
    · have hgiven : t.claim? x = some (t.insert x) := claim?_eq_some_iff.2 ⟨hx, rfl⟩
      exact Or.inl ⟨x, hx, by rw [claim, hgiven]⟩

theorem claim?_eq_none_iff : t.claim? x = none ↔ x ∈ t.names := by
  rw [Option.eq_none_iff_forall_ne_some]
  constructor
  · intro h
    by_contra hx
    exact h _ (claim?_eq_some_iff.2 ⟨hx, rfl⟩)
  · exact fun hx t' h => (claim?_eq_some_iff.1 h).1 hx

theorem givenNames_cons (t : TakenNames) (c : Claim) (cs : List Claim) :
    t.givenNames (c :: cs) = (t.claim c).1.toList ++ (t.claim c).2.givenNames cs := by
  show ((t.claim c).1 :: _).reduceOption = _
  cases (t.claim c).1 <;> rfl

theorem claimAll_snd_cons (t : TakenNames) (c : Claim) (cs : List Claim) :
    (t.claimAll (c :: cs)).2 = ((t.claim c).2.claimAll cs).2 := rfl

/-- What is taken after claims is what was taken before them and what they gave away. -/
theorem mem_claimAll_names (t : TakenNames) (cs : List Claim) :
    x ∈ (t.claimAll cs).2.names ↔ x ∈ t.givenNames cs ∨ x ∈ t.names := by
  induction cs generalizing t with
  | nil => simp [claimAll, givenNames]
  | cons c cs ih =>
    rw [claimAll_snd_cons, ih, givenNames_cons, List.mem_append]
    rcases claim_cases t c with ⟨y, -, he⟩ | ⟨y, -, -, he⟩
    · rw [he, mem_insert, Option.mem_toList, Option.some.injEq, eq_comm (a := y)]
      tauto
    · rw [he]
      simp

/-- What claims give away was not taken before them, and none of it is given away twice. -/
theorem givenNames_new (t : TakenNames) (cs : List Claim) :
    (t.givenNames cs).Nodup ∧ ∀ x ∈ t.givenNames cs, x ∉ t.names := by
  induction cs generalizing t with
  | nil => exact ⟨List.nodup_nil, fun _ h => absurd h List.not_mem_nil⟩
  | cons c cs ih =>
    obtain ⟨hnodup, hnew⟩ := ih (t.claim c).2
    rw [givenNames_cons]
    rcases claim_cases t c with ⟨y, hy, he⟩ | ⟨y, -, -, he⟩
    · rw [he] at hnodup hnew ⊢
      have hother : ∀ x ∈ (t.insert y).givenNames cs, x ≠ y ∧ x ∉ t.names := by
        intro x hx
        have := hnew x hx
        rwa [mem_insert, not_or] at this
      refine ⟨List.nodup_cons.2 ⟨fun h => (hother y h).1 rfl, hnodup⟩, ?_⟩
      exact List.forall_mem_cons.2 ⟨hy, fun x hx => (hother x hx).2⟩
    · rw [he] at hnodup hnew ⊢
      exact ⟨hnodup, hnew⟩

/-- **Every claim that is not refused gives a new name away.** Deriving a name from a base ends, after no
more candidates than there are names taken, with the first name that is free; it takes exactly this one.
So in any history of claims, no name is given away twice, none is a keyword or a name of the body, and
a claim of exactly one name is refused if and only if the name is one of these or was given away. -/
theorem claims_give_new_names (t : TakenNames) (base : String) (cs : List Claim) :
    (∃ rounds ≤ t.names.length, ∀ n name,
        Derivation t (baseOr base) n name ↔ n = rounds ∧ name = (t.claimDerived base).1) ∧
      (∀ name, FirstFree t (baseOr base) name ↔ name = (t.claimDerived base).1) ∧
      (t.claimDerived base).1 ∉ t.names ∧
      (∀ x, x ∈ (t.claimDerived base).2.names ↔ x = (t.claimDerived base).1 ∨ x ∈ t.names) ∧
      (initial.givenNames cs).Nodup ∧
      (∀ x ∈ initial.givenNames cs, x ∉ bodyNames ∧ x ∉ keywords) ∧
      ∀ x, (initial.claimAll cs).2.claim? x = none ↔
        x ∈ initial.givenNames cs ∨ x ∈ bodyNames ∨ x ∈ keywords := by
  have hinitial (x : String) : x ∈ initial.names ↔ x ∈ bodyNames ∨ x ∈ keywords := List.mem_append
  obtain ⟨rounds, hle, hderivation⟩ := exists_derivation t base
  have hfirst := firstFree_derivedName t base
  obtain ⟨hnodup, hnew⟩ := givenNames_new initial cs
  refine ⟨⟨rounds, hle, fun n name => ⟨hderivation.unique, ?_⟩⟩, fun name => ⟨hfirst.unique, ?_⟩,
    derivedName_notMem t base, fun x => mem_insert, hnodup, fun x hx => ?_, fun x => ?_⟩
  · rintro ⟨rfl, rfl⟩
    exact hderivation
  · rintro rfl
    exact hfirst
  · have := hnew x hx
    rwa [hinitial, not_or] at this
  · rw [claim?_eq_none_iff, mem_claimAll_names, hinitial]

theorem claims_give_new_names_users :
    let cs : List Claim := [.derived "user", .explicit "user_2", .derived "user", .explicit "user_3",
      .derived "type", .derived ""]
    let given := ["user", "user_2", "user_3", "type_2", "value"]
    initial.givenNames cs = given ∧ given.Nodup ∧ (∀ x ∈ given, x ∉ bodyNames ∧ x ∉ keywords) ∧
      (initial.claimAll cs).2.claim? "user_3" = none ∧
        ((initial.claimAll cs).2.claimDerived "user").1 = "user_4" := by
  intro cs given
  have hgiven : initial.givenNames cs = given := by decide +kernel
  obtain ⟨-, -, -, -, hnodup, hnew, hrefused⟩ := claims_give_new_names initial "" cs
  rw [hgiven] at hnodup hnew hrefused
  refine ⟨hgiven, hnodup, hnew, (hrefused "user_3").2 (Or.inl (by decide)), ?_⟩
  decide +kernel

end Orchestration.Naming.TakenNames
