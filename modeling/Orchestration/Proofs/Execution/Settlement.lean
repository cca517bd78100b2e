import Orchestration.Execution.Settlement
import Mathlib.Data.List.Basic

/-!
# What a settlement reports

Taking the tasks of a group one after another keeps the failure of smallest rank among those taken.
The group therefore succeeds exactly if every task has a value, and it fails with an error exactly if
a failure with this error has no other before it.
-/

namespace Orchestration.Execution

variable {α : Type} {s : Settlement} {fs : List (Rank × RunError)} {rank : Rank} {error : RunError}
  {tasks : List (String × Joined α)}

/-! ## Ranks -/

theorem Rank.before_eq_true_iff {a b : Rank} :
    a.before b = true ↔
      (a.aborted = false ∧ b.aborted = true) ∨
        (a.aborted = b.aborted ∧ (a.seq < b.seq ∨ (a.seq = b.seq ∧ a.index < b.index))) := by
  unfold before
  by_cases ha : a.aborted = b.aborted
  · by_cases hs : a.seq = b.seq
    · simp [ha, hs]
    · simp [ha, hs]
  · cases h : a.aborted <;> cases h' : b.aborted <;> simp_all

@[simp]
theorem Rank.completed_before_completed {seq seq' index index' : Nat} :
    (⟨false, seq, index⟩ : Rank).before ⟨false, seq', index'⟩ = true ↔
      seq < seq' ∨ (seq = seq' ∧ index < index') := by
  simp [before_eq_true_iff]

@[simp]
theorem Rank.completed_before_aborted {seq seq' index index' : Nat} :
    (⟨false, seq, index⟩ : Rank).before ⟨true, seq', index'⟩ = true := by
  simp [before_eq_true_iff]

@[simp]
theorem Rank.aborted_before_completed {seq seq' index index' : Nat} :
    (⟨true, seq, index⟩ : Rank).before ⟨false, seq', index'⟩ = false := by
  rw [← Bool.not_eq_true]
  simp [before_eq_true_iff]

@[simp]
theorem Rank.aborted_before_aborted {seq index index' : Nat} :
    (⟨true, seq, index⟩ : Rank).before ⟨true, seq, index'⟩ = true ↔ index < index' := by
  simp [before_eq_true_iff]

theorem Rank.before_trans {a b c : Rank} (hab : a.before b = true) (hbc : b.before c = true) :
    a.before c = true := by
  rw [before_eq_true_iff] at hab hbc ⊢
  rcases hab with ⟨ha, hb⟩ | ⟨hab, hlt⟩
  · rcases hbc with ⟨hb', -⟩ | ⟨hbc, -⟩
    · rw [hb] at hb'
      cases hb'
    · exact Or.inl ⟨ha, hbc ▸ hb⟩
  · rcases hbc with ⟨hb, hc⟩ | ⟨hbc, hlt'⟩
    · exact Or.inl ⟨hab.trans hb, hc⟩
    · exact Or.inr ⟨hab.trans hbc, by omega⟩

/-- Of two different ranks one is before the other. -/
theorem Rank.eq_of_not_before {a b : Rank} (hab : a.before b = false) (hba : b.before a = false) :
    a = b := by
  rw [← Bool.not_eq_true, before_eq_true_iff] at hab hba
  obtain ⟨aborted, seq, index⟩ := a
  obtain ⟨aborted', seq', index'⟩ := b
  push Not at hab hba
  cases aborted <;> cases aborted' <;> simp_all <;> omega

/-! ## Failures -/

/-- The value of a task that has one. -/
def Joined.value? : Joined α → Option α
  | .completed _ (.ok a) => some a
  | _ => none

/-- The failure of a task that has no value, with the rank it has at its position. -/
def Joined.failure? (operation : String) (index : Nat) : Joined α → Option (Rank × RunError)
  | .completed _ (.ok _) => none
  | .completed seq (.error e) => some (⟨false, seq, index⟩, e)
  | .lost reason => some (⟨true, 0, index⟩, .taskAborted ⟨operation, reason⟩)

/-- The failures of tasks whose positions start at `start`. -/
def failures (start : Nat) (tasks : List (String × Joined α)) : List (Rank × RunError) :=
  (tasks.zipIdx start).filterMap fun e => e.1.2.failure? e.1.1 e.2

theorem failures_cons (start : Nat) (operation : String) (j : Joined α)
    (tasks : List (String × Joined α)) :
    failures start ((operation, j) :: tasks) =
      (j.failure? operation start).toList ++ failures (start + 1) tasks := by
  unfold failures
  rw [List.zipIdx_cons, List.filterMap_cons]
  cases j.failure? operation start <;> rfl

/-- A failure stands at the position that its rank gives. -/
theorem mem_failures_iff :
    (rank, error) ∈ failures 0 tasks ↔
      ∃ t, tasks[rank.index]? = some t ∧ t.2.failure? t.1 rank.index = some (rank, error) := by
  have hindex : ∀ (t : String × Joined α) (i : Nat),
      t.2.failure? t.1 i = some (rank, error) → rank.index = i := by
    rintro ⟨operation, j⟩ i h
    cases j with
    | completed seq result =>
      cases result with
      | ok a => cases h
      | error e =>
        cases h
        rfl
    | lost reason =>
      cases h
      rfl
  simp only [failures, List.mem_filterMap, Prod.exists, List.mem_zipIdx_iff_getElem?]
  constructor
  · rintro ⟨operation, j, i, hi, hf⟩
    obtain rfl := hindex (operation, j) i hf
    exact ⟨operation, j, hi, hf⟩
  · rintro ⟨operation, j, hi, hf⟩
    exact ⟨operation, j, rank.index, hi, hf⟩

theorem Joined.failure?_eq_none_iff {operation : String} {index : Nat} {j : Joined α} :
    j.failure? operation index = none ↔ ∃ a, j.value? = some a := by
  cases j with
  | completed seq result => cases result <;> simp [failure?, value?]
  | lost reason => simp [failure?, value?]

/-- What is reported of some failures: none if there are none, else one that no other is before. -/
inductive IsFirst (fs : List (Rank × RunError)) : Option (Rank × RunError) → Prop where
  | none (empty : fs = []) : IsFirst fs none
  | some {x : Rank × RunError} (mem : x ∈ fs) (least : ∀ y ∈ fs, y.1.before x.1 = false) :
      IsFirst fs (some x)

/-! ## Taking tasks -/

theorem IsFirst.fail (h : IsFirst fs s.first) (rank : Rank) (error : RunError) :
    IsFirst (fs ++ [(rank, error)]) (s.fail rank error).first := by
  unfold Settlement.fail
  have hirrefl : rank.before rank = false := by
    rw [← Bool.not_eq_true, Rank.before_eq_true_iff]
    simp
  cases hs : s.first with
  | none =>
    rw [hs] at h
    cases h with
    | none empty =>
      subst empty
      refine IsFirst.some (List.mem_singleton.mpr rfl) fun y hy => ?_
      rw [List.nil_append, List.mem_singleton] at hy
      rw [hy]
      exact hirrefl
  | some x =>
    obtain ⟨best, kept⟩ := x
    rw [hs] at h
    cases h with
    | some mem least =>
      dsimp only
      by_cases hbefore : rank.before best = true
      · rw [if_pos hbefore]
        refine IsFirst.some (List.mem_append_right _ (List.mem_singleton.mpr rfl)) fun y hy => ?_
        rcases List.mem_append.mp hy with hy | hy
        · rw [← Bool.not_eq_true]
          intro hyr
          have hyb := Rank.before_trans hyr hbefore
          rw [least y hy] at hyb
          cases hyb
        · rw [List.mem_singleton.mp hy]
          exact hirrefl
      · rw [if_neg hbefore]
        refine IsFirst.some (List.mem_append_left _ mem) fun y hy => ?_
        rcases List.mem_append.mp hy with hy | hy
        · exact least y hy
        · rw [List.mem_singleton.mp hy]
          exact Bool.not_eq_true _ ▸ hbefore

theorem take_joined (s : Settlement) (operation : String) (j : Joined α) :
    (s.take operation j).2.joined = s.joined + 1 := by
  have hfail : ∀ rank error, (s.fail rank error).joined = s.joined + 1 := by
    intro rank error
    unfold Settlement.fail
    split
    · rfl
    · split <;> rfl
  cases j with
  | completed seq result =>
    cases result with
    | ok a => rfl
    | error e => exact hfail _ _
  | lost reason => exact hfail _ _

theorem take_fst (s : Settlement) (operation : String) (j : Joined α) :
    (s.take operation j).1 = j.value? := by
  cases j with
  | completed seq result => cases result <;> rfl
  | lost reason => rfl

theorem IsFirst.take (h : IsFirst fs s.first) (operation : String) (j : Joined α) :
    IsFirst (fs ++ (j.failure? operation s.joined).toList) (s.take operation j).2.first := by
  cases j with
  | completed seq result =>
    cases result with
    | ok a => simpa [Joined.failure?, Settlement.take] using h
    | error e => exact h.fail _ _
  | lost reason => exact h.fail _ _

theorem takeAll_fst (s : Settlement) (tasks : List (String × Joined α)) :
    (s.takeAll tasks).1 = tasks.map fun t => t.2.value? := by
  induction tasks generalizing s with
  | nil => rfl
  | cons t rest ih =>
    obtain ⟨operation, j⟩ := t
    show (s.take operation j).1 :: ((s.take operation j).2.takeAll rest).1 = _
    rw [take_fst, ih, List.map_cons]

/-- Taking tasks keeps the first of their failures. -/
theorem IsFirst.takeAll (h : IsFirst fs s.first) (tasks : List (String × Joined α)) :
    IsFirst (fs ++ failures s.joined tasks) (s.takeAll tasks).2.first := by
  induction tasks generalizing s fs with
  | nil => simpa [failures, Settlement.takeAll] using h
  | cons t rest ih =>
    obtain ⟨operation, j⟩ := t
    have hrest := ih (h.take operation j)
    rw [take_joined, List.append_assoc, ← failures_cons] at hrest
    exact hrest

/-! ## Outcomes -/

theorem isFirst_settle (tasks : List (String × Joined α)) :
    IsFirst (failures 0 tasks) (Settlement.start.takeAll tasks).2.first := by
  have hstart : IsFirst [] Settlement.start.first := IsFirst.none rfl
  exact hstart.takeAll tasks

theorem settle_eq (tasks : List (String × Joined α)) :
    settle tasks =
      match (Settlement.start.takeAll tasks).2.first with
      | some x => .error x.2
      | none => .ok ((tasks.map fun t => t.2.value?).filterMap id) := by
  rw [← takeAll_fst Settlement.start tasks]
  unfold settle Settlement.error?
  cases h : (Settlement.start.takeAll tasks).2.first <;> simp [h]

/-- All tasks have values exactly if there is no failure among them. -/
theorem failures_eq_nil_iff {start : Nat} :
    failures start tasks = [] ↔
      ∃ values : List α, tasks.map (fun t => t.2.value?) = values.map some := by
  induction tasks generalizing start with
  | nil => exact iff_of_true rfl ⟨[], rfl⟩
  | cons t rest ih =>
    obtain ⟨operation, j⟩ := t
    rw [failures_cons, List.append_eq_nil_iff, ih, Option.toList_eq_nil_iff,
      Joined.failure?_eq_none_iff]
    constructor
    · rintro ⟨⟨a, ha⟩, values, hvalues⟩
      exact ⟨a :: values, by rw [List.map_cons, List.map_cons, ha, hvalues]⟩
    · rintro ⟨values, hvalues⟩
      cases values with
      | nil => cases hvalues
      | cons a values =>
        rw [List.map_cons, List.map_cons, List.cons.injEq] at hvalues
        exact ⟨⟨a, hvalues.1⟩, values, hvalues.2⟩

/-- A group succeeds exactly if all of its tasks have values. -/
theorem settle_eq_ok_iff {values : List α} :
    settle tasks = .ok values ↔ tasks.map (fun t => t.2.value?) = values.map some := by
  have hfirst := isFirst_settle tasks
  rw [settle_eq]
  cases h : (Settlement.start.takeAll tasks).2.first with
  | none =>
    rw [h] at hfirst
    cases hfirst with
    | none hempty =>
      obtain ⟨values', hvalues⟩ := failures_eq_nil_iff.1 hempty
      have hid : (values'.map some).filterMap id = values' := by
        rw [List.filterMap_map, Function.id_comp, List.filterMap_some]
      simp only [hvalues, hid, Except.ok.injEq]
      exact (List.map_inj_right fun _ _ h => Option.some.inj h).symm
  | some x =>
    rw [h] at hfirst
    cases hfirst with
    | some hmem _ =>
      refine iff_of_false (fun h => nomatch h) fun hvalues => ?_
      rw [failures_eq_nil_iff.2 ⟨values, hvalues⟩] at hmem
      cases hmem

/-- A group fails with an error exactly if it is that of a failure with no other before it. -/
theorem settle_eq_error_iff :
    settle tasks = .error error ↔
      ∃ rank, (rank, error) ∈ failures 0 tasks ∧
        ∀ y ∈ failures 0 tasks, y.1.before rank = false := by
  have hfirst := isFirst_settle tasks
  rw [settle_eq]
  cases h : (Settlement.start.takeAll tasks).2.first with
  | none =>
    rw [h] at hfirst
    cases hfirst with
    | none hempty =>
      rw [hempty]
      refine iff_of_false (fun h => nomatch h) ?_
      rintro ⟨rank, hmem, -⟩
      cases hmem
  | some x =>
    obtain ⟨best, kept⟩ := x
    rw [h] at hfirst
    cases hfirst with
    | some hmem hleast =>
      simp only [Except.error.injEq]
      constructor
      · rintro rfl
        exact ⟨best, hmem, hleast⟩
      · rintro ⟨rank, hrank, hleast'⟩
        -- neither is before the other, so both stand at one position
        obtain rfl : best = rank := Rank.eq_of_not_before (hleast' _ hmem) (hleast _ hrank)
        obtain ⟨t, ht, hf⟩ := mem_failures_iff.1 hmem
        obtain ⟨t', ht', hf'⟩ := mem_failures_iff.1 hrank
        rw [ht] at ht'
        cases ht'
        rw [hf] at hf'
        cases hf'
        rfl

end Orchestration.Execution
