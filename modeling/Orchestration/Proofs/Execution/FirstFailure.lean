import Orchestration.Proofs.Execution.Settlement
import Mathlib.Data.List.Pairwise
import Mathlib.Data.List.Perm.Basic
import Mathlib.Data.Prod.Lex

/-!
# The failure that is reported

Tasks are taken in the order of their declaration, whatever their numbers are. The failure that is left
in the end is the least one in a lexicographic order: what completed is before what did not, then the
number counts, then the position. If the numbers of the completed failures are distinct, the position
never decides between two of them, and the order in which tasks are taken does not matter.
-/

namespace Orchestration.Execution

variable {α : Type} {tasks tasks' : List (String × Joined α)} {task : String × Joined α}
  {rank : Rank} {error : RunError} {seq : Nat}

/-! ## Statements -/

/-- What failures are ordered by: whether the task completed, its number, and its position. -/
def Rank.key (rank : Rank) : Bool ×ₗ ℕ ×ₗ ℕ :=
  toLex (rank.aborted, toLex (rank.seq, rank.index))

/-- The failing task of least rank. -/
structure FailsFirst (tasks : List (String × Joined α)) (task : String × Joined α) (rank : Rank)
    (error : RunError) : Prop where
  declared : tasks[rank.index]? = some task
  fails : task.2.failure? task.1 rank.index = some (rank, error)
  least : ∀ other ∈ failures 0 tasks, rank.key ≤ other.1.key

/-- The number of a task that completed with an error. -/
def Joined.failureNumber? : Joined α → Option Nat
  | .completed seq (.error _) => some seq
  | _ => none

/-- The numbers of the tasks that completed with an error. -/
def failureNumbers (tasks : List (String × Joined α)) : List Nat :=
  tasks.filterMap fun task => task.2.failureNumber?

/-! ## The order of failures -/

theorem Rank.before_iff_key_lt {a b : Rank} : a.before b = true ↔ a.key < b.key := by
  rw [before_eq_true_iff, key, key, Prod.Lex.toLex_lt_toLex, Prod.Lex.toLex_lt_toLex]
  have hlt : a.aborted < b.aborted ↔ a.aborted = false ∧ b.aborted = true := by
    cases a.aborted <;> cases b.aborted <;> decide
  rw [hlt]

theorem Rank.not_before_iff_key_le {a b : Rank} : b.before a = false ↔ a.key ≤ b.key := by
  rw [← not_lt, ← before_iff_key_lt, Bool.not_eq_true]

theorem failure?_of_number (hnumber : task.2.failureNumber? = some seq) (index : Nat) :
    ∃ e, task.2 = .completed seq (.error e) ∧
      task.2.failure? task.1 index = some (⟨false, seq, index⟩, e) := by
  obtain ⟨operation, joined⟩ := task
  cases joined with
  | lost reason => cases hnumber
  | completed seq' result =>
    cases result with
    | ok a => cases hnumber
    | error e =>
      obtain rfl : seq' = seq := Option.some.inj hnumber
      exact ⟨e, rfl, rfl⟩

theorem completed_of_failure? {operation : String} {index : Nat} {joined : Joined α}
    (h : joined.failure? operation index = some (rank, error)) (hcompleted : rank.aborted = false) :
    joined = .completed rank.seq (.error error) := by
  cases joined with
  | lost reason =>
    cases h
    cases hcompleted
  | completed seq result =>
    cases result with
    | ok a => cases h
    | error e =>
      cases h
      rfl

/-! ## What a settlement reports -/

theorem settle_eq_error_iff_error? :
    settle tasks = .error error ↔ (Settlement.start.takeAll tasks).2.error? = some error := by
  rw [settle_eq, Settlement.error?]
  cases (Settlement.start.takeAll tasks).2.first <;> simp

theorem error?_eq_some_iff :
    (Settlement.start.takeAll tasks).2.error? = some error ↔
      ∃ task rank, FailsFirst tasks task rank error := by
  rw [← settle_eq_error_iff_error?, settle_eq_error_iff]
  constructor
  · rintro ⟨rank, hmem, hleast⟩
    obtain ⟨task, hdeclared, hfails⟩ := mem_failures_iff.1 hmem
    have hkeys : ∀ other ∈ failures 0 tasks, rank.key ≤ other.1.key :=
      fun other hother => Rank.not_before_iff_key_le.1 (hleast other hother)
    exact ⟨task, rank, hdeclared, hfails, hkeys⟩
  · rintro ⟨task, rank, hfirst⟩
    refine ⟨rank, mem_failures_iff.2 ⟨task, hfirst.declared, hfirst.fails⟩, fun other hother => ?_⟩
    exact Rank.not_before_iff_key_le.2 (hfirst.least other hother)

theorem error?_eq_none_iff :
    (Settlement.start.takeAll tasks).2.error? = none ↔ failures 0 tasks = [] := by
  rw [Settlement.error?, Option.map_eq_none_iff]
  have hfirst := isFirst_settle tasks
  constructor
  · intro hnone
    rw [hnone] at hfirst
    cases hfirst with
    | none hempty => exact hempty
  · intro hempty
    cases h : (Settlement.start.takeAll tasks).2.first with
    | none => rfl
    | some x =>
      rw [h] at hfirst
      cases hfirst with
      | some hmem _ =>
        rw [hempty] at hmem
        cases hmem

/-- No error is left exactly if a value was taken every time. -/
theorem error?_eq_none_iff_values :
    (Settlement.start.takeAll tasks).2.error? = none ↔
      ∃ values : List α, (Settlement.start.takeAll tasks).1 = values.map some := by
  rw [error?_eq_none_iff, failures_eq_nil_iff, takeAll_fst]

/-- What is taken is a value exactly where the task completed with one. -/
theorem getElem?_taken_iff {i : Nat} {a : α} :
    (Settlement.start.takeAll tasks).1[i]? = some (some a) ↔
      ∃ operation seq, tasks[i]? = some (operation, .completed seq (.ok a)) := by
  rw [takeAll_fst, List.getElem?_map, Option.map_eq_some_iff]
  constructor
  · rintro ⟨⟨operation, joined⟩, htask, hvalue⟩
    cases joined with
    | lost reason => cases hvalue
    | completed seq result =>
      cases result with
      | error e => cases hvalue
      | ok a' =>
        obtain rfl : a' = a := Option.some.inj hvalue
        exact ⟨operation, seq, htask⟩
  · rintro ⟨operation, seq, htask⟩
    exact ⟨_, htask, rfl⟩

/-! ## The order in which tasks are taken -/

theorem mem_failureNumbers :
    seq ∈ failureNumbers tasks ↔ ∃ task ∈ tasks, task.2.failureNumber? = some seq :=
  List.mem_filterMap

theorem exists_failure_of_number (h : seq ∈ failureNumbers tasks) :
    ∃ index e, ((⟨false, seq, index⟩ : Rank), e) ∈ failures 0 tasks := by
  obtain ⟨task, hmem, hnumber⟩ := mem_failureNumbers.1 h
  obtain ⟨index, htask⟩ := List.mem_iff_getElem?.1 hmem
  obtain ⟨e, -, hfails⟩ := failure?_of_number hnumber index
  exact ⟨index, e, mem_failures_iff.2 ⟨task, htask, hfails⟩⟩

/-- If any failure completed, the one that is reported did, and no other has a smaller number. -/
theorem FailsFirst.completed (h : FailsFirst tasks task rank error) (hsome : failureNumbers tasks ≠ []) :
    task.2 = .completed rank.seq (.error error) ∧ ∀ n ∈ failureNumbers tasks, rank.seq ≤ n := by
  have hbefore : ∀ n ∈ failureNumbers tasks, rank.aborted = false ∧ rank.seq ≤ n := by
    intro n hn
    obtain ⟨index, e, hother⟩ := exists_failure_of_number hn
    have hkey := h.least _ hother
    simp only [Rank.key, Prod.Lex.toLex_le_toLex] at hkey
    rcases hkey with hlt | ⟨hcompleted, hle⟩
    · cases h : rank.aborted <;> rw [h] at hlt <;> exact absurd hlt (by decide)
    · exact ⟨hcompleted, by omega⟩
  obtain ⟨n, hn⟩ := List.exists_mem_of_ne_nil _ hsome
  exact ⟨completed_of_failure? h.fails (hbefore n hn).1, fun n hn => (hbefore n hn).2⟩

theorem eq_of_failureNumber? (hdistinct : (failureNumbers tasks).Nodup) (htask : task ∈ tasks)
    {other : String × Joined α} (hother : other ∈ tasks) (hnumber : task.2.failureNumber? = some seq)
    (hsame : other.2.failureNumber? = some seq) : task = other := by
  have hpairwise := List.pairwise_filterMap.1 hdistinct
  have hsymm : Std.Symm fun x y : String × Joined α =>
      ∀ n, x.2.failureNumber? = some n → ∀ n', y.2.failureNumber? = some n' → n ≠ n' :=
    ⟨fun x y h n hn n' hn' he => h n' hn' n hn he.symm⟩
  by_contra hne
  exact hpairwise.forall htask hother hne seq hnumber seq hsame rfl

/-- Among completed failures with distinct numbers, the one of least number is reported. -/
theorem exists_failsFirst_iff (hdistinct : (failureNumbers tasks).Nodup)
    (hsome : failureNumbers tasks ≠ []) :
    (∃ rank, FailsFirst tasks task rank error) ↔
      ∃ seq, task ∈ tasks ∧ task.2 = .completed seq (.error error) ∧
        ∀ n ∈ failureNumbers tasks, seq ≤ n := by
  constructor
  · rintro ⟨rank, hfirst⟩
    obtain ⟨hcompleted, hleast⟩ := hfirst.completed hsome
    exact ⟨rank.seq, List.mem_of_getElem? hfirst.declared, hcompleted, hleast⟩
  · rintro ⟨seq, htask, hcompleted, hleast⟩
    have hnumber : task.2.failureNumber? = some seq := by rw [hcompleted, Joined.failureNumber?]
    -- some failure is reported; it has the same number, so it is this one
    have hreported : (Settlement.start.takeAll tasks).2.error? ≠ none := by
      rw [Ne, error?_eq_none_iff]
      obtain ⟨index, e, hmem⟩ := exists_failure_of_number
        (mem_failureNumbers.2 ⟨task, htask, hnumber⟩)
      exact List.ne_nil_of_mem hmem
    obtain ⟨e, he⟩ := Option.ne_none_iff_exists'.1 hreported
    obtain ⟨first, rank, hfirst⟩ := error?_eq_some_iff.1 he
    obtain ⟨hfirstCompleted, hfirstLeast⟩ := hfirst.completed hsome
    have hfirstNumber : first.2.failureNumber? = some rank.seq := by
      rw [hfirstCompleted, Joined.failureNumber?]
    have hfirstMem : first ∈ tasks := List.mem_of_getElem? hfirst.declared
    have hle := hfirstLeast seq (mem_failureNumbers.2 ⟨task, htask, hnumber⟩)
    have hge := hleast rank.seq (mem_failureNumbers.2 ⟨first, hfirstMem, hfirstNumber⟩)
    obtain rfl : rank.seq = seq := by omega
    obtain rfl := eq_of_failureNumber? hdistinct hfirstMem htask hfirstNumber hnumber
    rw [hcompleted] at hfirstCompleted
    cases hfirstCompleted
    exact ⟨rank, hfirst⟩

theorem failsFirst_perm (hperm : tasks.Perm tasks') (hdistinct : (failureNumbers tasks).Nodup)
    (hsome : failureNumbers tasks ≠ []) :
    (∃ rank, FailsFirst tasks task rank error) ↔ ∃ rank, FailsFirst tasks' task rank error := by
  have hnumbers : (failureNumbers tasks).Perm (failureNumbers tasks') := hperm.filterMap _
  have hdistinct' := hnumbers.nodup_iff.1 hdistinct
  have hsome' : failureNumbers tasks' ≠ [] := by
    intro hnil
    rw [hnil] at hnumbers
    exact hsome hnumbers.eq_nil
  rw [exists_failsFirst_iff hdistinct hsome, exists_failsFirst_iff hdistinct' hsome']
  simp only [hperm.mem_iff, hnumbers.mem_iff]

/-- **Taking tasks gives the values that there are and reports the least failure.** Nothing is reported
exactly if every task gave a value, so a group without a failure has all of its values. If the numbers
of the completed failures are distinct and there is one, any order of the tasks leads to the report of
the same task. -/
theorem takeAll_reports_least (tasks : List (String × Joined α)) :
    let taken := Settlement.start.takeAll tasks
    taken.1.length = tasks.length ∧
      (∀ (i : Nat) (a : α), taken.1[i]? = some (some a) ↔
        ∃ operation seq, tasks[i]? = some (operation, Joined.completed seq (.ok a))) ∧
      (taken.2.error? = none ↔ ∃ values : List α, taken.1 = values.map some) ∧
      (∀ values : List α, settle tasks = .ok values ↔ taken.1 = values.map some) ∧
      (∀ error, taken.2.error? = some error ↔ ∃ task rank, FailsFirst tasks task rank error) ∧
      ∀ tasks', tasks.Perm tasks' → (failureNumbers tasks).Nodup → failureNumbers tasks ≠ [] →
        (Settlement.start.takeAll tasks').2.error? = taken.2.error? ∧
          ∀ task error, (∃ rank, FailsFirst tasks task rank error) ↔
            ∃ rank, FailsFirst tasks' task rank error := by
  intro taken
  refine ⟨?_, fun i a => getElem?_taken_iff, error?_eq_none_iff_values, fun values => ?_,
    fun error => error?_eq_some_iff, fun tasks' hperm hdistinct hsome => ?_⟩
  · show (Settlement.start.takeAll tasks).1.length = tasks.length
    rw [takeAll_fst, List.length_map]
  · show _ ↔ (Settlement.start.takeAll tasks).1 = values.map some
    rw [takeAll_fst]
    exact settle_eq_ok_iff
  · have hsame (task : String × Joined α) (error : RunError) :
        (∃ rank, FailsFirst tasks task rank error) ↔ ∃ rank, FailsFirst tasks' task rank error :=
      failsFirst_perm hperm hdistinct hsome
    refine ⟨Option.ext fun error => ?_, hsame⟩
    show (Settlement.start.takeAll tasks').2.error? = some error ↔
      (Settlement.start.takeAll tasks).2.error? = some error
    rw [error?_eq_some_iff, error?_eq_some_iff]
    exact exists_congr fun task => (hsame task error).symm

/-- Numbers out of order, a task that never completed, and a value between the failures. -/
def mixedTasks : List (String × Joined Nat) :=
  [("Load", .aborted), ("Count", .completed 3 (.error (.member "Count" "late"))),
    ("Get", .completed 0 (.ok 7)), ("List", .completed 2 (.error (.cancelled "List")))]

theorem takeAll_reports_least_mixed :
    (failureNumbers mixedTasks).Nodup ∧ failureNumbers mixedTasks ≠ [] ∧
      (Settlement.start.takeAll mixedTasks).1 = [none, none, some 7, none] ∧
      (Settlement.start.takeAll mixedTasks).2.error? = some (.cancelled "List") ∧
      (Settlement.start.takeAll mixedTasks.reverse).2.error? = some (.cancelled "List") ∧
      ∃ task rank, FailsFirst mixedTasks task rank (.cancelled "List") := by
  have hdistinct : (failureNumbers mixedTasks).Nodup := by decide
  have hsome : failureNumbers mixedTasks ≠ [] := by decide
  have herror : (Settlement.start.takeAll mixedTasks).2.error? = some (.cancelled "List") := by decide
  obtain ⟨-, -, -, -, hreport, hperm⟩ := takeAll_reports_least mixedTasks
  obtain ⟨hsame, -⟩ := hperm _ (List.reverse_perm mixedTasks).symm hdistinct hsome
  exact ⟨hdistinct, hsome, by decide, herror, hsame.trans herror, (hreport _).1 herror⟩

end Orchestration.Execution
