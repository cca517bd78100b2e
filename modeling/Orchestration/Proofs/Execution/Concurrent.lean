import Orchestration.Proofs.Execution.Settlement
import Orchestration.Proofs.Execution.Trace
import Mathlib.Data.List.Nodup

/-!
# Concurrent groups

The members of a concurrent group have their turns in any order. Each that completes is numbered by
its place in the order of completion, so that the settlement, which sees the members in the order of
their declaration, still finds the failure that came first.
-/

namespace Orchestration.Execution

variable {α : Type} {tr : List (Happening α)} {operations : List String} {g : ActiveGroup α}
  {c : Call α} {how : CallEnd α}

/-! ## The order of completion -/

/-- The member that completes, if one does; a member that panics does not. -/
def Happening.completes? : Happening α → Option Nat
  | .ended (.member index) how => if how.completes then some index else none
  | _ => none

/-- The members that complete, in the order in which they do. -/
def completions (tr : List (Happening α)) : List Nat :=
  tr.filterMap Happening.completes?

theorem mem_completions {i : Nat} :
    i ∈ completions tr ↔ ∃ how, how.completes = true ∧ .ended (.member i) how ∈ tr := by
  unfold completions
  rw [List.mem_filterMap]
  constructor
  · rintro ⟨x, hx, hi⟩
    unfold Happening.completes? at hi
    split at hi
    · rename_i index how
      split at hi
      · rename_i hcompletes
        cases hi
        exact ⟨how, hcompletes, hx⟩
      · cases hi
    · cases hi
  · rintro ⟨how, hcompletes, hx⟩
    exact ⟨_, hx, by simp only [Happening.completes?, if_pos hcompletes]⟩

theorem completions_append (tr tr' : List (Happening α)) :
    completions (tr ++ tr') = completions tr ++ completions tr' :=
  List.filterMap_append

theorem completions_happenings (h : c.isOver = false) (i : Nat) (how? : Option (CallEnd α)) :
    completions (c.happenings (.member i) how?) =
      if how?.any CallEnd.completes then [i] else [] := by
  unfold completions Call.happenings
  rw [h, if_neg Bool.false_ne_true, List.filterMap_append]
  have hmade : (if c.isIdle then [(.made (.member i) c.operation : Happening α)] else []).filterMap
      Happening.completes? = [] := by
    split <;> rfl
  rw [hmade, List.nil_append]
  cases how? with
  | none => rfl
  | some how =>
    by_cases hcompletes : how.completes = true
    · simp [Happening.completes?, hcompletes]
    · simp [Happening.completes?, hcompletes]

/-! ## Turns -/

/-- What holds of a concurrent group after any turns. -/
structure Concurrently (operations : List String) (g : ActiveGroup α) (tr : List (Happening α)) :
    Prop where
  discipline : g.discipline = .concurrent
  phase : g.phase = .working
  operations : g.members.map Call.operation = operations
  counted : g.completed = (completions tr).length
  once : (completions tr).Nodup
  /-- A member that is over has ended. -/
  recorded : ∀ i c, g.members[i]? = some c → c.isOver = true → ∃ how, .ended (.member i) how ∈ tr
  /-- A member that has ended is left in the state of its end, numbered by its place. -/
  numbered : ∀ i how, .ended (.member i) how ∈ tr → ∃ c, g.members[i]? = some c ∧
    c.state = how.state (.member c.operation) c.operation ((completions tr).idxOf i)

theorem concurrently_enter {code : GroupCode} (h : code.discipline = .concurrent) :
    Concurrently code.operations (ActiveGroup.enter code : ActiveGroup α) [] := by
  have hmembers :
      (ActiveGroup.enter code : ActiveGroup α).members = code.operations.map Call.idle := rfl
  refine ⟨h, ?_, ?_, rfl, List.nodup_nil, ?_, fun _ _ hmem => nomatch hmem⟩
  · simp only [ActiveGroup.enter, h]
  · rw [hmembers, List.map_map]
    exact List.map_id _
  · intro i c hc hover
    rw [hmembers, List.getElem?_map, Option.map_eq_some_iff] at hc
    obtain ⟨operation, -, rfl⟩ := hc
    cases hover

namespace Concurrently

theorem call?_eq_some (h : Concurrently operations g tr) {target : Target}
    (hc : g.call? target = some c) :
    ∃ i, target = .member i ∧ g.members[i]? = some c ∧ c.isOver = false := by
  obtain ⟨i, rfl, hmay, hc⟩ := (ActiveGroup.call?_of_working h.phase).1 hc
  refine ⟨i, rfl, hc, ?_⟩
  simpa only [ActiveGroup.mayTurn, h.discipline, hc, Option.map_some, Option.getD_some,
    Bool.not_eq_true'] using hmay

theorem progress_eq (hd : g.discipline = .concurrent) (hp : g.phase = .working) :
    g.progress = g := by
  simp only [ActiveGroup.progress, ActiveGroup.startWork, ActiveGroup.startClosing, hp, hd]

/-- A member that has not ended is not over. -/
theorem isOver_of_ended (h : Concurrently operations g tr) {i : Nat}
    (hmem : .ended (.member i) how ∈ tr) (hc : g.members[i]? = some c) : c.isOver = true := by
  obtain ⟨c', hc', hstate⟩ := h.numbered i how hmem
  rw [hc] at hc'
  cases hc'
  exact Call.isOver_of_state hstate

theorem operations_set (h : Concurrently operations g tr) {i : Nat}
    (hc : g.members[i]? = some c) {c' : Call α} (hop : c'.operation = c.operation) :
    (g.members.set i c').map Call.operation = operations := by
  have hself : operations[i]? = some c.operation := by
    rw [← h.operations, List.getElem?_map, hc, Option.map_some]
  rw [List.map_set, h.operations, hop]
  obtain ⟨hi, he⟩ := List.getElem?_eq_some_iff.1 hself
  rw [← he, List.set_getElem_self]

theorem getElem?_set_iff {i j : Nat} (hc : g.members[i]? = some c) {c' d : Call α} :
    (g.members.set i c')[j]? = some d ↔
      (j = i ∧ d = c') ∨ (j ≠ i ∧ g.members[j]? = some d) := by
  have hi : i < g.members.length := (List.getElem?_eq_some_iff.1 hc).1
  rw [List.getElem?_set]
  by_cases hij : i = j
  · subst hij
    simp [hi, eq_comm]
  · simp [hij, Ne.symm hij]

/-- A member may go on waiting. -/
theorem wait (h : Concurrently operations g tr) {i : Nat} (hc : g.members[i]? = some c)
    {hs : List (Happening α)} (hcompletions : completions hs = [])
    (hended : ∀ j how, .ended (.member j) how ∉ hs) (hover : c.isOver = false) :
    Concurrently operations { g with members := g.members.set i { c with state := .waiting } }
      (tr ++ hs) := by
  have hsame : completions (tr ++ hs) = completions tr := by
    rw [completions_append, hcompletions, List.append_nil]
  refine ⟨h.discipline, h.phase, h.operations_set hc rfl, ?_, ?_, ?_, ?_⟩
  · rw [hsame]
    exact h.counted
  · rw [hsame]
    exact h.once
  · intro j d hd hdone
    rcases (getElem?_set_iff hc).1 hd with ⟨-, rfl⟩ | ⟨-, hd⟩
    · cases hdone
    · obtain ⟨how, hmem⟩ := h.recorded j d hd hdone
      exact ⟨how, List.mem_append_left _ hmem⟩
  · intro j how hmem
    rcases List.mem_append.mp hmem with hmem | hmem
    · obtain ⟨d, hd, hstate⟩ := h.numbered j how hmem
      have hji : j ≠ i := by
        rintro rfl
        rw [h.isOver_of_ended hmem hc] at hover
        cases hover
      rw [hsame]
      exact ⟨d, (getElem?_set_iff hc).2 (Or.inr ⟨hji, hd⟩), hstate⟩
    · exact absurd hmem (hended j how)

/-- A member may end; if it completes, its number is that of the members completed before. -/
theorem finish (h : Concurrently operations g tr) {i : Nat} (hc : g.members[i]? = some c)
    {hs : List (Happening α)} (hcompletions : completions hs = if how.completes then [i] else [])
    (hended : ∀ j how', .ended (.member j) how' ∈ hs ↔ j = i ∧ how' = how)
    (hover : c.isOver = false) :
    Concurrently operations
      { g with
        members := g.members.set i
          { c with state := how.state (.member c.operation) c.operation g.completed }
        completed := g.completed + if how.completes then 1 else 0 } (tr ++ hs) := by
  have hfresh : i ∉ completions tr := fun hmem => by
    obtain ⟨how', -, hmem⟩ := mem_completions.1 hmem
    rw [h.isOver_of_ended hmem hc] at hover
    cases hover
  refine ⟨h.discipline, h.phase, h.operations_set hc rfl, ?_, ?_, ?_, ?_⟩
  · rw [completions_append, hcompletions, List.length_append, ← h.counted]
    cases how.completes <;> rfl
  · rw [completions_append, hcompletions]
    cases how.completes with
    | true =>
      refine List.nodup_append.mpr ⟨h.once, List.nodup_singleton i, ?_⟩
      rintro a ha b hb rfl
      rw [if_pos rfl, List.mem_singleton] at hb
      exact hfresh (hb ▸ ha)
    | false => simpa using h.once
  · intro j d hd hdone
    rcases (getElem?_set_iff hc).1 hd with ⟨rfl, -⟩ | ⟨-, hd⟩
    · exact ⟨how, List.mem_append_right _ ((hended j how).2 ⟨rfl, rfl⟩)⟩
    · obtain ⟨how', hmem⟩ := h.recorded j d hd hdone
      exact ⟨how', List.mem_append_left _ hmem⟩
  · intro j how' hmem
    rw [completions_append]
    rcases List.mem_append.mp hmem with hmem | hmem
    · obtain ⟨d, hd, hstate⟩ := h.numbered j how' hmem
      have hji : j ≠ i := by
        rintro rfl
        rw [h.isOver_of_ended hmem hc] at hover
        cases hover
      refine ⟨d, (getElem?_set_iff hc).2 (Or.inr ⟨hji, hd⟩), ?_⟩
      cases hcompletes : how'.completes with
      | true =>
        rw [List.idxOf_append_of_mem (mem_completions.2 ⟨how', hcompletes, hmem⟩)]
        exact hstate
      | false => exact hstate.trans (CallEnd.state_eq_of_not_completes hcompletes ..)
    · obtain ⟨rfl, rfl⟩ := (hended j how').1 hmem
      refine ⟨_, (getElem?_set_iff hc).2 (Or.inl ⟨rfl, rfl⟩), ?_⟩
      cases hcompletes : how'.completes with
      | true =>
        rw [hcompletions, hcompletes, if_pos rfl, List.idxOf_append_of_notMem hfresh,
          List.idxOf_cons_self, Nat.add_zero, ← h.counted]
      | false => exact CallEnd.state_eq_of_not_completes hcompletes ..

/-- Every turn keeps what holds of a concurrent group. -/
theorem next (h : Concurrently operations g tr) (t : Turn α) :
    Concurrently operations (g.next t) (tr ++ g.happenings t) := by
  obtain ⟨cancelled, target, answer⟩ := t
  cases hcall : g.call? target with
  | none =>
    obtain ⟨hnext, hnothing⟩ := ActiveGroup.next_of_call?_eq_none
      (t := ⟨cancelled, target, answer⟩) hcall (progress_eq h.discipline h.phase)
    rw [hnext, hnothing, List.append_nil]
    exact h
  | some c =>
    obtain ⟨i, rfl, hc, hover⟩ := h.call?_eq_some hcall
    have hdone : c.isCompleted = false := (Bool.or_eq_false_iff.1 hover).1
    have hhappenings : g.happenings ⟨cancelled, .member i, answer⟩ =
        c.happenings (.member i) (answer.end? cancelled) := by
      simp [ActiveGroup.happenings, hcall]
    have hturn := Call.turn_fst c cancelled (.member c.operation) g.completed answer
    rw [hover, if_neg Bool.false_ne_true] at hturn
    have hnext : g.next ⟨cancelled, .member i, answer⟩ =
        (g.turn cancelled (.member i) answer).1 := by
      rw [ActiveGroup.next, ActiveGroup.turn_member h.phase hcall rfl]
      exact progress_eq h.discipline h.phase
    have hcompletions := completions_happenings hover i (answer.end? cancelled)
    have hended : ∀ j how, .ended (.member j) how ∈
        c.happenings (.member i) (answer.end? cancelled) ↔
          Target.member j = .member i ∧ answer.end? cancelled = some how :=
      fun j how => Call.mem_happenings_ended hover
    rw [hhappenings, hnext, ActiveGroup.turn_member h.phase hcall hturn, hdone]
    cases hhow : answer.end? cancelled with
    | none =>
      rw [hhow] at hcompletions hended
      refine h.wait hc hcompletions (fun j how hmem => ?_) hover
      cases ((hended j how).1 hmem).2
    | some how =>
      rw [hhow] at hcompletions hended
      have hcount := Call.isCompleted_of_state
        (c := ⟨c.operation, how.state (.member c.operation) c.operation g.completed⟩) rfl
      simp only [hcount, Bool.not_false, Bool.and_true]
      refine h.finish hc hcompletions (fun j how' => ?_) hover
      rw [hended]
      simp [eq_comm]

end Concurrently

theorem concurrently_after {code : GroupCode} (h : code.discipline = .concurrent)
    (ts : List (Turn α)) :
    Concurrently code.operations ((ActiveGroup.enter code).after ts)
      ((ActiveGroup.enter code).trace ts) :=
  ActiveGroup.after_induction (P := Concurrently code.operations) (fun _ _ t h => h.next t)
    (concurrently_enter h) ts

/-! ## What is reported -/

/-- What a concurrent group of some operations reports when all of its members have ended. -/
inductive Reports (operations : List String) (tr : List (Happening α)) :
    Except RunError (List α) → Prop where
  /-- Every member gave a value: all values, in the order of declaration. -/
  | values {values : List α} (complete : values.length = operations.length)
      (given : ∀ i a, values[i]? = some a → .ended (.member i) (.own (.value a)) ∈ tr) :
      Reports operations tr (.ok values)
  /-- A member failed or was cancelled: the error of the first such member to complete. -/
  | failure {i : Nat} {operation : String} {how : CallEnd α} {e : RunError}
      (declared : operations[i]? = some operation) (ended : .ended (.member i) how ∈ tr)
      (error : how.result? (.member operation) operation = some (.error e))
      (first : ∀ j how', .ended (.member j) how' ∈ tr → how'.fails = true →
        (completions tr).idxOf i ≤ (completions tr).idxOf j) :
      Reports operations tr (.error e)
  /-- No member failed or was cancelled but one panicked: the first such member declared. -/
  | aborted {i : Nat} {operation reason : String} (declared : operations[i]? = some operation)
      (ended : .ended (.member i) (.own (.panicWith reason)) ∈ tr)
      (unfailed : ∀ j how, .ended (.member j) how ∈ tr → how.fails = false)
      (first : ∀ j < i, ∀ reason', .ended (.member j) (.own (.panicWith reason')) ∉ tr) :
      Reports operations tr (.error (.taskAborted ⟨operation, reason⟩))

/-- The failures of the members, with their ranks. -/
inductive Failed (operations : List String) (tr : List (Happening α)) : Rank → RunError → Prop where
  | completed {i : Nat} {operation : String} {how : CallEnd α} {e : RunError}
      (declared : operations[i]? = some operation) (ended : .ended (.member i) how ∈ tr)
      (error : how.result? (.member operation) operation = some (.error e)) :
      Failed operations tr ⟨false, (completions tr).idxOf i, i⟩ e
  | panicked {i : Nat} {operation reason : String} (declared : operations[i]? = some operation)
      (ended : .ended (.member i) (.own (.panicWith reason)) ∈ tr) :
      Failed operations tr ⟨true, 0, i⟩ (.taskAborted ⟨operation, reason⟩)

theorem value?_joined {failure : String → RunError} {seq : Nat}
    (h : c.state = how.state failure c.operation seq) {a : α} :
    c.joined.value? = some a ↔ how = .own (.value a) := by
  unfold Call.joined
  rw [h]
  cases how with
  | own ending => cases ending <;> simp [CallEnd.state, Joined.value?]
  | cancelled => simp [CallEnd.state, Joined.value?]

theorem failure?_joined {failure : String → RunError} {seq i : Nat} {rank : Rank} {e : RunError}
    (h : c.state = how.state failure c.operation seq) :
    c.joined.failure? c.operation i = some (rank, e) ↔
      (how.result? failure c.operation = some (.error e) ∧ rank = ⟨false, seq, i⟩) ∨
        ∃ reason, how = .own (.panicWith reason) ∧ e = .taskAborted ⟨c.operation, reason⟩ ∧
          rank = ⟨true, 0, i⟩ := by
  unfold Call.joined
  rw [h]
  cases how with
  | own ending =>
    cases ending <;> simp [CallEnd.state, CallEnd.result?, Joined.failure?, eq_comm, and_comm]
  | cancelled => simp [CallEnd.state, CallEnd.result?, Joined.failure?, eq_comm, and_comm]

/-- The members as the settlement sees them. -/
def ActiveGroup.tasks (g : ActiveGroup α) : List (String × Joined α) :=
  g.members.map fun c => (c.operation, c.joined)

namespace Concurrently

theorem getElem?_operations (h : Concurrently operations g tr) {i : Nat}
    (hc : g.members[i]? = some c) : operations[i]? = some c.operation := by
  rw [← h.operations, List.getElem?_map, hc, Option.map_some]

theorem all_isOver_iff (h : Concurrently operations g tr) :
    g.members.all Call.isOver = true ↔
      ∀ i < operations.length, ∃ how, .ended (.member i) how ∈ tr := by
  have hlen : g.members.length = operations.length := by rw [← h.operations, List.length_map]
  rw [List.all_eq_true, ← hlen]
  constructor
  · intro hall i hi
    have hc : g.members[i]? = some g.members[i] := List.getElem?_eq_getElem hi
    exact h.recorded i _ hc (hall _ (List.getElem_mem hi))
  · intro hended c hmem
    obtain ⟨i, hi, rfl⟩ := List.getElem_of_mem hmem
    obtain ⟨how, hhow⟩ := hended i hi
    exact h.isOver_of_ended hhow (List.getElem?_eq_getElem hi)

theorem exists_declared (h : Concurrently operations g tr) {i : Nat}
    (hmem : .ended (.member i) how ∈ tr) : ∃ operation, operations[i]? = some operation := by
  obtain ⟨c, hc, -⟩ := h.numbered i how hmem
  exact ⟨c.operation, h.getElem?_operations hc⟩

/-- The failures that the settlement sees are those of the members. -/
theorem mem_failures_tasks_iff (h : Concurrently operations g tr)
    (hall : ∀ c ∈ g.members, c.isOver = true) {rank : Rank} {e : RunError} :
    (rank, e) ∈ failures 0 g.tasks ↔ Failed operations tr rank e := by
  rw [mem_failures_iff]
  constructor
  · rintro ⟨t, ht, hf⟩
    rw [ActiveGroup.tasks, List.getElem?_map, Option.map_eq_some_iff] at ht
    obtain ⟨c, hc, rfl⟩ := ht
    obtain ⟨how, hmem⟩ := h.recorded _ c hc (hall c (List.mem_of_getElem? hc))
    obtain ⟨c', hc', hstate⟩ := h.numbered _ how hmem
    rw [hc] at hc'
    cases hc'
    have hop := h.getElem?_operations hc
    rcases (failure?_joined hstate).1 hf with ⟨herror, hrank⟩ | ⟨_, rfl, rfl, hrank⟩
    · rw [hrank]
      exact Failed.completed hop hmem herror
    · rw [hrank]
      exact Failed.panicked hop hmem
  · intro hfailed
    cases hfailed with
    | @completed i operation how e hop hmem herror =>
      obtain ⟨c, hc, hstate⟩ := h.numbered i how hmem
      rw [h.getElem?_operations hc] at hop
      cases hop
      refine ⟨(c.operation, c.joined), ?_, (failure?_joined hstate).2 (Or.inl ⟨herror, rfl⟩)⟩
      rw [ActiveGroup.tasks, List.getElem?_map, hc, Option.map_some]
    | @panicked i operation reason hop hmem =>
      obtain ⟨c, hc, hstate⟩ := h.numbered i _ hmem
      rw [h.getElem?_operations hc] at hop
      cases hop
      refine ⟨(c.operation, c.joined), ?_, (failure?_joined hstate).2 (Or.inr ⟨_, rfl, rfl, rfl⟩)⟩
      rw [ActiveGroup.tasks, List.getElem?_map, hc, Option.map_some]

theorem settle_eq_ok_iff_reports (h : Concurrently operations g tr)
    (hall : ∀ c ∈ g.members, c.isOver = true) {values : List α} :
    settle g.tasks = .ok values ↔ Reports operations tr (.ok values) := by
  have hlen : g.members.length = operations.length := by rw [← h.operations, List.length_map]
  have hvalues : g.tasks.map (fun t => t.2.value?) = g.members.map fun c => c.joined.value? := by
    rw [ActiveGroup.tasks, List.map_map]
    rfl
  rw [settle_eq_ok_iff, hvalues]
  constructor
  · intro heq
    refine Reports.values ?_ fun i a ha => ?_
    · have hlength := congrArg List.length heq
      rw [List.length_map, List.length_map] at hlength
      omega
    · have hget := congrArg (fun l => l[i]?) heq
      simp only [List.getElem?_map, ha, Option.map_some, Option.map_eq_some_iff] at hget
      obtain ⟨c, hc, hvalue⟩ := hget
      obtain ⟨how, hmem⟩ := h.recorded i c hc (hall c (List.mem_of_getElem? hc))
      obtain ⟨c', hc', hstate⟩ := h.numbered i how hmem
      rw [hc] at hc'
      cases hc'
      rwa [(value?_joined hstate).1 hvalue] at hmem
  · intro hreports
    cases hreports with
    | values complete given =>
      refine List.ext_getElem? fun i => ?_
      rw [List.getElem?_map, List.getElem?_map]
      cases ha : values[i]? with
      | none =>
        have hi := List.getElem?_eq_none_iff.1 ha
        rw [List.getElem?_eq_none (by omega)]
        rfl
      | some a =>
        obtain ⟨c, hc, hstate⟩ := h.numbered i _ (given i a ha)
        rw [hc, Option.map_some, (value?_joined hstate).2 rfl]
        rfl

/-- A failure with no other before it is reported. -/
theorem reports_of_first (h : Concurrently operations g tr) {rank : Rank} {e : RunError}
    (hfailed : Failed operations tr rank e)
    (hfirst : ∀ rank' e', Failed operations tr rank' e' → rank'.before rank = false) :
    Reports operations tr (.error e) := by
  cases hfailed with
  | @completed i operation how e hop hended herror =>
    refine Reports.failure hop hended herror fun j how' hended' hfails => ?_
    obtain ⟨operation', hop'⟩ := h.exists_declared hended'
    obtain ⟨e', he'⟩ := CallEnd.fails_iff.1 hfails
    have hbefore := hfirst _ e' (Failed.completed hop' hended' he')
    rw [← Bool.not_eq_true, Rank.completed_before_completed] at hbefore
    omega
  | @panicked i operation reason hop hended =>
    refine Reports.aborted hop hended (fun j how' hended' => ?_) fun j hj reason' hended' => ?_
    · obtain ⟨operation', hop'⟩ := h.exists_declared hended'
      rw [← Bool.not_eq_true]
      intro hfails
      obtain ⟨e', he'⟩ := CallEnd.fails_iff.1 hfails
      have hbefore := hfirst _ e' (Failed.completed hop' hended' he')
      rw [Rank.completed_before_aborted] at hbefore
      cases hbefore
    · obtain ⟨operation', hop'⟩ := h.exists_declared hended'
      have hbefore := hfirst _ _ (Failed.panicked hop' hended')
      rw [← Bool.not_eq_true, Rank.aborted_before_aborted] at hbefore
      exact hbefore hj

end Concurrently

/-- What is reported is the error of a failure with no other before it. -/
theorem Reports.exists_first {e : RunError} (h : Reports operations tr (.error e)) :
    ∃ rank, Failed operations tr rank e ∧
      ∀ rank' e', Failed operations tr rank' e' → rank'.before rank = false := by
  cases h with
  | @failure i operation how _ hop hended herror hfirst =>
    refine ⟨_, Failed.completed hop hended herror, fun rank' e' hfailed => ?_⟩
    cases hfailed with
    | @completed j operation' how' _ _ hended' herror' =>
      have hle := hfirst j how' hended' (CallEnd.fails_iff.2 ⟨e', herror'⟩)
      rw [← Bool.not_eq_true, Rank.completed_before_completed]
      rintro (hlt | ⟨heq, hlt⟩)
      · omega
      · -- no two members have one place in the order of completion
        have hcompletes := CallEnd.completes_of_fails (CallEnd.fails_iff.2 ⟨e', herror'⟩)
        have hmem : j ∈ completions tr := mem_completions.2 ⟨how', hcompletes, hended'⟩
        have hji : j = i := (List.idxOf_inj hmem).1 heq
        omega
    | panicked => exact Rank.aborted_before_completed
  | @aborted i operation reason hop hended hunfailed hfirst =>
    refine ⟨_, Failed.panicked hop hended, fun rank' e' hfailed => ?_⟩
    cases hfailed with
    | @completed j _ how' _ _ hended' herror' =>
      have hfalse := hunfailed j how' hended'
      rw [CallEnd.fails_iff.2 ⟨e', herror'⟩] at hfalse
      cases hfalse
    | @panicked j _ reason' _ hended' =>
      rw [← Bool.not_eq_true, Rank.aborted_before_aborted]
      intro hlt
      exact hfirst j hlt reason' hended'

/-- Once all of its members are over, a group has the outcome that is to be reported. -/
theorem Concurrently.settle_eq_iff (h : Concurrently operations g tr)
    (hall : ∀ c ∈ g.members, c.isOver = true) {result : Except RunError (List α)} :
    settle g.tasks = result ↔ Reports operations tr result := by
  cases result with
  | ok values => exact h.settle_eq_ok_iff_reports hall
  | error e =>
    have hfailed : ∀ rank e, (rank, e) ∈ failures 0 g.tasks ↔ Failed operations tr rank e :=
      fun rank e => h.mem_failures_tasks_iff hall
    rw [settle_eq_error_iff]
    simp only [Prod.forall, hfailed]
    constructor
    · rintro ⟨rank, hrank, hfirst⟩
      exact h.reports_of_first hrank hfirst
    · exact Reports.exists_first

/-! ## Groups of a run -/

/-- How a concurrent group at position `k` of a run goes, where `g` is the group after its turns and
`tr` is what has happened in it. -/
structure JoinsMembers (operations : List String) (r : Run α) (k : Nat) (g : ActiveGroup α)
    (tr : List (Happening α)) : Prop where
  /-- The members are those of the group's code. -/
  members : g.members.map Call.operation = operations
  /-- No member completes twice. -/
  once : (completions tr).Nodup
  /-- A member that completes has the number of those that completed before it. -/
  numbered : ∀ i how, .ended (.member i) how ∈ tr → how.completes = true →
    ∃ c result, g.members[i]? = some c ∧
      how.result? (.member c.operation) c.operation = some result ∧
      c.state = .completed ((completions tr).idxOf i) result
  /-- The run leaves the group when all members have ended, and not before. -/
  left_iff : (∃ result, r.past[k]? = some (g, result)) ↔
    ∀ i < operations.length, ∃ how, .ended (.member i) how ∈ tr
  /-- It leaves the group with what the members have to report. -/
  result_iff : ∀ g' result, r.past[k]? = some (g', result) ↔
    g' = g ∧ (∀ i < operations.length, ∃ how, .ended (.member i) how ∈ tr) ∧
      Reports operations tr result

theorem outcome?_of_concurrently (h : Concurrently operations g tr) :
    g.isBroken = false ∧
      g.outcome? = if g.members.all Call.isOver then some (settle g.tasks) else none := by
  constructor
  · simp [ActiveGroup.isBroken, h.phase, h.discipline]
  · simp only [ActiveGroup.outcome?, h.phase, h.discipline, concurrentOutcome, ActiveGroup.tasks]

/-- **The members of a concurrent group are joined in whatever order they end.** -/
theorem concurrent_group_joins {codes : List GroupCode} {k : Nat} {code : GroupCode}
    (cancelled : Bool) (hcode : codes[k]? = some code) (hconcurrent : code.discipline = .concurrent)
    (hseveral : 2 ≤ code.operations.length) (es : List (Event α)) :
    JoinsMembers code.operations ((Run.start cancelled codes).1.steps es).1 k
      ((Run.start cancelled codes).1.groupAfter k code es)
      ((Run.start cancelled codes).1.traceIn k code es) := by
  have hopen : (ActiveGroup.enter code : ActiveGroup α).outcome? = none := by
    obtain ⟨-, houtcome⟩ := outcome?_of_concurrently (concurrently_enter (α := α) hconcurrent)
    rw [houtcome, if_neg]
    obtain ⟨operation, rest, hops⟩ := List.exists_cons_of_length_pos
      (show 0 < code.operations.length by omega)
    simp [ActiveGroup.enter, hops, Call.isOver, Call.isCompleted, Call.isPanicked, Call.idle]
  have h : Concurrently code.operations ((Run.start cancelled codes).1.groupAfter k code es)
      ((Run.start cancelled codes).1.traceIn k code es) :=
    concurrently_after hconcurrent ((Run.start cancelled codes).1.turnsIn k es)
  have hleft : ∀ g' result,
      ((Run.start cancelled codes).1.steps es).1.past[k]? = some (g', result) ↔
        g' = (Run.start cancelled codes).1.groupAfter k code es ∧
          (∀ i < code.operations.length, ∃ how,
            .ended (.member i) how ∈ (Run.start cancelled codes).1.traceIn k code es) ∧
          settle ((Run.start cancelled codes).1.groupAfter k code es).tasks = result := by
    intro g' result
    obtain ⟨hwhole, houtcome⟩ := outcome?_of_concurrently h
    rw [Run.past_eq_some_iff cancelled hcode hopen es, hwhole, houtcome, ← h.all_isOver_iff]
    simp
  refine ⟨h.operations, h.once, fun i how hmem hcompletes => ?_, ?_, fun g' result => ?_⟩
  · obtain ⟨c, hc, hstate⟩ := h.numbered i how hmem
    obtain ⟨result, hresult⟩ := CallEnd.completes_iff.1 hcompletes
    exact ⟨c, result, hc, hresult, hstate.trans (CallEnd.state_eq_completed_iff.2 ⟨rfl, hresult⟩)⟩
  · simp [hleft]
  · rw [hleft]
    refine and_congr_right fun _ => and_congr_right fun hended => ?_
    have hall := h.all_isOver_iff.2 hended
    rw [List.all_eq_true] at hall
    exact h.settle_eq_iff hall

/-- A member that takes long and fails, one that fails at once, and one that panics. -/
def raceCode : GroupCode :=
  ⟨.concurrent, ["Late", "Early", "Broken"]⟩

/-- The first member waits while the third panics and the second fails; then it fails as well. -/
def raceEvents : List (Event String) :=
  [.turn (.member 0) .pending, .turn (.member 2) (.ended .panic),
    .turn (.member 1) (.ended (.failure "early")), .turn (.member 0) (.ended (.failure "late"))]

/-- The failure that came first is reported, though another one is declared before it. -/
theorem concurrent_group_joins_race :
    let r := ((Run.start false [raceCode]).1.steps raceEvents).1
    let tr := (Run.start false [raceCode]).1.traceIn 0 raceCode raceEvents
    [raceCode][0]? = some raceCode ∧ raceCode.discipline = .concurrent ∧
      2 ≤ raceCode.operations.length ∧
      JoinsMembers raceCode.operations r 0
        ((Run.start false [raceCode]).1.groupAfter 0 raceCode raceEvents) tr ∧
      r.status = .returned ∧ r.results = [.error (.member "Early" "early")] ∧
      Reports raceCode.operations tr (.error (.member "Early" "early")) := by
  intro r tr
  have hjoins := concurrent_group_joins false (rfl : [raceCode][0]? = some raceCode) rfl
    (by decide) raceEvents
  obtain ⟨-, -, hreports⟩ :=
    (hjoins.result_iff _ _).1 (rfl : r.past[0]? = some (_, .error (.member "Early" "early")))
  exact ⟨rfl, rfl, by decide, hjoins, rfl, rfl, hreports⟩

end Orchestration.Execution
