import Orchestration.Proofs.Except
import Orchestration.Proofs.Execution.Scenario

/-!
# One group after another

A run enters a group only when the group before it has given its values, and by then every call of
that group has ended. Two calls are in progress at once only in a concurrent group. When the run
returns no call is in progress, and if it returns an error this is the error of the first group that
failed, which is the last one of which anything was called.
-/

namespace Orchestration.Execution

variable {α : Type} {k : Nat} {code : GroupCode} {target : Target} {operation : String}
  {values : List α}

/-- A list of results gives values exactly if all of them do. -/
theorem mapM_id_eq_ok_iff {results : List (Except RunError (List α))} {given : List (List α)} :
    results.mapM id = .ok given ↔ results = given.map .ok := by
  induction results generalizing given with
  | nil =>
    rw [List.mapM_nil, pure_eq_ok_iff]
    simp [eq_comm]
  | cons result rest ih =>
    rw [List.mapM_cons, bind_eq_ok_iff]
    constructor
    · rintro ⟨values, rfl, h⟩
      obtain ⟨more, hmore, h⟩ := bind_eq_ok_iff.1 h
      rw [← pure_eq_ok_iff.1 h, ih.1 hmore]
      rfl
    · intro h
      cases given with
      | nil => cases h
      | cons values more =>
        obtain ⟨rfl, hrest⟩ := List.cons_eq_cons.1 h
        exact ⟨values, rfl, bind_eq_ok_iff.2 ⟨more, ih.2 hrest, rfl⟩⟩

/-- A list of results gives the error that has only values before it. -/
theorem mapM_id_eq_error {results : List (Except RunError (List α))} {e : RunError}
    (hbefore : ∀ j < k, ∃ values, results[j]? = some (.ok values))
    (hk : results[k]? = some (.error e)) : results.mapM id = .error e := by
  induction results generalizing k with
  | nil => cases hk
  | cons result rest ih =>
    rw [List.mapM_cons]
    cases k with
    | zero =>
      cases hk
      rfl
    | succ k =>
      obtain ⟨values, hfirst⟩ := hbefore 0 (Nat.succ_pos k)
      cases hfirst
      have hrest := ih (fun j hj => hbefore (j + 1) (Nat.succ_lt_succ hj)) hk
      show (rest.mapM id >>= fun more => pure (values :: more)) = .error e
      rw [hrest]
      rfl

theorem exists_error_of_mapM_id {results : List (Except RunError (List α))} {e : RunError}
    (h : results.mapM id = .error e) : ∃ j : Nat, results[j]? = some (.error e) := by
  induction results with
  | nil => cases h
  | cons result rest ih =>
    cases result with
    | error e' =>
      rw [List.mapM_cons] at h
      cases h
      exact ⟨0, rfl⟩
    | ok values =>
      have hrest : rest.mapM id = .error e := by
        cases hmore : rest.mapM id with
        | error e' =>
          rw [List.mapM_cons, hmore] at h
          cases h
          rfl
        | ok more =>
          rw [List.mapM_cons, hmore] at h
          cases h
      obtain ⟨j, hj⟩ := ih hrest
      exact ⟨j + 1, hj⟩

namespace Run

/-- What a run returned: the values of its groups or an error. -/
def result? (r : Run α) : Option (Except RunError (List (List α))) :=
  match r.status with
  | .returned => some (r.results.mapM id)
  | _ => none

theorem result?_eq_some_iff {r : Run α} {result : Except RunError (List (List α))} :
    r.result? = some result ↔ r.status = .returned ∧ r.results.mapM id = result := by
  unfold result?
  cases r.status <;> simp

theorem results_eq_some_iff {r : Run α} {result : Except RunError (List α)} :
    r.results[k]? = some result ↔ ∃ g, r.past[k]? = some (g, result) := by
  rw [results, List.getElem?_map, Option.map_eq_some_iff]
  constructor
  · rintro ⟨⟨g, result⟩, h, rfl⟩
    exact ⟨g, h⟩
  · rintro ⟨g, h⟩
    exact ⟨(g, result), h, rfl⟩

/-- The groups before one have given values. It is the group that the run has reached, or the one that
failed. -/
theorem Placed.exists_position {codes : List GroupCode} {r : Run α} (h : Placed codes r) :
    ∃ k, (∀ j < k, ∃ values, r.results[j]? = some (.ok values)) ∧
      ((r.past.length = k ∧ (r.status = .returned → k = codes.length)) ∨
        (r.past.length = k + 1 ∧ r.status = .returned ∧ ∃ e, r.results[k]? = some (.error e))) := by
  have hvalues : ∀ j < r.past.length, (∀ e, r.results[j]? ≠ some (.error e)) →
      ∃ values, r.results[j]? = some (.ok values) := by
    intro j hj hnot
    obtain ⟨⟨g, result⟩, hget⟩ : ∃ entry, r.past[j]? = some entry :=
      ⟨_, List.getElem?_eq_getElem hj⟩
    cases result with
    | error e => exact absurd (results_eq_some_iff.2 ⟨g, hget⟩) (hnot e)
    | ok values => exact ⟨values, results_eq_some_iff.2 ⟨g, hget⟩⟩
  by_cases hfailed : ∃ (k : Nat) (e : RunError), r.results[k]? = some (.error e)
  · obtain ⟨k, e, hk⟩ := hfailed
    obtain ⟨g, hget⟩ := results_eq_some_iff.1 hk
    obtain ⟨hlast, hreturned⟩ := h.failed k g e hget
    refine ⟨k, fun j hj => hvalues j (by omega) fun e' hj' => ?_,
      Or.inr ⟨hlast.symm, hreturned, e, hk⟩⟩
    obtain ⟨g', hget'⟩ := results_eq_some_iff.1 hj'
    have hlast' := (h.failed j g' e' hget').1
    omega
  · refine ⟨r.past.length, fun j hj => hvalues j hj fun e he => hfailed ⟨j, e, he⟩,
      Or.inl ⟨rfl, fun hreturned => h.complete hreturned fun j g e hj => ?_⟩⟩
    exact hfailed ⟨j, e, results_eq_some_iff.2 ⟨g, hj⟩⟩

end Run

namespace Scenario

variable {s : Scenario α}

/-- In a group that has given values every member was called. -/
theorem made_of_gave (hgave : s.run.results[k]? = some (.ok values)) (hcode : s.codes[k]? = some code)
    {i : Nat} (hi : code.operations[i]? = some operation) :
    .made (.member i) operation ∈ s.trace k := by
  obtain ⟨g, hpast⟩ := Run.results_eq_some_iff.1 hgave
  by_cases hopen : (ActiveGroup.enter code : ActiveGroup α).outcome? = none
  · obtain ⟨-, -, houtcome⟩ := ((follows hcode hopen).past_eq_some_iff hopen).1 hpast
    exact ((standing hcode).ended_of_ok houtcome hi).1
  · rw [operations_eq_nil_of_over hopen] at hi
    cases hi

/-- A run that has returned leaves no call in progress. -/
theorem InProgress.unreturned (h : s.InProgress k target) : s.run.status ≠ .returned := by
  rcases h.current.2 with hdropped | ⟨-, g, later, c, hs, -⟩
  · rw [hdropped]
    exact fun heq => nomatch heq
  · exact Run.unreturned_of_running hs

/-- Two calls in progress belong to the same concurrent group. -/
theorem InProgress.concurrent {k' : Nat} {target' : Target} (h : s.InProgress k target)
    (h' : s.InProgress k' target') (hne : (k, target) ≠ (k', target')) :
    k = k' ∧ ∃ code, s.codes[k]? = some code ∧ code.discipline = .concurrent := by
  have hk : k = k' := h.current.1.symm.trans h'.current.1
  subst hk
  have htarget : target ≠ target' := fun heq => hne (by rw [heq])
  obtain ⟨⟨operation, hmade⟩, hended⟩ := h
  obtain ⟨⟨operation', hmade'⟩, hended'⟩ := h'
  obtain ⟨code, hcode⟩ := exists_code_of_mem hmade
  have hstanding := standing hcode
  obtain ⟨c, hcall, -⟩ := hstanding.call?_of_unended hmade hended
  obtain ⟨c', hcall', -⟩ := hstanding.call?_of_unended hmade' hended'
  obtain ⟨hd, -⟩ := ActiveGroup.concurrent_of_calls hcall hcall' htarget
  exact ⟨rfl, code, hcode, hstanding.discipline.symm.trans hd⟩

/-- Where a run stands that has reached the group at position `k`, unless it has returned. -/
theorem stands_of_reached (hreached : s.run.status ≠ .returned → s.run.past.length = k)
    (hreturned : s.run.status = .returned →
      k = s.codes.length ∨ ∃ e, s.run.results[k]? = some (.error e)) :
    s.Stands k s.run.status := by
  cases hs : s.run.status with
  | returned => exact .returned (hreturned hs)
  | running g later =>
    have hk := hreached (Run.unreturned_of_running hs)
    obtain ⟨code, hcode, hg⟩ := exists_code_of_running hs
    rw [← s.placed.waiting g later hs]
    rw [hk] at hcode hg ⊢
    exact .running (by rw [group?_of_code hcode, hg])
  | dropped =>
    exact .dropped (Run.drop_mem_of_dropped (Run.status_enterNext_ne_dropped _ _ _) hs)
  | panicked =>
    have hnot : s.run.status ≠ .returned := by
      rw [hs]
      exact fun heq => nomatch heq
    have hk := hreached hnot
    obtain ⟨code, later, hdrop, hopen⟩ := s.placed.reached hnot
    have hcode := Run.getElem?_of_drop hdrop
    rw [hk] at hcode
    obtain ⟨halone, target, reason, hpanic⟩ :=
      (standing hcode).exists_panic (isBroken_of_panicked hs hcode hopen hk)
    exact .panicked hcode halone hpanic

/-- How far a run has come with its groups, one after another: up to the group at position `k`. -/
structure OneByOne (s : Scenario α) (k : Nat) : Prop where
  /-- No call of a later group has been made. -/
  upTo : ∀ j target operation, .made target operation ∈ s.trace j → j ≤ k
  /-- Every group before it has given values. -/
  gave : ∀ j < k, ∃ values, s.run.results[j]? = some (.ok values)
  /-- By then all of its members were called, -/
  made : ∀ j < k, ∀ code, s.codes[j]? = some code → ∀ i operation,
    code.operations[i]? = some operation → .made (.member i) operation ∈ s.trace j
  /-- and every call that was made had ended. -/
  ended : ∀ j < k, ∀ target operation, .made target operation ∈ s.trace j →
    ∃ how, .ended target how ∈ s.trace j
  /-- Two calls are in progress at once only if they belong to the same concurrent group. -/
  concurrent : ∀ j target j' target', s.InProgress j target → s.InProgress j' target' →
    (j, target) ≠ (j', target') →
    j = j' ∧ ∃ code, s.codes[j]? = some code ∧ code.discipline = .concurrent
  /-- When the run returns no call is in progress. -/
  finished : s.run.status = .returned → ∀ j target, ¬ s.InProgress j target
  /-- It returns values if all of its groups have given theirs, -/
  result_ok : ∀ given, s.run.result? = some (.ok given) ↔
    s.run.status = .returned ∧ k = s.codes.length ∧ s.run.results = given.map .ok
  /-- and an error if the group at position `k` has failed with it. -/
  result_error : ∀ e, s.run.result? = some (.error e) ↔ s.run.results[k]? = some (.error e)
  /-- A group that is past is as its turns have left it, and is over with its result. -/
  left : ∀ j g result, s.run.past[j]? = some (g, result) →
    s.group? j = some g ∧ g.outcome? = some result
  /-- If the run goes on it does so in the group at position `k`; it stops by itself only when it
  returns or when a call has panicked there. -/
  stands : s.Stands k s.run.status

/-- **The groups of a run go one by one.** Of a run in which nothing has happened yet this says that it
has entered the first of its groups that makes a call, if there is one. -/
theorem groups_run_one_by_one (s : Scenario α) : ∃ k, s.OneByOne k := by
  obtain ⟨k, hgave, hposition⟩ := s.placed.exists_position
  have hcurrent : ∀ {j : Nat} {target : Target}, s.InProgress j target → k ≤ j := by
    intro j target h
    have hj := h.current.1
    rcases hposition with ⟨hk, -⟩ | ⟨-, hreturned, -⟩
    · omega
    · exact absurd hreturned h.unreturned
  refine ⟨k, ?_⟩
  constructor
  case upTo =>
    intro j target operation hmade
    obtain ⟨hle, hreached⟩ := reached_of_mem hmade
    rcases hposition with ⟨hk, -⟩ | ⟨hk, hreturned, -⟩
    · omega
    · have hne : j ≠ s.run.past.length := fun heq => hreached heq hreturned
      omega
  case gave => exact hgave
  case made =>
    intro j hj code hcode i operation hi
    obtain ⟨values, hvalues⟩ := hgave j hj
    exact made_of_gave hvalues hcode hi
  case ended =>
    intro j hj target operation hmade
    by_contra hnot
    have hprogress : s.InProgress j target := ⟨⟨operation, hmade⟩, fun how hmem => hnot ⟨how, hmem⟩⟩
    exact absurd (hcurrent hprogress) (Nat.not_le.2 hj)
  case concurrent => exact fun j target j' target' h h' hne => h.concurrent h' hne
  case finished => exact fun hreturned j target h => h.unreturned hreturned
  case result_ok =>
    intro given
    rw [Run.result?_eq_some_iff, mapM_id_eq_ok_iff]
    constructor
    · rintro ⟨hreturned, hresults⟩
      rcases hposition with ⟨-, hk⟩ | ⟨-, -, e, hfailed⟩
      · exact ⟨hreturned, hk hreturned, hresults⟩
      · rw [hresults, List.getElem?_map, Option.map_eq_some_iff] at hfailed
        obtain ⟨values, -, heq⟩ := hfailed
        cases heq
    · rintro ⟨hreturned, -, hresults⟩
      exact ⟨hreturned, hresults⟩
  case result_error =>
    intro e
    rw [Run.result?_eq_some_iff]
    constructor
    · rintro ⟨hreturned, herror⟩
      rcases hposition with ⟨hk, -⟩ | ⟨-, -, e', hfailed⟩
      · obtain ⟨j, hj⟩ := exists_error_of_mapM_id herror
        obtain ⟨g, hpast⟩ := Run.results_eq_some_iff.1 hj
        have hlt : j < k := hk ▸ (List.getElem?_eq_some_iff.1 hpast).1
        obtain ⟨values, hvalues⟩ := hgave j hlt
        rw [hj] at hvalues
        cases hvalues
      · rw [mapM_id_eq_error hgave hfailed] at herror
        cases herror
        exact hfailed
    · intro hfailed
      obtain ⟨g, hpast⟩ := Run.results_eq_some_iff.1 hfailed
      exact ⟨(s.placed.failed k g e hpast).2, mapM_id_eq_error hgave hfailed⟩
  case left => exact fun j g result => group?_of_past
  case stands =>
    have hreached : s.run.status ≠ .returned → s.run.past.length = k := by
      intro hnot
      rcases hposition with ⟨hk, -⟩ | ⟨-, hreturned, -⟩
      · exact hk
      · exact absurd hreturned hnot
    exact stands_of_reached hreached fun hreturned => by
      rcases hposition with ⟨-, hk⟩ | ⟨-, -, hfailed⟩
      · exact Or.inl (hk hreturned)
      · exact Or.inr hfailed

end Scenario

end Orchestration.Execution
