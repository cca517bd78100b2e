import Orchestration.Proofs.Execution.Position

/-!
# Scenarios

A scenario is a run from its start on: the groups, whether the token is cancelled from the start, and
the events that have come. What has happened in a group tells which of its calls are in progress. Such
a call belongs to the group that the run has reached, and if the run still goes on the call may have
the next turn.
-/

namespace Orchestration.Execution

variable {α : Type} {k : Nat} {code : GroupCode}

theorem ActiveGroup.trace_append (g : ActiveGroup α) (ts us : List (Turn α)) :
    g.trace (ts ++ us) = g.trace ts ++ (g.after ts).trace us := by
  induction ts generalizing g with
  | nil => rfl
  | cons t ts ih =>
    have hrest := ih (g.next t)
    rw [List.cons_append, trace, trace, hrest, List.append_assoc]
    rfl

/-- A group that is over as soon as it is entered has no members. -/
theorem operations_eq_nil_of_over
    (h : (ActiveGroup.enter code : ActiveGroup α).outcome? ≠ none) : code.operations = [] := by
  obtain ⟨discipline, operations⟩ := code
  cases operations with
  | nil => rfl
  | cons operation rest =>
    apply absurd _ h
    cases discipline <;>
      simp [ActiveGroup.enter, ActiveGroup.outcome?, sequenceOutcome, concurrentOutcome, Call.idle,
        Call.isOver, Call.isCompleted, Call.isPanicked]

/-- Groups to run, whether the token is cancelled from the start, and the events that come. -/
structure Scenario (α : Type) where
  codes : List GroupCode
  cancelled : Bool
  events : List (Event α)

namespace Scenario

variable {s : Scenario α} {es : List (Event α)} {target : Target} {operation : String}
  {g : ActiveGroup α} {later : List GroupCode}

/-- The run before anything happens. -/
def first (s : Scenario α) : Run α :=
  (Run.start s.cancelled s.codes).1

/-- The run after the events. -/
def run (s : Scenario α) : Run α :=
  (s.first.steps s.events).1

/-- The scenario in which more events come. -/
def continued (s : Scenario α) (es : List (Event α)) : Scenario α :=
  { s with events := s.events ++ es }

/-- The group at a position, after the turns that fell to it. -/
def group? (s : Scenario α) (k : Nat) : Option (ActiveGroup α) :=
  s.codes[k]?.map fun code => s.first.groupAfter k code s.events

/-- What has happened in the group at a position. -/
def trace (s : Scenario α) (k : Nat) : List (Happening α) :=
  match s.codes[k]? with
  | some code => s.first.traceIn k code s.events
  | none => []

/-- A call has begun and has not ended. -/
def InProgress (s : Scenario α) (k : Nat) (target : Target) : Prop :=
  (∃ operation, .made target operation ∈ s.trace k) ∧ ∀ how, .ended target how ∉ s.trace k

/-- Where a run stands whose groups before position `k` have given values. -/
inductive Stands (s : Scenario α) (k : Nat) : Status α → Prop where
  /-- It has entered the group at position `k`, which is as its turns have left it. -/
  | running {g : ActiveGroup α} (group : s.group? k = some g) :
      Stands s k (.running g (s.codes.drop (k + 1)))
  /-- It has returned: no group is left, or this one has failed. -/
  | returned (last : k = s.codes.length ∨ ∃ e, s.run.results[k]? = some (.error e)) :
      Stands s k .returned
  /-- It was dropped, which only an event does. -/
  | dropped (event : .drop ∈ s.events) : Stands s k .dropped
  /-- A call of this group has panicked that has no task of its own. -/
  | panicked {code : GroupCode} {target : Target} {reason : String}
      (declared : s.codes[k]? = some code) (alone : code.discipline ≠ .concurrent)
      (panic : .ended target (.own (.panicWith reason)) ∈ s.trace k) : Stands s k .panicked

/-- The run goes on in the group at position `k`, and the call there may have the next turn. -/
def Awaits (s : Scenario α) (k : Nat) (target : Target) : Prop :=
  s.run.past.length = k ∧ ∃ g later c, s.run.status = .running g later ∧
    g.call? target = some c ∧ c.isOver = false

theorem group?_of_code (hcode : s.codes[k]? = some code) :
    s.group? k = some (s.first.groupAfter k code s.events) := by
  rw [group?, hcode, Option.map_some]

theorem trace_of_code (hcode : s.codes[k]? = some code) :
    s.trace k = s.first.traceIn k code s.events := by
  rw [trace, hcode]

theorem exists_code_of_mem {h : Happening α} (hmem : h ∈ s.trace k) :
    ∃ code, s.codes[k]? = some code := by
  cases hcode : s.codes[k]? with
  | some code => exact ⟨code, rfl⟩
  | none =>
    rw [trace, hcode] at hmem
    cases hmem

theorem placed (s : Scenario α) : Run.Placed s.codes s.run :=
  (Run.placed_start s.codes s.cancelled).steps s.events

theorem follows (hcode : s.codes[k]? = some code)
    (hopen : (ActiveGroup.enter code : ActiveGroup α).outcome? = none) :
    Run.Follows k code s.run (s.first.groupAfter k code s.events) := by
  have hstart : Run.Follows k code s.first (.enter code) :=
    Run.follows_enterNext s.cancelled hopen hcode (Nat.zero_add k)
  exact hstart.steps hopen s.events

/-- The calls of every group agree with what has happened in it. -/
theorem standing (hcode : s.codes[k]? = some code) :
    Standing code (s.first.groupAfter k code s.events) (s.trace k) := by
  rw [trace_of_code hcode]
  by_cases hopen : (ActiveGroup.enter code : ActiveGroup α).outcome? = none
  · have hstart : Run.Follows k code s.first (.enter code) :=
      Run.follows_enterNext s.cancelled hopen hcode (Nat.zero_add k)
    exact hstart.induction (P := Standing code) (fun g tr t h hg => h.next hg t) hopen
      (standing_enter code) s.events
  · have hnone : s.first.turnsIn k s.events = [] :=
      Run.turnsIn_eq_nil_of_over (Run.placed_start s.codes s.cancelled) hcode hopen s.events
    rw [Run.groupAfter, Run.traceIn, hnone]
    exact standing_enter code

/-! ## More events -/

theorem run_continued (s : Scenario α) (es : List (Event α)) :
    (s.continued es).run = (s.run.steps es).1 :=
  Run.steps_append s.first s.events es

theorem continued_continued (s : Scenario α) (es fs : List (Event α)) :
    (s.continued es).continued fs = s.continued (es ++ fs) := by
  simp only [continued, List.append_assoc]

/-- More events add to what has happened. -/
theorem trace_continued (hcode : s.codes[k]? = some code) (es : List (Event α)) :
    (s.continued es).trace k =
      s.trace k ++ (s.first.groupAfter k code s.events).trace (s.run.turnsIn k es) := by
  have hcode' : (s.continued es).codes[k]? = some code := hcode
  have hturns : (s.continued es).first.turnsIn k (s.continued es).events =
      s.first.turnsIn k s.events ++ s.run.turnsIn k es := Run.turnsIn_append k s.first s.events es
  rw [trace_of_code hcode', trace_of_code hcode, Run.traceIn, hturns, ActiveGroup.trace_append]
  rfl

theorem trace_prefix_continued (s : Scenario α) (k : Nat) (es : List (Event α)) :
    s.trace k <+: (s.continued es).trace k := by
  cases hcode : s.codes[k]? with
  | none =>
    rw [trace, hcode]
    exact List.nil_prefix
  | some code =>
    rw [trace_continued hcode]
    exact List.prefix_append _ _

/-! ## The group that the run has reached -/

theorem exists_code_of_running (hs : s.run.status = .running g later) :
    ∃ code, s.codes[s.run.past.length]? = some code ∧
      g = s.first.groupAfter s.run.past.length code s.events := by
  obtain ⟨code, hdrop, hopen⟩ := s.placed.entered hs
  have hcode := Run.getElem?_of_drop hdrop
  exact ⟨code, hcode, ((follows hcode hopen).eq_of_running hs rfl).symm⟩

/-- A group that is past is as its turns have left it, and is over with its result. -/
theorem group?_of_past {result : Except RunError (List α)} (h : s.run.past[k]? = some (g, result)) :
    s.group? k = some g ∧ g.outcome? = some result := by
  have hlt : k < s.codes.length :=
    Nat.lt_of_lt_of_le (List.getElem?_eq_some_iff.1 h).1 s.placed.within
  have hcode : s.codes[k]? = some s.codes[k] := List.getElem?_eq_getElem hlt
  rw [group?_of_code hcode]
  by_cases hopen : (ActiveGroup.enter s.codes[k] : ActiveGroup α).outcome? = none
  · obtain ⟨rfl, -, houtcome⟩ := ((follows hcode hopen).past_eq_some_iff hopen).1 h
    exact ⟨rfl, houtcome⟩
  · obtain ⟨rfl, houtcome⟩ := s.placed.early k _ g result hcode hopen h
    have hnil : s.first.turnsIn k s.events = [] :=
      Run.turnsIn_eq_nil_of_over (Run.placed_start s.codes s.cancelled) hcode hopen s.events
    rw [Run.groupAfter, hnil]
    exact ⟨rfl, houtcome⟩

/-- A run that panicked has stopped in a group that is broken. -/
theorem isBroken_of_panicked (hs : s.run.status = .panicked) (hcode : s.codes[k]? = some code)
    (hopen : (ActiveGroup.enter code : ActiveGroup α).outcome? = none)
    (hk : s.run.past.length = k) : (s.first.groupAfter k code s.events).isBroken = true := by
  have hstart : Run.Follows k code s.first (.enter code) :=
    Run.follows_enterNext s.cancelled hopen hcode (Nat.zero_add k)
  exact hstart.isBroken_of_panicked hopen
    (fun hpanicked _ => absurd hpanicked (Run.status_enterNext_ne_panicked _ _ _)) s.events hs hk

/-- The group that runs is not over, and its calls agree with what has happened in it. -/
theorem standing_of_running (hs : s.run.status = .running g later) :
    g.outcome? = none ∧ g.isBroken = false ∧
      ∃ code, s.codes[s.run.past.length]? = some code ∧
        Standing code g (s.trace s.run.past.length) := by
  obtain ⟨code, hcode, hg⟩ := exists_code_of_running hs
  obtain ⟨hopen, hwhole⟩ := s.placed.unfinished g later hs
  refine ⟨hopen, hwhole, code, hcode, ?_⟩
  rw [hg]
  exact standing hcode

/-- A group in which something has happened has been reached. -/
theorem reached_of_mem {h : Happening α} (hmem : h ∈ s.trace k) :
    k ≤ s.run.past.length ∧ (k = s.run.past.length → s.run.status ≠ .returned) := by
  obtain ⟨code, hcode⟩ := exists_code_of_mem hmem
  rw [trace_of_code hcode] at hmem
  refine Run.le_of_turnsIn_ne_nil fun hnil => ?_
  rw [Run.traceIn, hnil] at hmem
  cases hmem

/-- A call in progress belongs to the group that the run has reached. Unless the run was dropped, the
call may have the next turn. -/
theorem InProgress.current (h : s.InProgress k target) :
    s.run.past.length = k ∧ (s.run.status = .dropped ∨ s.Awaits k target) := by
  obtain ⟨⟨operation, hmade⟩, hended⟩ := h
  obtain ⟨code, hcode⟩ := exists_code_of_mem hmade
  obtain ⟨c, hcall, hstate, houtcome, hwhole⟩ := (standing hcode).call?_of_unended hmade hended
  have hreached := reached_of_mem hmade
  have hopen : (ActiveGroup.enter code : ActiveGroup α).outcome? = none := by
    by_contra hover
    have hnil : s.first.turnsIn k s.events = [] :=
      Run.turnsIn_eq_nil_of_over (Run.placed_start s.codes s.cancelled) hcode hover s.events
    rw [trace_of_code hcode, Run.traceIn, hnil] at hmade
    cases hmade
  generalize hg : s.first.groupAfter k code s.events = g at hcall houtcome hwhole
  have hfollows : Run.Follows k code s.run g := hg ▸ follows hcode hopen
  cases hfollows with
  | ahead _ _ hk => omega
  | inside hs _ hk =>
    exact ⟨hk, Or.inr ⟨hk, g, _, c, hs, hcall, Call.isOver_of_waiting hstate⟩⟩
  | left _ hfinished _ =>
    rw [houtcome] at hfinished
    cases hfinished
  | stopped hstopped _ hle =>
    have hk : s.run.past.length = k := by omega
    refine ⟨hk, Or.inl ?_⟩
    cases hs : s.run.status with
    | running g' later => exact absurd hs (hstopped g' later)
    | returned => exact absurd hs (hreached.2 hk.symm)
    | dropped => rfl
    | panicked =>
      have hbroken := isBroken_of_panicked hs hcode hopen hk
      rw [hg, hwhole] at hbroken
      cases hbroken

end Scenario

end Orchestration.Execution
