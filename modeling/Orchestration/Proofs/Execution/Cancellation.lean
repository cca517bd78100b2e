import Orchestration.Proofs.Execution.Scenario

/-!
# Cancellation

Once the token of a run is cancelled, only the call that commits or rolls back is still polled. Every
other call that has not ended by then stays where it is until its next turn, whatever else happens,
and in this turn it ends as cancelled under its own name without having been asked for an answer.
-/

namespace Orchestration.Execution

variable {α : Type} {k : Nat} {code : GroupCode} {g : ActiveGroup α} {target : Target}
  {n : Note}

/-- Whether a note is about a call being polled: that it was, or what it showed when it was. -/
def Note.isPoll : Note → Bool
  | .polled _ => true
  | .started _ => true
  | .finished _ => true
  | .failed _ => true
  | .panicked _ => true
  | .dropped _ => false
  | .transactionDropped => false
  | .groupEnded => false

/-- The operation of a call that is raced against cancellation. -/
def GroupCode.racedOperation? (code : GroupCode) : Target → Option String
  | .begin => some "begin"
  | .member i => code.operations[i]?
  | .settle => none

/-- The call at a target that is raced against cancellation, whether or not it may have a turn. -/
def ActiveGroup.racedCall? (g : ActiveGroup α) : Target → Option (Call α)
  | .begin =>
    match g.phase with
    | .opening b => some b
    | _ => none
  | .member i => g.members[i]?
  | .settle => none

/-! ## Turns after cancellation -/

theorem Call.turn_of_cancelled (c : Call α) (failure : String → RunError) (seq : Nat)
    (answer : Answer α) :
    c.turn true failure seq answer = if c.isOver then (c, []) else c.cancel seq := by
  unfold turn
  rw [if_pos rfl]

theorem Call.not_isPoll_of_cancelled {c : Call α} {failure : String → RunError} {seq : Nat}
    {answer : Answer α} (hn : n ∈ (c.turn true failure seq answer).2) : n.isPoll = false := by
  rw [turn_of_cancelled] at hn
  split at hn
  · cases hn
  · unfold cancel at hn
    dsimp only at hn
    split at hn
    · rw [List.mem_singleton.1 hn]
      rfl
    · cases hn

namespace ActiveGroup

theorem not_isPoll_of_mem_dropNotes (hn : n ∈ g.dropNotes) : n.isPoll = false := by
  have hwaiting : ∀ calls : List (Call α), n ∈ dropNotes.waiting calls → n.isPoll = false := by
    intro calls hmem
    obtain ⟨c, -, rfl⟩ := List.mem_map.1 hmem
    rfl
  unfold dropNotes at hn
  split at hn
  · exact hwaiting _ hn
  · rcases List.mem_append.mp hn with hn | hn
    · exact hwaiting _ hn
    · split at hn
      · rw [List.mem_singleton.1 hn]
        rfl
      · cases hn
  · exact hwaiting _ hn

/-- What a call that is raced would answer makes no difference once the token is cancelled. -/
theorem turn_of_cancelled (hraced : target ≠ .settle) (answer answer' : Answer α) :
    g.turn true target answer = g.turn true target answer' := by
  cases target with
  | settle => exact absurd rfl hraced
  | begin => cases hp : g.phase <;> simp only [turn, hp, Call.turn_of_cancelled]
  | member i => cases hp : g.phase <;> simp only [turn, turnMember, hp, Call.turn_of_cancelled]

theorem not_isPoll_of_cancelled (hraced : target ≠ .settle) {answer : Answer α}
    (hn : n ∈ (g.turn true target answer).2) : n.isPoll = false := by
  unfold turn at hn
  split at hn
  · exact Call.not_isPoll_of_cancelled hn
  · split at hn
    · unfold turnMember at hn
      split at hn
      · cases hn
      · exact Call.not_isPoll_of_cancelled hn
    · cases hn
  · exact absurd rfl hraced
  · cases hn

end ActiveGroup

namespace Run

variable {r : Run α} {later : List GroupCode}

theorem cancelled_enterNext (cancelled : Bool)
    (past : List (ActiveGroup α × Except RunError (List α))) (codes : List GroupCode) :
    (enterNext cancelled past codes).1.cancelled = cancelled := by
  induction codes generalizing past with
  | nil => rfl
  | cons code rest ih =>
    unfold enterNext
    dsimp only
    split
    · rfl
    · rfl
    · exact ih _

theorem cancelled_moveOn (r : Run α) (g : ActiveGroup α) (later : List GroupCode) :
    (r.moveOn g later).1.cancelled = r.cancelled := by
  rcases moveOn_cases r g later with ⟨-, hr⟩ | ⟨-, hr⟩ | ⟨e, -, -, hr⟩ | ⟨values, -, -, hr⟩
  · rw [hr]
  · rw [hr]
  · rw [hr]
  · rw [hr]
    exact cancelled_enterNext _ _ _

/-- A token that is cancelled stays cancelled. -/
theorem cancelled_step (h : r.cancelled = true) (e : Event α) : (r.step e).1.cancelled = true := by
  cases e with
  | cancel => rfl
  | drop =>
    unfold step
    dsimp only
    split
    · exact h
    · exact h
  | turn target answer =>
    cases hs : r.status with
    | running g later =>
      rw [step_turn_of_running hs, cancelled_moveOn, h]
    | _ => simpa [step, hs] using h

theorem cancelled_steps {es : List (Event α)} (h : r.cancelled = true ∨ .cancel ∈ es) :
    (r.steps es).1.cancelled = true := by
  induction es generalizing r with
  | nil =>
    rcases h with h | h
    · exact h
    · cases h
  | cons e rest ih =>
    apply ih
    rcases h with h | h
    · exact Or.inl (cancelled_step h e)
    · rcases List.mem_cons.mp h with rfl | h
      · exact Or.inl rfl
      · exact Or.inr h

theorem not_isPoll_of_mem_enterNext {cancelled : Bool}
    {past : List (ActiveGroup α × Except RunError (List α))} {codes : List GroupCode}
    (hn : n ∈ (enterNext cancelled past codes).2) : n.isPoll = false := by
  induction codes generalizing past with
  | nil => cases hn
  | cons code rest ih =>
    unfold enterNext at hn
    dsimp only at hn
    split at hn
    · cases hn
    · cases hn
    · rcases List.mem_cons.mp hn with rfl | hn
      · rfl
      · exact ih hn

theorem not_isPoll_of_mem_moveOn (hn : n ∈ (r.moveOn g later).2) : n.isPoll = false := by
  unfold moveOn at hn
  dsimp only at hn
  split at hn
  · exact ActiveGroup.not_isPoll_of_mem_dropNotes hn
  · split at hn
    · cases hn
    · cases hn
    · rcases List.mem_cons.mp hn with rfl | hn
      · rfl
      · exact not_isPoll_of_mem_enterNext hn

/-- Once the token is cancelled, only the call that commits or rolls back is polled. -/
theorem settles_of_isPoll (h : r.cancelled = true) {e : Event α} (hn : n ∈ (r.step e).2)
    (hpoll : n.isPoll = true) : ∃ answer, e = .turn .settle answer := by
  cases e with
  | cancel => cases hn
  | drop =>
    unfold step at hn
    dsimp only at hn
    split at hn
    · rw [ActiveGroup.not_isPoll_of_mem_dropNotes hn] at hpoll
      cases hpoll
    · cases hn
  | turn target answer =>
    by_cases hraced : target = .settle
    · exact ⟨answer, by rw [hraced]⟩
    · unfold step at hn
      dsimp only at hn
      split at hn
      · rw [h] at hn
        have hnot : n.isPoll = false := by
          rcases List.mem_append.mp hn with hn | hn
          · exact ActiveGroup.not_isPoll_of_cancelled hraced hn
          · exact not_isPoll_of_mem_moveOn hn
        rw [hnot] at hpoll
        cases hpoll
      · cases hn

theorem step_of_cancelled (h : r.cancelled = true) (hraced : target ≠ .settle)
    (answer answer' : Answer α) :
    r.step (.turn target answer) = r.step (.turn target answer') := by
  unfold step
  dsimp only
  split
  · rename_i g later hs
    rw [h, ActiveGroup.turn_of_cancelled hraced answer answer']
  · rfl

theorem turnIn?_cancelled (h : r.cancelled = true) {e : Event α} {t : Turn α}
    (ht : r.turnIn? k e = some t) : t.cancelled = true := by
  obtain ⟨-, g, later, -, target, answer, -, rfl⟩ := turnIn?_eq_some ht
  exact h

theorem turnsIn_cancelled (h : r.cancelled = true) {es : List (Event α)} {t : Turn α}
    (ht : t ∈ r.turnsIn k es) : t.cancelled = true := by
  induction es generalizing r with
  | nil => cases ht
  | cons e rest ih =>
    rw [turnsIn] at ht
    rcases List.mem_append.mp ht with ht | ht
    · exact turnIn?_cancelled h (Option.mem_toList.1 ht)
    · exact ih (cancelled_step h e) ht

end Run

/-! ## Calls that end after cancellation -/

theorem ActiveGroup.cancelled_of_ended_happenings {t : Turn α} (ht : t.cancelled = true)
    (hraced : target ≠ .settle) {how : CallEnd α} (hmem : .ended target how ∈ g.happenings t) :
    how = .cancelled := by
  unfold happenings at hmem
  split at hmem
  · cases hmem
  · rename_i c hcall
    cases hover : c.isOver with
    | true => simp [Call.happenings, hover] at hmem
    | false =>
      obtain ⟨rfl, hend⟩ := (Call.mem_happenings_ended hover).1 hmem
      simpa [Answer.end?, ht, hraced, eq_comm] using hend

theorem ActiveGroup.cancelled_of_ended_trace {ts : List (Turn α)}
    (hts : ∀ t ∈ ts, t.cancelled = true) (hraced : target ≠ .settle) {how : CallEnd α}
    (hmem : .ended target how ∈ g.trace ts) : how = .cancelled := by
  induction ts generalizing g with
  | nil => cases hmem
  | cons t ts ih =>
    rw [trace] at hmem
    rcases List.mem_append.mp hmem with hmem | hmem
    · exact cancelled_of_ended_happenings (hts t (List.mem_cons_self ..)) hraced hmem
    · exact ih (fun u hu => hts u (List.mem_cons_of_mem t hu)) hmem

/-- A call that ended as cancelled carries this result, under its own name. -/
theorem Standing.cancelled_of_ended {tr : List (Happening α)} (h : Standing code g tr)
    (hraced : target ≠ .settle) (hmem : .ended target .cancelled ∈ tr) :
    ∃ c seq, g.racedCall? target = some c ∧ code.racedOperation? target = some c.operation ∧
      c.state = .completed seq (.error (.cancelled c.operation)) := by
  have hat : .ended target .cancelled ∈ happeningsAt target tr := mem_happeningsAt.2 ⟨hmem, rfl⟩
  cases target with
  | settle => exact absurd rfl hraced
  | begin =>
    by_cases hopening : ∃ b, g.phase = .opening b
    · obtain ⟨b, hb⟩ := hopening
      obtain ⟨hop, -, htraced⟩ := h.opening b hb
      obtain ⟨-, seq, hs⟩ := htraced.of_ended hat
      refine ⟨b, seq, ?_, ?_, hs⟩
      · simp only [ActiveGroup.racedCall?, hb]
      · rw [hop]
        rfl
    · rcases h.begun fun b hb => hopening ⟨b, hb⟩ with hnil | ⟨a, hcalled⟩
      · rw [hnil] at hat
        cases hat
      · rw [hcalled] at hat
        cases (ended_mem_called.1 hat).2
  | member i =>
    cases hc : g.members[i]? with
    | none =>
      rw [h.declared i hc] at hat
      cases hat
    | some c =>
      obtain ⟨-, seq, hs⟩ := (h.member i c hc).of_ended hat
      refine ⟨c, seq, hc, ?_, hs⟩
      show code.operations[i]? = some c.operation
      rw [← h.operations, List.getElem?_map, hc, Option.map_some]

namespace Scenario

variable {s : Scenario α}

/-- A call that is waited for ends as cancelled at its next turn. -/
theorem Awaits.cancelled (h : s.Awaits k target) (hraced : target ≠ .settle)
    (hcancelled : s.run.cancelled = true) (answer : Answer α) :
    .ended target .cancelled ∈ (s.continued [.turn target answer]).trace k := by
  obtain ⟨hk, g, later, c, hs, hcall, hover⟩ := h
  obtain ⟨code, hcode, hg⟩ := exists_code_of_running hs
  rw [hk] at hcode hg
  have hturns : s.run.turnsIn k [.turn target answer] = [⟨true, target, answer⟩] := by
    rw [Run.turnsIn, Run.turnIn?_of_running hs hk, hcancelled]
    rfl
  rw [trace_continued hcode, hturns, ← hg, List.mem_append, ActiveGroup.trace, List.mem_append]
  refine Or.inr (Or.inl ?_)
  simp only [ActiveGroup.happenings, hcall]
  rw [Call.mem_happenings_ended hover]
  exact ⟨rfl, by simp [Answer.end?, hraced]⟩

/-- Any event but its own turn leaves a call that is waited for where it is, unless the run is
dropped. -/
theorem Awaits.step (h : s.Awaits k target) {e : Event α}
    (hother : ∀ answer, e ≠ .turn target answer) :
    (s.continued [e]).run.status = .dropped ∨ (s.continued [e]).Awaits k target := by
  obtain ⟨hk, g, later, c, hs, hcall, hover⟩ := h
  have hrun : (s.continued [e]).run = (s.run.step e).1 := run_continued s [e]
  cases e with
  | cancel =>
    right
    refine ⟨?_, g, later, c, ?_, hcall, hover⟩
    · rw [hrun]
      exact hk
    · rw [hrun]
      exact hs
  | drop =>
    left
    rw [hrun]
    simp only [Run.step, hs]
  | turn target' answer =>
    right
    have hne : target' ≠ target := fun heq => hother answer (by rw [heq])
    obtain ⟨hopen, hwhole, code, -, hstanding⟩ := standing_of_running hs
    obtain ⟨hcall', hopen', hwhole'⟩ :=
      hstanding.next_of_ne hopen hwhole hcall hover (t := ⟨s.run.cancelled, target', answer⟩) hne
    have hstep : (s.run.step (.turn target' answer)).1 =
        { s.run with status := .running (g.next ⟨s.run.cancelled, target', answer⟩) later } := by
      rw [Run.step_turn_of_running hs]
      rcases Run.moveOn_cases s.run (g.turn s.run.cancelled target' answer).1 later with
        ⟨hb, -⟩ | ⟨-, hr⟩ | ⟨e, -, ho, -⟩ | ⟨values, -, ho, -⟩
      · rw [show (g.turn s.run.cancelled target' answer).1.progress.isBroken = false from
          hwhole'] at hb
        cases hb
      · exact hr
      · rw [show (g.turn s.run.cancelled target' answer).1.progress.outcome? = none from
          hopen'] at ho
        cases ho
      · rw [show (g.turn s.run.cancelled target' answer).1.progress.outcome? = none from
          hopen'] at ho
        cases ho
    rw [hstep] at hrun
    refine ⟨?_, _, later, c, ?_, hcall', hover⟩
    · rw [hrun]
      exact hk
    · rw [hrun]

theorem status_of_dropped (h : s.run.status = .dropped) (es : List (Event α)) :
    (s.continued es).run.status = .dropped := by
  induction es generalizing s with
  | nil =>
    rw [run_continued]
    exact h
  | cons e rest ih =>
    have hnot : ∀ g later, s.run.status ≠ .running g later := fun g later heq => by
      rw [h] at heq
      cases heq
    have hstep : (s.continued [e]).run.status = .dropped := by
      rw [run_continued]
      exact (Run.step_of_not_running hnot e).2.trans h
    have hrest := ih hstep
    rwa [continued_continued] at hrest

theorem cancelled_run (h : s.cancelled = true ∨ .cancel ∈ s.events) : s.run.cancelled = true := by
  apply Run.cancelled_steps
  rw [show s.first.cancelled = s.cancelled from Run.cancelled_enterNext _ _ _]
  exact h

theorem cancelled_continued (h : s.run.cancelled = true) (es : List (Event α)) :
    (s.continued es).run.cancelled = true := by
  rw [run_continued]
  exact Run.cancelled_steps (Or.inl h)

/-- Once the token is cancelled, a call that is waited for stays where it is until it ends as
cancelled or the run is dropped. -/
theorem Awaits.kept (h : s.Awaits k target) (hraced : target ≠ .settle)
    (hcancelled : s.run.cancelled = true) (es : List (Event α)) :
    .ended target .cancelled ∈ (s.continued es).trace k ∨ (s.continued es).run.status = .dropped ∨
      (s.continued es).Awaits k target := by
  induction es generalizing s with
  | nil =>
    refine Or.inr (Or.inr ?_)
    rw [show s.continued [] = s by simp [continued]]
    exact h
  | cons e rest ih =>
    rw [show e :: rest = [e] ++ rest from rfl, ← continued_continued]
    by_cases hown : ∃ answer, e = .turn target answer
    · obtain ⟨answer, rfl⟩ := hown
      exact Or.inl ((trace_prefix_continued _ k rest).subset (h.cancelled hraced hcancelled answer))
    · rcases h.step fun answer heq => hown ⟨answer, heq⟩ with hdropped | hawaits
      · exact Or.inr (Or.inl (status_of_dropped hdropped rest))
      · exact ih hawaits (cancelled_continued hcancelled [e])

/-- What cancellation does to the calls of a run, whatever events come after it. -/
structure CallsStopped (s : Scenario α) : Prop where
  /-- Only the call that commits or rolls back is still polled. -/
  unpolled : ∀ es e n, n ∈ ((s.continued es).run.step e).2 → n.isPoll = true →
    ∃ answer, e = .turn .settle answer
  /-- What another call would answer makes no difference. -/
  unasked : ∀ es target answer answer', target ≠ .settle →
    (s.continued es).run.step (.turn target answer) =
      (s.continued es).run.step (.turn target answer')
  /-- Another call that ends from now on ends as cancelled. -/
  cancelled : ∀ es k target how more, target ≠ .settle →
    (s.continued es).trace k = s.trace k ++ more → .ended target how ∈ more → how = .cancelled
  /-- Its result is its cancellation under its own name. -/
  named : ∀ es k target, target ≠ .settle →
    .ended target .cancelled ∈ (s.continued es).trace k →
    ∃ code g c seq, s.codes[k]? = some code ∧ (s.continued es).group? k = some g ∧
      g.racedCall? target = some c ∧ code.racedOperation? target = some c.operation ∧
      c.state = .completed seq (.error (.cancelled c.operation))
  /-- A call that has begun and has not ended is waited for, unless the run was dropped. -/
  unfinished : ∀ es k target, (s.continued es).InProgress k target →
    (s.continued es).run.status = .dropped ∨ (s.continued es).Awaits k target
  /-- Whether or not it has begun, a call that is waited for ends as cancelled at its next turn. -/
  ends : ∀ es k target answer, target ≠ .settle → (s.continued es).Awaits k target →
    .ended target .cancelled ∈ (s.continued (es ++ [.turn target answer])).trace k
  /-- Until then it stays where it is, whatever else happens, unless the run is dropped. -/
  kept : ∀ es fs k target, target ≠ .settle → (s.continued es).Awaits k target →
    .ended target .cancelled ∈ (s.continued (es ++ fs)).trace k ∨
      (s.continued (es ++ fs)).run.status = .dropped ∨ (s.continued (es ++ fs)).Awaits k target
  /-- As long as the run goes on it waits for a call. -/
  proceeds : ∀ es g later, (s.continued es).run.status = .running g later →
    ∃ k target, (s.continued es).Awaits k target

/-- **Once the token is cancelled, no call but a commit or a rollback is polled, and every other call
ends as cancelled.** -/
theorem cancellation_stops_calls (s : Scenario α) (h : s.cancelled = true ∨ .cancel ∈ s.events) :
    s.CallsStopped := by
  have hcancelled := cancelled_run h
  constructor
  case unpolled =>
    intro es e n hn hpoll
    exact Run.settles_of_isPoll (cancelled_continued hcancelled es) hn hpoll
  case unasked =>
    intro es target answer answer' hraced
    exact Run.step_of_cancelled (cancelled_continued hcancelled es) hraced answer answer'
  case cancelled =>
    intro es k target how more hraced htrace hmem
    have hnew : .ended target how ∈ (s.continued es).trace k := by
      rw [htrace]
      exact List.mem_append_right _ hmem
    obtain ⟨code, hcode⟩ := exists_code_of_mem hnew
    have hcode : s.codes[k]? = some code := hcode
    rw [trace_continued hcode] at htrace
    rw [← List.append_cancel_left htrace] at hmem
    have hturns : ∀ t ∈ s.run.turnsIn k es, t.cancelled = true := fun t ht =>
      Run.turnsIn_cancelled hcancelled ht
    exact ActiveGroup.cancelled_of_ended_trace hturns hraced hmem
  case named =>
    intro es k target hraced hmem
    obtain ⟨code, hcode⟩ : ∃ code, (s.continued es).codes[k]? = some code :=
      exists_code_of_mem hmem
    obtain ⟨c, seq, hcall, hop, hs⟩ := (standing hcode).cancelled_of_ended hraced hmem
    exact ⟨code, _, c, seq, hcode, group?_of_code hcode, hcall, hop, hs⟩
  case unfinished => exact fun es k target h => h.current.2
  case ends =>
    intro es k target answer hraced hawaits
    rw [← continued_continued]
    exact hawaits.cancelled hraced (cancelled_continued hcancelled es) answer
  case kept =>
    intro es fs k target hraced hawaits
    rw [← continued_continued]
    exact hawaits.kept hraced (cancelled_continued hcancelled es) fs
  case proceeds =>
    intro es g later hs
    obtain ⟨hopen, hwhole, code, -, hstanding⟩ := standing_of_running hs
    obtain ⟨target, c, hcall, hover⟩ := hstanding.exists_call hopen hwhole
    exact ⟨_, target, rfl, g, later, c, hs, hcall, hover⟩

/-- The token is cancelled while one of two calls waits and the other has not had a turn. -/
def overtaken : Scenario String :=
  ⟨[⟨.concurrent, ["GetUser", "GetPosts"]⟩, ⟨.direct, ["Touch"]⟩], false,
    [.turn (.member 0) .pending, .cancel]⟩

/-- Both end as cancelled, the one that has its turn first is reported, and the third is not made. -/
theorem cancellation_stops_calls_overtaken :
    let s := overtaken.continued
      [.turn (.member 1) (.ended (.value "posts")), .turn (.member 0) (.ended (.value "user"))]
    (overtaken.cancelled = true ∨ .cancel ∈ overtaken.events) ∧ overtaken.CallsStopped ∧
      overtaken.Awaits 0 (.member 0) ∧ overtaken.Awaits 0 (.member 1) ∧
      s.trace 0 = [.made (.member 0) "GetUser", .made (.member 1) "GetPosts",
        .ended (.member 1) .cancelled, .ended (.member 0) .cancelled] ∧
      s.run.status = .returned ∧ s.run.results = [.error (.cancelled "GetPosts")] :=
  ⟨by decide, cancellation_stops_calls overtaken (by decide), ⟨rfl, _, _, _, rfl, rfl, rfl⟩,
    ⟨rfl, _, _, _, rfl, rfl, rfl⟩, rfl, rfl, rfl⟩

end Scenario

end Orchestration.Execution
