import Orchestration.Execution.Machine
import Mathlib.Data.List.Basic

/-!
# What happens in the groups of a run

The events of a run give turns to the calls of its groups. Seen from one group, a run is the list of
turns that fall to it: the group goes from one to the next, and what happens in it is that calls are
made and end. A run has left a group with a result exactly if the group, after all of its turns, is
over with this result. What a group does is therefore told from its turns alone.
-/

namespace Orchestration.Execution

variable {α : Type}

/-- How a call ended: of its own accord, or because the token was cancelled. -/
inductive CallEnd (α : Type) where
  | own (ending : Ending α)
  | cancelled
deriving Repr, DecidableEq

/-- What happens to the calls of a group. -/
inductive Happening (α : Type) where
  /-- A call is made; it may end without ever being polled. -/
  | made (target : Target) (operation : String)
  /-- A call ends. -/
  | ended (target : Target) (how : CallEnd α)
deriving Repr, DecidableEq

/-- A turn of a call: whether the token is cancelled by then, which call has the turn, and what the
call answers if it is polled. -/
structure Turn (α : Type) where
  cancelled : Bool
  target : Target
  answer : Answer α
deriving Repr, DecidableEq

/-! ## Calls -/

namespace CallEnd

/-- The result of a call that ended in some way; a panic has none. -/
def result? (failure : String → RunError) (operation : String) :
    CallEnd α → Option (Except RunError α)
  | .own (.value a) => some (.ok a)
  | .own (.failure text) => some (.error (failure text))
  | .own (.panicWith _) => none
  | .cancelled => some (.error (.cancelled operation))

/-- Whether a call that ended in some way has completed: one that panicked has not. -/
def completes : CallEnd α → Bool
  | .own (.panicWith _) => false
  | _ => true

/-- The state that a call is left in by its end. -/
def state (failure : String → RunError) (operation : String) (seq : Nat) : CallEnd α → CallState α
  | .own (.value a) => .completed seq (.ok a)
  | .own (.failure text) => .completed seq (.error (failure text))
  | .own (.panicWith reason) => .panicked reason
  | .cancelled => .completed seq (.error (.cancelled operation))

/-- Whether a call that ended in some way has completed without a value. -/
def fails : CallEnd α → Bool
  | .own (.failure _) => true
  | .cancelled => true
  | _ => false

theorem fails_iff {failure : String → RunError} {operation : String} {how : CallEnd α} :
    how.fails = true ↔ ∃ e, how.result? failure operation = some (.error e) := by
  cases how with
  | own ending => cases ending <;> simp [result?, fails]
  | cancelled => simp [result?, fails]

theorem completes_of_fails {how : CallEnd α} (h : how.fails = true) : how.completes = true := by
  cases how with
  | own ending =>
    cases ending with
    | failure text => rfl
    | _ => cases h
  | cancelled => rfl

theorem completes_iff {failure : String → RunError} {operation : String} {how : CallEnd α} :
    how.completes = true ↔ ∃ result, how.result? failure operation = some result := by
  cases how with
  | own ending => cases ending <;> simp [result?, completes]
  | cancelled => simp [result?, completes]

theorem state_eq_completed_iff {failure : String → RunError} {operation : String} {seq seq' : Nat}
    {how : CallEnd α} {result : Except RunError α} :
    how.state failure operation seq = .completed seq' result ↔
      seq = seq' ∧ how.result? failure operation = some result := by
  cases how with
  | own ending => cases ending <;> simp [state, result?]
  | cancelled => simp [state, result?]

theorem state_eq_panicked_iff {failure : String → RunError} {operation reason : String} {seq : Nat}
    {how : CallEnd α} :
    how.state failure operation seq = .panicked reason ↔ how = .own (.panicWith reason) := by
  cases how with
  | own ending => cases ending <;> simp [state]
  | cancelled => simp [state]

/-- The state of a call that panicked has no number. -/
theorem state_eq_of_not_completes {failure : String → RunError} {operation : String}
    {how : CallEnd α} (h : how.completes = false) (seq seq' : Nat) :
    how.state failure operation seq = how.state failure operation seq' := by
  cases how with
  | own ending =>
    cases ending with
    | panicWith reason => rfl
    | _ => cases h
  | cancelled => cases h

theorem result?_eq_ok_iff {failure : String → RunError} {operation : String} {how : CallEnd α}
    {a : α} : how.result? failure operation = some (.ok a) ↔ how = .own (.value a) := by
  cases how with
  | own ending => cases ending <;> simp [result?]
  | cancelled => simp [result?]

theorem eq_of_result?_eq_error {failure : String → RunError} {operation : String} {how : CallEnd α}
    {e : RunError} (h : how.result? failure operation = some (.error e)) :
    (∃ text, how = .own (.failure text) ∧ e = failure text) ∨ e = .cancelled operation := by
  cases how with
  | own ending => cases ending <;> simp_all [result?]
  | cancelled =>
    cases h
    exact Or.inr rfl

end CallEnd

/-- How a call ends that is given this answer, if it does. -/
def Answer.end? (cancelled : Bool) (answer : Answer α) : Option (CallEnd α) :=
  if cancelled then some .cancelled
  else
    match answer with
    | .pending => none
    | .ended ending => some (.own ending)

namespace Call

variable {c : Call α} {failure : String → RunError} {target : Target} {tr : List (Happening α)}

/-- What happens to a call in a turn in which it may end. -/
def happenings (c : Call α) (target : Target) (how? : Option (CallEnd α)) : List (Happening α) :=
  if c.isOver then []
  else (if c.isIdle then [.made target c.operation] else []) ++ (how?.map (.ended target)).toList

theorem mem_happenings_ended {target' : Target} {how : CallEnd α} {how? : Option (CallEnd α)}
    (h : c.isOver = false) :
    .ended target' how ∈ c.happenings target how? ↔ target' = target ∧ how? = some how := by
  unfold happenings
  rw [h, if_neg Bool.false_ne_true]
  cases how? with
  | none => split <;> simp
  | some how' => split <;> simp [eq_comm]

/-- The call as it is after a turn in which it may end. -/
theorem turn_fst (c : Call α) (cancelled : Bool) (failure : String → RunError) (seq : Nat)
    (answer : Answer α) :
    (c.turn cancelled failure seq answer).1 =
      if c.isOver then c
      else
        match answer.end? cancelled with
        | none => { c with state := .waiting }
        | some how => { c with state := how.state failure c.operation seq } := by
  unfold turn
  by_cases hover : c.isOver = true
  · rw [if_pos hover, if_pos hover]
  · rw [if_neg hover, if_neg hover]
    cases cancelled with
    | true => rfl
    | false =>
      cases answer with
      | pending => rfl
      | ended ending => cases ending <;> rfl

theorem turn_operation (c : Call α) (cancelled : Bool) (failure : String → RunError) (seq : Nat)
    (answer : Answer α) : (c.turn cancelled failure seq answer).1.operation = c.operation := by
  rw [turn_fst]
  split
  · rfl
  · split <;> rfl

/-- What has happened to a call so far. -/
inductive Traced (failure : String → RunError) (target : Target) (c : Call α) :
    List (Happening α) → Prop where
  | idle (state : c.state = .idle) : Traced failure target c []
  | waiting (state : c.state = .waiting) : Traced failure target c [.made target c.operation]
  | ended {how : CallEnd α} {seq : Nat} (state : c.state = how.state failure c.operation seq) :
      Traced failure target c [.made target c.operation, .ended target how]

theorem isCompleted_of_state {how : CallEnd α} {seq : Nat}
    (h : c.state = how.state failure c.operation seq) : c.isCompleted = how.completes := by
  unfold isCompleted
  rw [h]
  cases how with
  | own ending => cases ending <;> rfl
  | cancelled => rfl

theorem isCompleted_eq_false_iff :
    c.isCompleted = false ↔ ∀ seq result, c.state ≠ .completed seq result := by
  unfold isCompleted
  cases hs : c.state <;> simp

theorem isPanicked_iff : c.isPanicked = true ↔ ∃ reason, c.state = .panicked reason := by
  unfold isPanicked
  cases hs : c.state <;> simp

theorem isOver_of_state {how : CallEnd α} {seq : Nat}
    (h : c.state = how.state failure c.operation seq) : c.isOver = true := by
  unfold isOver isCompleted isPanicked
  rw [h]
  cases how with
  | own ending => cases ending <;> rfl
  | cancelled => rfl

/-- A turn adds what happens in it. -/
theorem Traced.turn (h : c.Traced failure target tr) (cancelled : Bool) (seq : Nat)
    (answer : Answer α) :
    (c.turn cancelled failure seq answer).1.Traced failure target
      (tr ++ c.happenings target (answer.end? cancelled)) := by
  rw [turn_fst, happenings]
  cases h with
  | idle hs =>
    have hover : c.isOver = false := by simp [isOver, isCompleted, isPanicked, hs]
    have hidle : c.isIdle = true := by simp [isIdle, hs]
    rw [hover, hidle]
    cases answer.end? cancelled with
    | none => exact Traced.waiting rfl
    | some how => exact Traced.ended rfl
  | waiting hs =>
    have hover : c.isOver = false := by simp [isOver, isCompleted, isPanicked, hs]
    have hidle : c.isIdle = false := by simp [isIdle, hs]
    rw [hover, hidle]
    cases answer.end? cancelled with
    | none => exact Traced.waiting rfl
    | some how => exact Traced.ended rfl
  | ended hs =>
    rw [isOver_of_state hs]
    exact Traced.ended hs

/-- A call that has completed was made and ended with its result. -/
theorem Traced.of_completed (h : c.Traced failure target tr) {seq : Nat}
    {result : Except RunError α} (hc : c.state = .completed seq result) :
    ∃ how, how.result? failure c.operation = some result ∧
      tr = [.made target c.operation, .ended target how] := by
  cases h with
  | idle hs => rw [hs] at hc; cases hc
  | waiting hs => rw [hs] at hc; cases hc
  | @ended how seq' hs =>
    refine ⟨how, ?_, rfl⟩
    rw [hs] at hc
    exact (CallEnd.state_eq_completed_iff.1 hc).2

/-- A call that has ended is left in the state of its end. -/
theorem Traced.of_ended (h : c.Traced failure target tr) {target' : Target} {how : CallEnd α}
    (hmem : .ended target' how ∈ tr) :
    target' = target ∧ ∃ seq, c.state = how.state failure c.operation seq := by
  cases h with
  | idle hs => cases hmem
  | waiting hs => simp at hmem
  | @ended how' seq hs =>
    obtain ⟨rfl, rfl⟩ : target' = target ∧ how = how' := by simpa using hmem
    exact ⟨rfl, seq, hs⟩

end Call

/-! ## Groups -/

namespace ActiveGroup

variable {g : ActiveGroup α}

/-- The call that a turn for the target reaches, if it reaches one. -/
def call? (g : ActiveGroup α) (target : Target) : Option (Call α) :=
  match g.phase, target with
  | .opening b, .begin => some b
  | .working, .member index => if g.mayTurn index then g.members[index]? else none
  | .closing c _, .settle => some c
  | _, _ => none

/-- What happens in the group in a turn. Committing and rolling back are not raced against
cancellation. -/
def happenings (g : ActiveGroup α) (t : Turn α) : List (Happening α) :=
  match g.call? t.target with
  | none => []
  | some c => c.happenings t.target (t.answer.end? (t.cancelled && t.target ≠ .settle))

theorem turn_of_call?_eq_none {cancelled : Bool} {target : Target} {answer : Answer α}
    (h : g.call? target = none) : (g.turn cancelled target answer).1 = g := by
  unfold call? at h
  unfold turn
  cases hp : g.phase with
  | opening b => cases target <;> simp_all
  | working =>
    cases target with
    | member index =>
      simp only [hp] at h
      split at h
      · simp only [turnMember, h, ite_self]
      · rename_i hmay
        simp only [if_neg hmay]
    | _ => rfl
  | closing c outcome => cases target <;> simp_all

theorem call?_of_opening {b c : Call α} {target : Target} (hp : g.phase = .opening b) :
    g.call? target = some c ↔ target = .begin ∧ c = b := by
  cases target <;> simp [call?, hp, eq_comm]

theorem call?_of_closing {c d : Call α} {outcome : Except RunError (List α)} {target : Target}
    (hp : g.phase = .closing c outcome) : g.call? target = some d ↔ target = .settle ∧ d = c := by
  cases target <;> simp [call?, hp, eq_comm]

theorem call?_of_working {c : Call α} {target : Target} (hp : g.phase = .working) :
    g.call? target = some c ↔
      ∃ i, target = .member i ∧ g.mayTurn i = true ∧ g.members[i]? = some c := by
  cases target <;> simp [call?, hp]

/-- A turn of a member changes this member and counts it if it completes. -/
theorem turn_member {cancelled : Bool} {index : Nat} {answer : Answer α} {c c' : Call α}
    (hp : g.phase = .working) (hc : g.call? (.member index) = some c)
    (hc' : (c.turn cancelled (.member c.operation) g.completed answer).1 = c') :
    (g.turn cancelled (.member index) answer).1 =
      { g with
        members := g.members.set index c'
        completed := g.completed + (if c'.isCompleted && !c.isCompleted then 1 else 0) } := by
  obtain ⟨i, hi, hmay, hc⟩ := (call?_of_working hp).1 hc
  cases hi
  subst hc'
  simp only [turn, hp, if_pos hmay, turnMember, hc]

theorem turn_begin {cancelled : Bool} {answer : Answer α} {b : Call α} (hp : g.phase = .opening b) :
    (g.turn cancelled .begin answer).1 =
      { g with phase := .opening (b.turn cancelled .begin 0 answer).1 } := by
  simp only [turn, hp]

theorem turn_settle {cancelled : Bool} {answer : Answer α} {c : Call α}
    {outcome : Except RunError (List α)} (hp : g.phase = .closing c outcome) :
    (g.turn cancelled .settle answer).1 =
      { g with phase := .closing (c.turn false .commit 0 answer).1 outcome } := by
  simp only [turn, hp]

/-- The group after a turn. -/
def next (g : ActiveGroup α) (t : Turn α) : ActiveGroup α :=
  (g.turn t.cancelled t.target t.answer).1.progress

/-- A turn that reaches no call changes nothing. -/
theorem next_of_call?_eq_none {t : Turn α} (hcall : g.call? t.target = none)
    (hprogress : g.progress = g) : g.next t = g ∧ g.happenings t = [] := by
  constructor
  · rw [next, turn_of_call?_eq_none hcall, hprogress]
  · simp only [happenings, hcall]

/-- The group after some turns. -/
def after (g : ActiveGroup α) (ts : List (Turn α)) : ActiveGroup α :=
  ts.foldl next g

theorem after_append (g : ActiveGroup α) (ts us : List (Turn α)) :
    g.after (ts ++ us) = (g.after ts).after us :=
  List.foldl_append

/-- What happens in the group during some turns. -/
def trace (g : ActiveGroup α) : List (Turn α) → List (Happening α)
  | [] => []
  | t :: ts => g.happenings t ++ (g.next t).trace ts

/-- What holds of a group and of what has happened in it holds after any turns if every turn keeps
it. -/
theorem after_induction {P : ActiveGroup α → List (Happening α) → Prop}
    (hstep : ∀ g tr t, P g tr → P (g.next t) (tr ++ g.happenings t)) {tr : List (Happening α)}
    (h : P g tr) (ts : List (Turn α)) : P (g.after ts) (tr ++ g.trace ts) := by
  induction ts generalizing g tr with
  | nil => simpa [after, trace] using h
  | cons t ts ih =>
    have hnext := ih (hstep g tr t h)
    rw [List.append_assoc] at hnext
    exact hnext

end ActiveGroup

/-! ## Runs -/

namespace Run

variable {r : Run α} {k : Nat} {code : GroupCode} {g : ActiveGroup α}

/-- The turn that falls to the group at position `k` in an event, if one does. -/
def turnIn? (k : Nat) (r : Run α) : Event α → Option (Turn α)
  | .turn target answer =>
    match r.status with
    | .running _ _ => if r.past.length = k then some ⟨r.cancelled, target, answer⟩ else none
    | _ => none
  | _ => none

/-- The turns that fall to the group at position `k` in some events. -/
def turnsIn (k : Nat) : Run α → List (Event α) → List (Turn α)
  | _, [] => []
  | r, e :: rest => (r.turnIn? k e).toList ++ turnsIn k (r.step e).1 rest

/-- Where the run stands with the group at position `k`, which has become `g`. -/
inductive Follows (k : Nat) (code : GroupCode) (r : Run α) : ActiveGroup α → Prop where
  /-- Another group runs before it. -/
  | ahead {g : ActiveGroup α} {later : List GroupCode} {j : Nat}
      (status : r.status = .running g later) (waits : later[j]? = some code)
      (position : r.past.length + 1 + j = k) : Follows k code r (.enter code)
  /-- It runs. -/
  | inside {g : ActiveGroup α} {later : List GroupCode} (status : r.status = .running g later)
      (unfinished : g.outcome? = none) (position : r.past.length = k) : Follows k code r g
  /-- It is over. -/
  | left {g : ActiveGroup α} {result : Except RunError (List α)}
      (entry : r.past[k]? = some (g, result)) (finished : g.outcome? = some result)
      (whole : g.isBroken = false) : Follows k code r g
  /-- The run has stopped before it was over. -/
  | stopped {g : ActiveGroup α} (status : ∀ g' later, r.status ≠ .running g' later)
      (unfinished : g.outcome? = none ∨ g.isBroken = true) (position : r.past.length ≤ k) :
      Follows k code r g

/-- Moving on from a group breaks off the run, stays in the group, ends the run with the group's
error or enters the next group. -/
theorem moveOn_cases (r : Run α) (g : ActiveGroup α) (later : List GroupCode) :
    (g.progress.isBroken = true ∧ (r.moveOn g later).1 = { r with status := .panicked }) ∨
    (g.progress.outcome? = none ∧ (r.moveOn g later).1 =
      { r with status := .running g.progress later }) ∨
    (∃ e, g.progress.isBroken = false ∧ g.progress.outcome? = some (.error e) ∧
      (r.moveOn g later).1 =
        { r with past := r.past ++ [(g.progress, .error e)], status := .returned }) ∨
    (∃ values, g.progress.isBroken = false ∧ g.progress.outcome? = some (.ok values) ∧
      (r.moveOn g later).1 =
        (enterNext r.cancelled (r.past ++ [(g.progress, .ok values)]) later).1) := by
  unfold moveOn
  cases hb : g.progress.isBroken with
  | true => exact Or.inl ⟨rfl, by simp [hb]⟩
  | false =>
    cases ho : g.progress.outcome? with
    | none => exact Or.inr (Or.inl ⟨rfl, by simp [hb, ho]⟩)
    | some result =>
      cases result with
      | error e => exact Or.inr (Or.inr (Or.inl ⟨e, rfl, rfl, by simp [hb, ho]⟩))
      | ok values => exact Or.inr (Or.inr (Or.inr ⟨values, rfl, rfl, by simp [hb, ho]⟩))

theorem past_prefix_enterNext (cancelled : Bool)
    (past : List (ActiveGroup α × Except RunError (List α))) (codes : List GroupCode) :
    past <+: (enterNext cancelled past codes).1.past := by
  induction codes generalizing past with
  | nil => exact List.prefix_refl past
  | cons code later ih =>
    unfold enterNext
    dsimp only
    split
    · exact List.prefix_refl past
    · exact List.prefix_append past _
    · exact (List.prefix_append past _).trans (ih _)

theorem past_prefix_moveOn (r : Run α) (g : ActiveGroup α) (later : List GroupCode) :
    r.past <+: (r.moveOn g later).1.past := by
  rcases moveOn_cases r g later with ⟨-, h⟩ | ⟨-, h⟩ | ⟨e, -, -, h⟩ | ⟨values, -, -, h⟩
  · exact h ▸ List.prefix_refl r.past
  · exact h ▸ List.prefix_refl r.past
  · exact h ▸ List.prefix_append r.past _
  · exact h ▸ (List.prefix_append r.past _).trans (past_prefix_enterNext _ _ _)

theorem step_turn_of_running {later : List GroupCode} (h : r.status = .running g later)
    (target : Target) (answer : Answer α) :
    (r.step (.turn target answer)).1 =
      (r.moveOn (g.turn r.cancelled target answer).1 later).1 := by
  simp only [step, h]

/-- A run that has stopped goes no further. -/
theorem step_of_not_running (hs : ∀ g later, r.status ≠ .running g later) (e : Event α) :
    (r.step e).1.past = r.past ∧ (r.step e).1.status = r.status := by
  cases h : r.status with
  | running g later => exact absurd h (hs g later)
  | _ => cases e <;> simp [step, h]

/-- A run that goes on has not returned. -/
theorem unreturned_of_running {later : List GroupCode} (hs : r.status = .running g later) :
    r.status ≠ .returned := by
  rw [hs]
  exact fun heq => nomatch heq

/-- An event leaves a run where it is, drops it, or gives the group that runs a turn. -/
theorem step_cases (r : Run α) (e : Event α) :
    ((r.step e).1.past = r.past ∧ (r.step e).1.status = r.status ∧ ∀ k, r.turnIn? k e = none) ∨
    (e = .drop ∧ r.status ≠ .returned ∧ (r.step e).1 = { r with status := .dropped }) ∨
    (∃ g later target answer, r.status = .running g later ∧ e = .turn target answer ∧
      (r.step e).1 = (r.moveOn (g.turn r.cancelled target answer).1 later).1) := by
  cases hs : r.status with
  | running g later =>
    cases e with
    | cancel => exact Or.inl ⟨rfl, hs, fun k => rfl⟩
    | drop => exact Or.inr (Or.inl ⟨rfl, (fun heq => nomatch heq), by simp only [step, hs]⟩)
    | turn target answer =>
      exact Or.inr (Or.inr ⟨g, later, target, answer, rfl, rfl, step_turn_of_running hs target answer⟩)
  | returned | panicked | dropped =>
    have hnot : ∀ g later, r.status ≠ .running g later := fun g later heq => by
      rw [hs] at heq
      cases heq
    obtain ⟨hpast, hstatus⟩ := step_of_not_running hnot e
    refine Or.inl ⟨hpast, hstatus.trans hs, fun k => ?_⟩
    cases e with
    | turn target answer => simp only [turnIn?, hs]
    | _ => rfl

/-- What is over stays as it is. -/
theorem past_prefix_step (r : Run α) (e : Event α) : r.past <+: (r.step e).1.past := by
  rcases r.step_cases e with ⟨hpast, -⟩ | ⟨-, -, hstep⟩ | ⟨g, later, target, answer, -, -, hstep⟩
  · exact hpast ▸ List.prefix_refl r.past
  · exact hstep ▸ List.prefix_refl r.past
  · exact hstep ▸ past_prefix_moveOn r _ later

/-- A group that takes a turn to be over is waited for, or is the next one. -/
theorem follows_enterNext {codes : List GroupCode} {j : Nat}
    {past : List (ActiveGroup α × Except RunError (List α))} (cancelled : Bool)
    (hopen : (ActiveGroup.enter code : ActiveGroup α).outcome? = none)
    (hcode : codes[j]? = some code) (hk : past.length + j = k) :
    Follows k code (enterNext cancelled past codes).1 (.enter code) := by
  induction codes generalizing past j with
  | nil => cases hcode
  | cons first later ih =>
    unfold enterNext
    dsimp only
    cases j with
    | zero =>
      obtain rfl : first = code := Option.some.inj hcode
      rw [hopen]
      exact Follows.inside rfl hopen hk
    | succ j =>
      rw [List.getElem?_cons_succ] at hcode
      split
      · exact Follows.ahead rfl hcode (by dsimp only; omega)
      · refine Follows.stopped (fun g' later' h => nomatch h) (Or.inl hopen) ?_
        simp only [List.length_append, List.length_singleton]
        omega
      · refine ih hcode ?_
        simp only [List.length_append, List.length_singleton]
        omega

theorem Follows.left_of_prefix {r' : Run α} {result : Except RunError (List α)}
    (hpast : r.past <+: r'.past) (hentry : r.past[k]? = some (g, result))
    (hfinished : g.outcome? = some result) (hwhole : g.isBroken = false) :
    Follows k code r' g := by
  obtain ⟨more, hmore⟩ := hpast
  have hlt : k < r.past.length := (List.getElem?_eq_some_iff.1 hentry).1
  refine Follows.left ?_ hfinished hwhole
  rw [← hmore, List.getElem?_append_left hlt, hentry]

/-- A group of a run takes the turns that fall to it and no other step. -/
theorem Follows.step (hopen : (ActiveGroup.enter code : ActiveGroup α).outcome? = none)
    (h : Follows k code r g) (e : Event α) :
    Follows k code (r.step e).1 (g.after (r.turnIn? k e).toList) := by
  cases h with
  | @ahead g₀ later j hs hwaits hk =>
    cases e with
    | cancel => exact Follows.ahead hs hwaits hk
    | drop =>
      have hstep : (r.step .drop).1 = { r with status := .dropped } := by simp only [Run.step, hs]
      rw [hstep]
      exact Follows.stopped (fun g' later' h => nomatch h) (Or.inl hopen) (by dsimp only; omega)
    | turn target answer =>
      have hturn : r.turnIn? k (.turn target answer) = none := by
        simp only [turnIn?, hs]
        rw [if_neg (by omega)]
      rw [hturn, step_turn_of_running hs]
      generalize (g₀.turn r.cancelled target answer).1 = g₁
      rcases moveOn_cases r g₁ later with ⟨-, h⟩ | ⟨-, h⟩ | ⟨e, -, -, h⟩ | ⟨values, -, -, h⟩ <;>
        rw [h]
      · exact Follows.stopped (fun g' later' h => nomatch h) (Or.inl hopen) (by dsimp only; omega)
      · exact Follows.ahead rfl hwaits hk
      · refine Follows.stopped (fun g' later' h => nomatch h) (Or.inl hopen) ?_
        simp only [List.length_append, List.length_singleton]
        omega
      · refine follows_enterNext r.cancelled hopen hwaits ?_
        simp only [List.length_append, List.length_singleton]
        omega
  | @inside g later hs hunfinished hk =>
    cases e with
    | cancel => exact Follows.inside hs hunfinished hk
    | drop =>
      have hstep : (r.step .drop).1 = { r with status := .dropped } := by simp only [Run.step, hs]
      rw [hstep]
      exact Follows.stopped (fun g' later' h => nomatch h) (Or.inl hunfinished) (Nat.le_of_eq hk)
    | turn target answer =>
      have hturn : r.turnIn? k (.turn target answer) = some ⟨r.cancelled, target, answer⟩ := by
        simp only [turnIn?, hs]
        rw [if_pos hk]
      have hafter : g.after [⟨r.cancelled, target, answer⟩] =
          (g.turn r.cancelled target answer).1.progress := rfl
      rw [hturn, Option.toList_some, hafter, step_turn_of_running hs]
      generalize (g.turn r.cancelled target answer).1 = g₁
      have hentry : ∀ result, (r.past ++ [(g₁.progress, result)])[k]? =
          some (g₁.progress, result) := by
        intro result
        rw [← hk, List.getElem?_append_right (Nat.le_refl _), Nat.sub_self]
        rfl
      rcases moveOn_cases r g₁ later with
        ⟨hb, h⟩ | ⟨ho, h⟩ | ⟨e, hb, ho, h⟩ | ⟨values, hb, ho, h⟩ <;> rw [h]
      · exact Follows.stopped (fun g' later' h => nomatch h) (Or.inr hb) (Nat.le_of_eq hk)
      · exact Follows.inside rfl ho hk
      · exact Follows.left (hentry _) ho hb
      · exact Follows.left_of_prefix (r := { r with past := r.past ++ [(g₁.progress, .ok values)] })
          (past_prefix_enterNext _ _ _) (hentry _) ho hb
  | @left g result hentry hfinished hwhole =>
    have hlt : k < r.past.length := (List.getElem?_eq_some_iff.1 hentry).1
    have hturn : r.turnIn? k e = none := by
      cases e with
      | turn target answer =>
        unfold turnIn?
        dsimp only
        split
        · rw [if_neg (by omega)]
        · rfl
      | _ => rfl
    rw [hturn]
    exact Follows.left_of_prefix (past_prefix_step r e) hentry hfinished hwhole
  | @stopped g hs hunfinished hk =>
    have hturn : r.turnIn? k e = none := by
      cases e with
      | turn target answer =>
        unfold turnIn?
        dsimp only
        split
        · rename_i g' later' h
          exact absurd h (hs g' later')
        · rfl
      | _ => rfl
    rw [hturn]
    obtain ⟨hpast, hstatus⟩ := step_of_not_running hs e
    refine Follows.stopped ?_ hunfinished (by rw [hpast]; exact hk)
    rw [hstatus]
    exact hs

theorem Follows.steps (hopen : (ActiveGroup.enter code : ActiveGroup α).outcome? = none)
    (h : Follows k code r g) (es : List (Event α)) :
    Follows k code (r.steps es).1 (g.after (r.turnsIn k es)) := by
  induction es generalizing r g with
  | nil => exact h
  | cons e rest ih =>
    have hrest := ih (h.step hopen e)
    rw [← ActiveGroup.after_append] at hrest
    exact hrest

/-- A run has left a group with a result exactly if the group is over with it. -/
theorem Follows.past_eq_some_iff (hopen : (ActiveGroup.enter code : ActiveGroup α).outcome? = none)
    (h : Follows k code r g) {g' : ActiveGroup α} {result : Except RunError (List α)} :
    r.past[k]? = some (g', result) ↔
      g' = g ∧ g.isBroken = false ∧ g.outcome? = some result := by
  cases h with
  | ahead _ _ hk =>
    rw [List.getElem?_eq_none (by omega), hopen]
    simp
  | inside _ hunfinished hk =>
    rw [List.getElem?_eq_none (by omega), hunfinished]
    simp
  | left hentry hfinished hwhole =>
    rw [hentry, hfinished, hwhole]
    simp [eq_comm]
  | stopped _ hunfinished hk =>
    rw [List.getElem?_eq_none hk]
    rcases hunfinished with hnone | hbroken
    · simp [hnone]
    · simp [hbroken]

/-- The group at position `k` after the turns that fall to it in some events. -/
def groupAfter (k : Nat) (code : GroupCode) (r : Run α) (es : List (Event α)) : ActiveGroup α :=
  (ActiveGroup.enter code).after (r.turnsIn k es)

/-- What happens in the group at position `k` in some events. -/
def traceIn (k : Nat) (code : GroupCode) (r : Run α) (es : List (Event α)) : List (Happening α) :=
  (ActiveGroup.enter code).trace (r.turnsIn k es)

/-- A run of some groups has left the group at position `k` with a result exactly if this group is
over with it after the turns that fell to it. -/
theorem past_eq_some_iff {codes : List GroupCode} (cancelled : Bool)
    (hcode : codes[k]? = some code)
    (hopen : (ActiveGroup.enter code : ActiveGroup α).outcome? = none) (es : List (Event α))
    {g' : ActiveGroup α} {result : Except RunError (List α)} :
    ((start cancelled codes).1.steps es).1.past[k]? = some (g', result) ↔
      g' = (start cancelled codes).1.groupAfter k code es ∧
        ((start cancelled codes).1.groupAfter k code es).isBroken = false ∧
        ((start cancelled codes).1.groupAfter k code es).outcome? = some result := by
  have hstart : Follows k code (start cancelled codes : Run α × List Note).1 (.enter code) :=
    follows_enterNext cancelled hopen hcode (by simp)
  exact (hstart.steps hopen es).past_eq_some_iff hopen

end Run

end Orchestration.Execution
