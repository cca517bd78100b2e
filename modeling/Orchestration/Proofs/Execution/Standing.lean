import Orchestration.Proofs.Execution.Calls

/-!
# Where the calls of a group stand

For each call of a group there is what has happened to it, and the state it is in. The two agree at
every moment, whatever the discipline of the group. Outside a concurrent group a member is called only
after all members before it have given their values, so of all its calls at most one is in progress.
-/

namespace Orchestration.Execution

variable {α : Type} {tr : List (Happening α)} {code : GroupCode} {g : ActiveGroup α} {c : Call α}
  {values : List α}

/-- The calls of a group that came from some code agree with what has happened in it. -/
structure Agrees (code : GroupCode) (g : ActiveGroup α) (tr : List (Happening α)) : Prop where
  discipline : g.discipline = code.discipline
  operations : g.members.map Call.operation = code.operations
  /-- Only a transaction is ever outside its members. -/
  phase : g.discipline ≠ .transactional → g.phase = .working
  /-- While a transaction is being begun, no member is called. -/
  opening : ∀ b : Call α, g.phase = .opening b → b.operation = "begin" ∧
    g.members = code.operations.map Call.idle ∧ b.Traced .begin .begin (happeningsAt .begin tr)
  /-- After that, the call that begins it has given its value. -/
  begun : (∀ b : Call α, g.phase ≠ .opening b) → happeningsAt .begin tr = [] ∨
    ∃ a, happeningsAt .begin tr = called .begin "begin" (.own (.value a))
  /-- It is settled for the outcome of its members, -/
  closing : ∀ c outcome, g.phase = .closing c outcome → sequenceOutcome g.members = some outcome ∧
    c.Traced .commit .settle (happeningsAt .settle tr)
  /-- and not before. -/
  unclosed : (∀ c outcome, g.phase ≠ .closing c outcome) → happeningsAt .settle tr = []
  /-- Outside a concurrent group a member is called after those before it have given their values. -/
  ordered : g.discipline ≠ .concurrent → ∀ i (c : Call α), g.members[i]? = some c →
    c.isIdle = false → GaveBefore g.members i
  member : ∀ i (c : Call α), g.members[i]? = some c →
    c.Traced (.member c.operation) (.member i) (happeningsAt (.member i) tr)
  declared : ∀ i, g.members[i]? = none → happeningsAt (.member i) tr = []

/-- Where a group stands: its calls agree with what has happened, and it has moved on as far as it
can. -/
structure Standing (code : GroupCode) (g : ActiveGroup α) (tr : List (Happening α)) : Prop
    extends Agrees code g tr where
  steady : g.progress = g

namespace Agrees

theorem begun_of_completed (h : Agrees code g tr) {b : Call α} (hb : g.phase = .opening b)
    {seq : Nat} {a : α} (hs : b.state = .completed seq (.ok a)) :
    happeningsAt .begin tr = called .begin "begin" (.own (.value a)) := by
  obtain ⟨hop, -, htraced⟩ := h.opening b hb
  obtain ⟨how, hhow, htrace⟩ := htraced.of_completed hs
  rw [htrace, CallEnd.result?_eq_ok_iff.1 hhow, hop]
  rfl

theorem progress (h : Agrees code g tr) : Standing code g.progress tr := by
  refine ⟨?_, ActiveGroup.progress_progress g⟩
  rcases ActiveGroup.progress_cases g with
    ⟨hg, -⟩ | ⟨b, seq, a, hb, hs, hg, -⟩ | ⟨c, outcome, hc, ho, hg, hfrom⟩
  · rw [hg]
    exact h
  · rw [hg]
    constructor
    case discipline => exact h.discipline
    case operations => exact h.operations
    case phase => exact fun _ => rfl
    case opening => exact fun b' hb' => nomatch hb'
    case begun => exact fun _ => Or.inr ⟨a, h.begun_of_completed hb hs⟩
    case closing => exact fun c outcome hp => nomatch hp
    case unclosed =>
      intro _
      exact h.unclosed fun c outcome hp => by
        rw [hb] at hp
        cases hp
    case ordered => exact h.ordered
    case member => exact h.member
    case declared => exact h.declared
  · rw [hg]
    constructor
    case discipline => exact h.discipline
    case operations => exact h.operations
    case phase =>
      intro hd
      have hsame : g.progress = g := ActiveGroup.progress_of_not_transactional hd (h.phase hd)
      have hphase := congrArg ActiveGroup.phase (hsame.symm.trans hg)
      exact hphase.symm.trans (h.phase hd)
    case opening => exact fun b' hb' => nomatch hb'
    case begun =>
      intro _
      rcases hfrom with hp | ⟨b, seq, a, hb, hs⟩
      · exact h.begun fun b hb => by
          rw [hp] at hb
          cases hb
      · exact Or.inr ⟨a, h.begun_of_completed hb hs⟩
    case closing =>
      intro c' outcome' hp
      cases hp
      have hnothing : happeningsAt .settle tr = [] := h.unclosed fun d outcome' hd => by
        rcases hfrom with hp | ⟨b, _, _, hb, -⟩
        · rw [hp] at hd
          cases hd
        · rw [hb] at hd
          cases hd
      rw [hnothing]
      exact ⟨ho, .idle hc⟩
    case unclosed => exact fun hnot => absurd rfl (hnot c outcome)
    case ordered => exact h.ordered
    case member => exact h.member
    case declared => exact h.declared

end Agrees

theorem agrees_enter (code : GroupCode) : Agrees code (ActiveGroup.enter code : ActiveGroup α) [] := by
  have hidle : ∀ (i : Nat) (c : Call α),
      (ActiveGroup.enter code : ActiveGroup α).members[i]? = some c →
        ∃ operation, c = Call.idle operation := by
    intro i c hc
    simp only [ActiveGroup.enter, List.getElem?_map, Option.map_eq_some_iff] at hc
    obtain ⟨operation, -, rfl⟩ := hc
    exact ⟨operation, rfl⟩
  constructor
  case discipline => rfl
  case operations =>
    simp only [ActiveGroup.enter, List.map_map]
    exact List.map_id _
  case phase =>
    intro hd
    unfold ActiveGroup.enter at hd ⊢
    dsimp only at hd ⊢
    split
    · rename_i heq
      exact absurd heq hd
    · rfl
  case opening =>
    intro b hb
    unfold ActiveGroup.enter at hb
    dsimp only at hb
    split at hb
    · cases hb
      exact ⟨rfl, rfl, .idle rfl⟩
    · cases hb
  case begun => exact fun _ => Or.inl rfl
  case closing =>
    intro c outcome hp
    unfold ActiveGroup.enter at hp
    dsimp only at hp
    split at hp <;> cases hp
  case unclosed => exact fun _ => rfl
  case ordered =>
    intro _ i c hc hnot
    obtain ⟨operation, rfl⟩ := hidle i c hc
    cases hnot
  case member =>
    intro i c hc
    obtain ⟨operation, rfl⟩ := hidle i c hc
    exact .idle rfl
  case declared => exact fun i _ => rfl

theorem standing_enter (code : GroupCode) :
    Standing code (ActiveGroup.enter code : ActiveGroup α) [] := by
  refine ⟨agrees_enter code, ?_⟩
  cases hd : code.discipline with
  | transactional =>
    have hp : (ActiveGroup.enter code : ActiveGroup α).phase = .opening (Call.idle "begin") := by
      simp only [ActiveGroup.enter, hd]
    exact ActiveGroup.progress_of_opening hp fun seq a hs => by cases hs
  | direct | concurrent =>
    refine ActiveGroup.progress_of_not_transactional ?_ ?_
    · simp [ActiveGroup.enter, hd]
    · simp only [ActiveGroup.enter, hd]

namespace Standing

theorem sequenceOutcome_eq_none (h : Standing code g tr) (hp : g.phase = .working)
    (hd : g.discipline = .transactional) : sequenceOutcome g.members = none := by
  rcases ActiveGroup.progress_cases g with ⟨-, hnone⟩ | ⟨b, _, _, hb, -⟩ | ⟨c, outcome, -, -, hg, -⟩
  · exact hnone hp hd
  · rw [hp] at hb
    cases hb
  · have hphase := congrArg ActiveGroup.phase (h.steady.symm.trans hg)
    rw [hp] at hphase
    cases hphase

/-- The members of a group that is not over are not settled. -/
theorem unsettled (h : Standing code g tr) (hopen : g.outcome? = none)
    (hd : g.discipline ≠ .concurrent) (hp : g.phase = .working) :
    sequenceOutcome g.members = none := by
  cases hdiscipline : g.discipline with
  | concurrent => exact absurd hdiscipline hd
  | direct => simpa only [ActiveGroup.outcome?, hp, hdiscipline] using hopen
  | transactional => exact h.sequenceOutcome_eq_none hp hdiscipline

/-- The member whose turn it is has not completed, and those before it have given their values. -/
theorem first_of_mayTurn (h : Standing code g tr) (hopen : g.outcome? = none)
    (hd : g.discipline ≠ .concurrent) (hp : g.phase = .working) {i : Nat}
    (hmay : g.mayTurn i = true) (hc : g.members[i]? = some c) :
    c.isCompleted = false ∧ GaveBefore g.members i := by
  obtain ⟨j, d, hfind, hget, hnot, hgave⟩ := exists_first_of_unsettled (h.unsettled hopen hd hp)
  rw [ActiveGroup.findIdx?_of_mayTurn hd hmay] at hfind
  cases hfind
  rw [hc] at hget
  cases hget
  exact ⟨hnot, hgave⟩

/-! ### Turns -/

theorem turn_begin (h : Standing code g tr) {b : Call α} (hp : g.phase = .opening b)
    (cancelled : Bool) (answer : Answer α) :
    Agrees code (g.turn cancelled .begin answer).1
      (tr ++ b.happenings .begin (answer.end? cancelled)) := by
  obtain ⟨hop, hmembers, htraced⟩ := h.opening b hp
  have hothers : ∀ target, target ≠ .begin → happeningsAt target
      (tr ++ b.happenings .begin (answer.end? cancelled)) = happeningsAt target tr := by
    intro target hne
    rw [happeningsAt_append, happeningsAt_happenings_of_ne (Ne.symm hne), List.append_nil]
  rw [ActiveGroup.turn_begin hp]
  constructor
  case discipline => exact h.discipline
  case operations => exact h.operations
  case phase =>
    intro hd
    have hworking := h.phase hd
    rw [hp] at hworking
    cases hworking
  case opening =>
    intro b' hb'
    cases hb'
    refine ⟨(Call.turn_operation b cancelled .begin 0 answer).trans hop, hmembers, ?_⟩
    rw [happeningsAt_append, happeningsAt_happenings_self]
    exact htraced.turn cancelled 0 answer
  case begun => exact fun hnot => absurd rfl (hnot _)
  case closing => exact fun c outcome hp' => nomatch hp'
  case unclosed =>
    intro _
    rw [hothers .settle (fun heq => nomatch heq)]
    exact h.unclosed fun c outcome hp' => by
      rw [hp] at hp'
      cases hp'
  case ordered => exact h.ordered
  case member =>
    intro i c hc
    rw [hothers (.member i) (fun heq => nomatch heq)]
    exact h.member i c hc
  case declared =>
    intro i hi
    rw [hothers (.member i) (fun heq => nomatch heq)]
    exact h.declared i hi

theorem turn_member (h : Standing code g tr) (hopen : g.outcome? = none) (hp : g.phase = .working)
    {i : Nat} (hmay : g.mayTurn i = true) (hc : g.members[i]? = some c) (cancelled : Bool)
    (answer : Answer α) :
    Agrees code (g.turn cancelled (.member i) answer).1
      (tr ++ c.happenings (.member i) (answer.end? cancelled)) := by
  have hcall : g.call? (.member i) = some c :=
    (ActiveGroup.call?_of_working hp).2 ⟨i, rfl, hmay, hc⟩
  have hi : i < g.members.length := (List.getElem?_eq_some_iff.1 hc).1
  have htraced := (h.member i c hc).turn cancelled g.completed answer
  have hop := Call.turn_operation c cancelled (.member c.operation) g.completed answer
  rw [ActiveGroup.turn_member hp hcall rfl]
  generalize (c.turn cancelled (.member c.operation) g.completed answer).1 = c' at htraced hop ⊢
  have hothers : ∀ j, j ≠ i → happeningsAt (.member j)
      (tr ++ c.happenings (.member i) (answer.end? cancelled)) = happeningsAt (.member j) tr := by
    intro j hji
    have hne : Target.member i ≠ .member j := fun heq => hji (Target.member.inj heq).symm
    rw [happeningsAt_append, happeningsAt_happenings_of_ne hne, List.append_nil]
  constructor
  case discipline => exact h.discipline
  case operations =>
    show (g.members.set i c').map Call.operation = _
    have hself : (g.members.map Call.operation)[i]? = some c.operation := by
      rw [List.getElem?_map, hc, Option.map_some]
    obtain ⟨hlt, he⟩ := List.getElem?_eq_some_iff.1 hself
    rw [List.map_set, hop, ← he, List.set_getElem_self, h.operations]
  case phase => exact fun _ => hp
  case opening =>
    intro b hb
    rw [show g.phase = .opening b from hb] at hp
    cases hp
  case begun =>
    intro hnot
    have hne : Target.member i ≠ .begin := fun heq => nomatch heq
    rw [happeningsAt_append, happeningsAt_happenings_of_ne hne, List.append_nil]
    exact h.begun hnot
  case closing =>
    intro d outcome hd
    rw [show g.phase = .closing d outcome from hd] at hp
    cases hp
  case unclosed =>
    intro hnot
    have hne : Target.member i ≠ .settle := fun heq => nomatch heq
    rw [happeningsAt_append, happeningsAt_happenings_of_ne hne, List.append_nil]
    exact h.unclosed hnot
  case ordered =>
    intro hd j d hget hnot
    have hsequence : g.discipline ≠ .concurrent := hd
    obtain ⟨hunfinished, hgave⟩ := h.first_of_mayTurn hopen hsequence hp hmay hc
    rcases (Concurrently.getElem?_set_iff hc).1 hget with ⟨rfl, -⟩ | ⟨hji, hget⟩
    · exact hgave.set (Nat.le_refl j) c'
    · have hgavej := h.ordered hd j d hget hnot
      have hle : j ≤ i := by
        by_contra hlt
        obtain ⟨c₁, seq, a, hc₁, hs⟩ := hgavej i (by omega)
        rw [hc] at hc₁
        cases hc₁
        simp [Call.isCompleted, hs] at hunfinished
      exact hgavej.set hle c'
  case member =>
    intro j d hget
    rcases (Concurrently.getElem?_set_iff hc).1 hget with ⟨rfl, rfl⟩ | ⟨hji, hget⟩
    · rw [happeningsAt_append, happeningsAt_happenings_self, hop]
      exact htraced
    · rw [hothers j hji]
      exact h.member j d hget
  case declared =>
    intro j hj
    rw [List.getElem?_eq_none_iff, List.length_set] at hj
    rw [hothers j (by omega)]
    exact h.declared j (List.getElem?_eq_none hj)

theorem turn_settle (h : Standing code g tr) {outcome : Except RunError (List α)}
    (hp : g.phase = .closing c outcome) (cancelled : Bool) (answer : Answer α) :
    Agrees code (g.turn cancelled .settle answer).1
      (tr ++ c.happenings .settle (answer.end? false)) := by
  have hothers : ∀ target, target ≠ .settle → happeningsAt target
      (tr ++ c.happenings .settle (answer.end? false)) = happeningsAt target tr := by
    intro target hne
    rw [happeningsAt_append, happeningsAt_happenings_of_ne (Ne.symm hne), List.append_nil]
  rw [ActiveGroup.turn_settle hp]
  constructor
  case discipline => exact h.discipline
  case operations => exact h.operations
  case phase =>
    intro hd
    have hworking := h.phase hd
    rw [hp] at hworking
    cases hworking
  case opening => exact fun b hb => nomatch hb
  case begun =>
    intro _
    rw [hothers .begin (fun h => nomatch h)]
    exact h.begun fun b hb => by
      rw [hp] at hb
      cases hb
  case closing =>
    intro c' outcome' hp'
    cases hp'
    obtain ⟨ho, htraced⟩ := h.closing c outcome hp
    rw [happeningsAt_append, happeningsAt_happenings_self]
    exact ⟨ho, htraced.turn false 0 answer⟩
  case unclosed => exact fun hnot => absurd rfl (hnot _ outcome)
  case ordered => exact h.ordered
  case member =>
    intro i d hd
    rw [hothers (.member i) (fun h => nomatch h)]
    exact h.member i d hd
  case declared =>
    intro i hi
    rw [hothers (.member i) (fun h => nomatch h)]
    exact h.declared i hi

/-- Every turn of a group that is not over keeps where it stands. -/
theorem next (h : Standing code g tr) (hopen : g.outcome? = none) (t : Turn α) :
    Standing code (g.next t) (tr ++ g.happenings t) := by
  obtain ⟨cancelled, target, answer⟩ := t
  cases hcall : g.call? target with
  | none =>
    obtain ⟨hnext, hnothing⟩ := ActiveGroup.next_of_call?_eq_none
      (t := ⟨cancelled, target, answer⟩) hcall h.steady
    rw [hnext, hnothing, List.append_nil]
    exact h
  | some c =>
    have hhappenings : g.happenings ⟨cancelled, target, answer⟩ =
        c.happenings target (answer.end? (cancelled && target ≠ .settle)) := by
      simp only [ActiveGroup.happenings, hcall]
    rw [hhappenings]
    refine Agrees.progress ?_
    dsimp only
    cases hp : g.phase with
    | opening b =>
      obtain ⟨rfl, rfl⟩ := (ActiveGroup.call?_of_opening hp).1 hcall
      simpa using h.turn_begin hp cancelled answer
    | working =>
      obtain ⟨i, rfl, hmay, hc⟩ := (ActiveGroup.call?_of_working hp).1 hcall
      simpa using h.turn_member hopen hp hmay hc cancelled answer
    | closing d outcome =>
      obtain ⟨rfl, rfl⟩ := (ActiveGroup.call?_of_closing hp).1 hcall
      simpa using h.turn_settle hp cancelled answer

/-! ### Calls that panicked -/

/-- In a group that is broken a call has panicked that has no task of its own. -/
theorem exists_panic (h : Standing code g tr) (hbroken : g.isBroken = true) :
    code.discipline ≠ .concurrent ∧ ∃ target reason, .ended target (.own (.panicWith reason)) ∈ tr := by
  have hended : ∀ {target : Target} {failure : String → RunError} {c : Call α},
      c.Traced failure target (happeningsAt target tr) → c.isPanicked = true →
        ∃ target reason, .ended target (.own (.panicWith reason)) ∈ tr := by
    intro target failure c htraced hpanicked
    obtain ⟨reason, hreason⟩ := htraced.ended_of_isPanicked hpanicked
    exact ⟨target, reason, (mem_happeningsAt.1 hreason).1⟩
  have hraced : g.phase ≠ .working → code.discipline ≠ .concurrent := by
    intro hp hd
    rw [← h.discipline] at hd
    exact hp (h.phase (by rw [hd]; exact fun heq => nomatch heq))
  unfold ActiveGroup.isBroken at hbroken
  cases hp : g.phase with
  | opening b =>
    rw [hp] at hbroken hraced
    obtain ⟨-, -, htraced⟩ := h.opening b hp
    exact ⟨hraced (fun heq => nomatch heq), hended htraced hbroken⟩
  | closing c outcome =>
    rw [hp] at hbroken hraced
    exact ⟨hraced (fun heq => nomatch heq), hended (h.closing c outcome hp).2 hbroken⟩
  | working =>
    rw [hp] at hbroken
    obtain ⟨hd, hany⟩ := Bool.and_eq_true_iff.1 hbroken
    obtain ⟨c, hmem, hpanicked⟩ := List.any_eq_true.1 hany
    obtain ⟨i, hi⟩ := List.mem_iff_getElem?.1 hmem
    rw [h.discipline] at hd
    exact ⟨of_decide_eq_true hd, hended (h.member i c hi) hpanicked⟩

/-! ### Calls in progress -/

/-- Outside a concurrent group no member has panicked while another waits. -/
theorem any_isPanicked_of_waiting (h : Standing code g tr) (hd : g.discipline ≠ .concurrent) {i : Nat}
    (hc : g.members[i]? = some c) (hs : c.state = .waiting) :
    g.members.any Call.isPanicked = false := by
  rw [List.any_eq_false]
  intro d hmem hpanicked
  obtain ⟨j, hj, rfl⟩ := List.getElem_of_mem hmem
  have hget : g.members[j]? = some g.members[j] := List.getElem?_eq_getElem hj
  obtain ⟨reason, hstate⟩ := Call.isPanicked_iff.1 hpanicked
  have hgave : ∀ {k l : Nat} {e : Call α}, GaveBefore g.members k → l < k →
      g.members[l]? = some e → ∃ seq a, e.state = .completed seq (.ok a) := by
    intro k l e hk hl he
    obtain ⟨e', seq, a, he', hs'⟩ := hk l hl
    rw [he] at he'
    cases he'
    exact ⟨seq, a, hs'⟩
  rcases Nat.lt_trichotomy j i with hlt | rfl | hlt
  · obtain ⟨seq, a, hs'⟩ := hgave (h.ordered hd i c hc (by simp [Call.isIdle, hs])) hlt hget
    rw [hstate] at hs'
    cases hs'
  · rw [hc] at hget
    cases hget
    rw [hs] at hstate
    cases hstate
  · obtain ⟨seq, a, hs'⟩ := hgave (h.ordered hd j _ hget (by simp [Call.isIdle, hstate])) hlt hc
    rw [hs] at hs'
    cases hs'

/-- A member that waits may have a turn, and keeps its group from being over. -/
theorem call?_of_waiting (h : Standing code g tr) {i : Nat} (hc : g.members[i]? = some c)
    (hs : c.state = .waiting) :
    g.call? (.member i) = some c ∧ g.outcome? = none ∧ g.isBroken = false := by
  have hover := Call.isOver_of_waiting hs
  have hcompleted := Call.isCompleted_of_isOver_eq_false hover
  by_cases hd : g.discipline = .concurrent
  · have hp : g.phase = .working := h.phase (by rw [hd]; exact fun heq => nomatch heq)
    have hmay : g.mayTurn i = true := by simp [ActiveGroup.mayTurn, hd, hc, hover]
    have hall : g.members.all Call.isOver = false := by
      rw [List.all_eq_false]
      exact ⟨c, List.mem_of_getElem? hc, by simp [hover]⟩
    refine ⟨(ActiveGroup.call?_of_working hp).2 ⟨i, rfl, hmay, hc⟩, ?_, ?_⟩
    · simp [ActiveGroup.outcome?, hp, hd, concurrentOutcome, hall]
    · simp [ActiveGroup.isBroken, hp, hd]
  · have hgave := h.ordered hd i c hc (by simp [Call.isIdle, hs])
    have hnone := sequenceOutcome_of_gaveBefore hgave hc hcompleted
    have hp : g.phase = .working := by
      cases hp : g.phase with
      | working => rfl
      | opening b =>
        obtain ⟨-, hmembers, -⟩ := h.opening b hp
        rw [hmembers, List.getElem?_map, Option.map_eq_some_iff] at hc
        obtain ⟨operation, -, rfl⟩ := hc
        cases hs
      | closing d outcome =>
        rw [(h.closing d outcome hp).1] at hnone
        cases hnone
    have hmay : g.mayTurn i = true := by
      have hfind := findIdx?_of_gaveBefore hgave hc hcompleted
      unfold ActiveGroup.mayTurn
      split
      · rename_i hconcurrent
        exact absurd hconcurrent hd
      · exact decide_eq_true hfind
    refine ⟨(ActiveGroup.call?_of_working hp).2 ⟨i, rfl, hmay, hc⟩, ?_, ?_⟩
    · cases hdiscipline : g.discipline with
      | concurrent => exact absurd hdiscipline hd
      | direct => simp only [ActiveGroup.outcome?, hp, hdiscipline, hnone]
      | transactional => simp only [ActiveGroup.outcome?, hp, hdiscipline]
    · simp [ActiveGroup.isBroken, hp, h.any_isPanicked_of_waiting hd hc hs]

/-- A call that was made and has not ended may have a turn, and keeps its group from being over. -/
theorem call?_of_unended (h : Standing code g tr) {target : Target} {operation : String}
    (hmade : .made target operation ∈ tr) (hended : ∀ how, .ended target how ∉ tr) :
    ∃ c, g.call? target = some c ∧ c.state = .waiting ∧ g.outcome? = none ∧ g.isBroken = false := by
  have hmade' : .made target operation ∈ happeningsAt target tr := mem_happeningsAt.2 ⟨hmade, rfl⟩
  have hended' : ∀ how, .ended target how ∉ happeningsAt target tr := fun how hmem =>
    hended how (mem_happeningsAt.1 hmem).1
  cases target with
  | begin =>
    have hopening : ∃ b, g.phase = .opening b := by
      by_contra hnot
      rcases h.begun fun b hb => hnot ⟨b, hb⟩ with hnil | ⟨a, hcalled⟩
      · rw [hnil] at hmade'
        cases hmade'
      · apply hended' (.own (.value a))
        rw [hcalled]
        exact ended_mem_called.2 ⟨rfl, rfl⟩
    obtain ⟨b, hb⟩ := hopening
    obtain ⟨-, -, htraced⟩ := h.opening b hb
    have hs := htraced.waiting_of_unended hmade' hended'
    refine ⟨b, (ActiveGroup.call?_of_opening hb).2 ⟨rfl, rfl⟩, hs, ?_, ?_⟩
    · simp only [ActiveGroup.outcome?, hb, hs]
    · simp only [ActiveGroup.isBroken, hb, Call.isPanicked, hs]
  | settle =>
    have hclosing : ∃ c outcome, g.phase = .closing c outcome := by
      by_contra hnot
      rw [h.unclosed fun c outcome hp => hnot ⟨c, outcome, hp⟩] at hmade'
      cases hmade'
    obtain ⟨c, outcome, hp⟩ := hclosing
    obtain ⟨-, htraced⟩ := h.closing c outcome hp
    have hs := htraced.waiting_of_unended hmade' hended'
    refine ⟨c, (ActiveGroup.call?_of_closing hp).2 ⟨rfl, rfl⟩, hs, ?_, ?_⟩
    · simp only [ActiveGroup.outcome?, hp, hs]
    · simp only [ActiveGroup.isBroken, hp, Call.isPanicked, hs]
  | member i =>
    cases hc : g.members[i]? with
    | none =>
      rw [h.declared i hc] at hmade'
      cases hmade'
    | some c =>
      have hs := (h.member i c hc).waiting_of_unended hmade' hended'
      obtain ⟨hcall, hopen, hwhole⟩ := h.call?_of_waiting hc hs
      exact ⟨c, hcall, hs, hopen, hwhole⟩

/-- A turn of another call leaves a call that is not over where it is. -/
theorem next_of_ne (h : Standing code g tr) (hopen : g.outcome? = none)
    (hwhole : g.isBroken = false) {target : Target} (hcall : g.call? target = some c)
    (hover : c.isOver = false) {t : Turn α} (hne : t.target ≠ target) :
    (g.next t).call? target = some c ∧ (g.next t).outcome? = none ∧
      (g.next t).isBroken = false := by
  cases hturn : g.call? t.target with
  | none =>
    rw [(ActiveGroup.next_of_call?_eq_none hturn h.steady).1]
    exact ⟨hcall, hopen, hwhole⟩
  | some d =>
    obtain ⟨hd, hp⟩ := ActiveGroup.concurrent_of_calls hturn hcall hne
    obtain ⟨cancelled, target', answer⟩ := t
    obtain ⟨i, rfl, -, hc⟩ := (ActiveGroup.call?_of_working hp).1 hcall
    obtain ⟨j, rfl, -, hget⟩ := (ActiveGroup.call?_of_working hp).1 hturn
    have hij : i ≠ j := fun heq => hne (congrArg Target.member heq.symm)
    rw [ActiveGroup.next]
    dsimp only
    rw [ActiveGroup.turn_member hp hturn rfl]
    generalize (d.turn cancelled (.member d.operation) g.completed answer).1 = d'
    rw [ActiveGroup.progress_of_not_transactional]
    · have hget' : (g.members.set j d')[i]? = some c := by
        rw [List.getElem?_set_ne (Ne.symm hij), hc]
      have hall : (g.members.set j d').all Call.isOver = false := by
        rw [List.all_eq_false]
        exact ⟨c, List.mem_of_getElem? hget', by simp [hover]⟩
      refine ⟨(ActiveGroup.call?_of_working ?_).2 ⟨i, rfl, ?_, hget'⟩, ?_, ?_⟩
      · exact hp
      · simp [ActiveGroup.mayTurn, hd, hget', hover]
      · simp [ActiveGroup.outcome?, hp, hd, concurrentOutcome, hall]
      · simp [ActiveGroup.isBroken, hp, hd]
    · show g.discipline ≠ _
      rw [hd]
      exact fun heq => by cases heq
    · exact hp

/-- As long as a group is not over, one of its calls may have a turn. -/
theorem exists_call (h : Standing code g tr) (hopen : g.outcome? = none)
    (hwhole : g.isBroken = false) : ∃ target c, g.call? target = some c ∧ c.isOver = false := by
  cases hp : g.phase with
  | opening b =>
    refine ⟨.begin, b, (ActiveGroup.call?_of_opening hp).2 ⟨rfl, rfl⟩, ?_⟩
    have hpanicked : b.isPanicked = false := by simpa only [ActiveGroup.isBroken, hp] using hwhole
    have hcompleted : b.isCompleted = false := by
      refine Call.isCompleted_eq_false_iff.2 fun seq result hs => ?_
      cases result with
      | error e => simp only [ActiveGroup.outcome?, hp, hs, reduceCtorEq] at hopen
      | ok a =>
        have hstart : g.startWork = { g with phase := .working } := by
          simp only [ActiveGroup.startWork, hp, hs]
        have hphase := congrArg ActiveGroup.phase h.steady
        rw [ActiveGroup.progress, hstart, hp] at hphase
        rcases ActiveGroup.startClosing_cases { g with phase := .working } with
          ⟨heq, -⟩ | ⟨-, -, d, outcome, -, -, heq⟩
        · rw [heq] at hphase
          cases hphase
        · rw [heq] at hphase
          cases hphase
    rw [Call.isOver, hcompleted, hpanicked, Bool.or_false]
  | closing c outcome =>
    refine ⟨.settle, c, (ActiveGroup.call?_of_closing hp).2 ⟨rfl, rfl⟩, ?_⟩
    have hpanicked : c.isPanicked = false := by simpa only [ActiveGroup.isBroken, hp] using hwhole
    have hcompleted : c.isCompleted = false := by
      refine Call.isCompleted_eq_false_iff.2 fun seq last hs => ?_
      simp only [ActiveGroup.outcome?, hp, hs, reduceCtorEq] at hopen
    rw [Call.isOver, hcompleted, hpanicked, Bool.or_false]
  | working =>
    by_cases hd : g.discipline = .concurrent
    · have hall : g.members.all Call.isOver = false := by
        rw [← Bool.not_eq_true]
        intro hall
        simp only [ActiveGroup.outcome?, hp, hd, concurrentOutcome, if_pos hall,
          reduceCtorEq] at hopen
      obtain ⟨c, hmem, hover⟩ := List.all_eq_false.1 hall
      obtain ⟨i, hi, rfl⟩ := List.getElem_of_mem hmem
      have hc : g.members[i]? = some g.members[i] := List.getElem?_eq_getElem hi
      have hnot : g.members[i].isOver = false := by simpa using hover
      have hmay : g.mayTurn i = true := by simp [ActiveGroup.mayTurn, hd, hc, hnot]
      exact ⟨.member i, _, (ActiveGroup.call?_of_working hp).2 ⟨i, rfl, hmay, hc⟩, hnot⟩
    · obtain ⟨i, c, hfind, hc, hnot, -⟩ := exists_first_of_unsettled (h.unsettled hopen hd hp)
      have hmay : g.mayTurn i = true := by
        unfold ActiveGroup.mayTurn
        split
        · rename_i hconcurrent
          exact absurd hconcurrent hd
        · exact decide_eq_true hfind
      refine ⟨.member i, c, (ActiveGroup.call?_of_working hp).2 ⟨i, rfl, hmay, hc⟩, ?_⟩
      have hany : g.members.any Call.isPanicked = false := by
        simpa [ActiveGroup.isBroken, hp, hd] using hwhole
      have hpanicked : c.isPanicked = false := by
        simpa using List.any_eq_false.1 hany c (List.mem_of_getElem? hc)
      rw [Call.isOver, hnot, hpanicked, Bool.or_false]

/-- In a group that is over with values every member has begun and ended. -/
theorem ended_of_ok (h : Standing code g tr) (hoc : g.outcome? = some (.ok values)) {i : Nat}
    {operation : String} (hi : code.operations[i]? = some operation) :
    .made (.member i) operation ∈ tr ∧ ∃ how, .ended (.member i) how ∈ tr := by
  rw [← h.operations, List.getElem?_map, Option.map_eq_some_iff] at hi
  obtain ⟨c, hc, rfl⟩ := hi
  have hmem := List.mem_of_getElem? hc
  have hover : c.isOver = true := by
    have ofSequence : ∀ {values : List α}, sequenceOutcome g.members = some (.ok values) →
        c.isOver = true := by
      intro values hsequence
      rw [Call.isOver, isCompleted_of_sequenceOutcome hsequence hmem, Bool.true_or]
    unfold ActiveGroup.outcome? at hoc
    split at hoc
    · split at hoc <;> cases hoc
    · split at hoc
      · exact ofSequence hoc
      · unfold concurrentOutcome at hoc
        split at hoc
        · rename_i hall
          exact List.all_eq_true.1 hall c hmem
        · cases hoc
      · cases hoc
    · rename_i d outcome hp
      split at hoc
      · rename_i seq last hs
        cases outcome with
        | ok values' => exact ofSequence (h.closing d _ hp).1
        | error e => cases last <;> simp [ActiveGroup.closingOutcome] at hoc
      · cases hoc
  obtain ⟨hmade, how, hended⟩ := (h.member i c hc).ended_of_isOver hover
  exact ⟨(mem_happeningsAt.1 hmade).1, how, (mem_happeningsAt.1 hended).1⟩

end Standing

end Orchestration.Execution
