import Orchestration.Proofs.Execution.Concurrent
import Orchestration.Proofs.Execution.Stage

/-!
# The calls of a group, one by one

What happens in a group is told apart by the call to which it happens. In a sequence the members come
one after the other: the first that has not completed stands right behind those that gave their
values. A group that has moved on from every phase that is over stays where it is until the next turn.
-/

namespace Orchestration.Execution

variable {α : Type} {tr : List (Happening α)} {g : ActiveGroup α} {c : Call α}
  {calls : List (Call α)} {values : List α}

/-! ## What happens to one call -/

/-- The call to which something happens. -/
def Happening.target : Happening α → Target
  | .made target _ => target
  | .ended target _ => target

/-- What happens to the call at a target. -/
def happeningsAt (target : Target) (tr : List (Happening α)) : List (Happening α) :=
  tr.filter fun h => h.target = target

theorem mem_happeningsAt {target : Target} {h : Happening α} :
    h ∈ happeningsAt target tr ↔ h ∈ tr ∧ h.target = target := by
  simp [happeningsAt]

theorem happeningsAt_append (target : Target) (tr tr' : List (Happening α)) :
    happeningsAt target (tr ++ tr') = happeningsAt target tr ++ happeningsAt target tr' :=
  List.filter_append tr tr'

theorem Call.target_of_mem_happenings {target : Target} {how? : Option (CallEnd α)}
    {h : Happening α} (hmem : h ∈ c.happenings target how?) : h.target = target := by
  unfold happenings at hmem
  split at hmem
  · cases hmem
  · rcases List.mem_append.mp hmem with hmade | hended
    · split at hmade
      · rw [List.mem_singleton.1 hmade]
        rfl
      · cases hmade
    · obtain ⟨how, -, rfl⟩ := by simpa using hended
      rfl

theorem happeningsAt_happenings_self (c : Call α) (target : Target) (how? : Option (CallEnd α)) :
    happeningsAt target (c.happenings target how?) = c.happenings target how? := by
  unfold happeningsAt
  rw [List.filter_eq_self]
  intro h hmem
  simpa using Call.target_of_mem_happenings hmem

theorem happeningsAt_happenings_of_ne {target target' : Target} (hne : target ≠ target')
    (c : Call α) (how? : Option (CallEnd α)) :
    happeningsAt target' (c.happenings target how?) = [] := by
  unfold happeningsAt
  rw [List.filter_eq_nil_iff]
  intro h hmem
  have htarget := Call.target_of_mem_happenings hmem
  simp [htarget, hne]

namespace Call.Traced

variable {failure : String → RunError} {target : Target}

theorem waiting_of_unended (h : c.Traced failure target tr) {target' : Target} {operation : String}
    (hmade : .made target' operation ∈ tr) (hended : ∀ how, .ended target' how ∉ tr) :
    c.state = .waiting := by
  cases h with
  | idle hs => cases hmade
  | waiting hs => exact hs
  | @ended how seq hs =>
    obtain ⟨rfl, -⟩ : target' = target ∧ operation = c.operation := by simpa using hmade
    exact absurd (by simp) (hended how)

theorem ended_of_isOver (h : c.Traced failure target tr) (hover : c.isOver = true) :
    .made target c.operation ∈ tr ∧ ∃ how, .ended target how ∈ tr := by
  cases h with
  | idle hs => simp [Call.isOver, Call.isCompleted, Call.isPanicked, hs] at hover
  | waiting hs => simp [Call.isOver, Call.isCompleted, Call.isPanicked, hs] at hover
  | @ended how seq hs => exact ⟨by simp, how, by simp⟩

theorem ended_of_isPanicked (h : c.Traced failure target tr) (hpanicked : c.isPanicked = true) :
    ∃ reason, .ended target (.own (.panicWith reason)) ∈ tr := by
  obtain ⟨reason, hstate⟩ := Call.isPanicked_iff.1 hpanicked
  cases h with
  | idle hs =>
    rw [hs] at hstate
    cases hstate
  | waiting hs =>
    rw [hs] at hstate
    cases hstate
  | @ended how seq hs =>
    rw [hs] at hstate
    obtain rfl := CallEnd.state_eq_panicked_iff.1 hstate
    exact ⟨reason, by simp⟩

end Call.Traced

theorem Call.isOver_of_waiting (h : c.state = .waiting) : c.isOver = false := by
  simp [isOver, isCompleted, isPanicked, h]

theorem Call.isCompleted_of_isOver_eq_false (h : c.isOver = false) : c.isCompleted = false :=
  (Bool.or_eq_false_iff.1 h).1

/-! ## Members in order -/

/-- Whether the members before a position have given their values. -/
def GaveBefore (calls : List (Call α)) (i : Nat) : Prop :=
  ∀ j < i, ∃ c seq a, calls[j]? = some c ∧ c.state = .completed seq (.ok a)

theorem gaveBefore_cons_succ {i : Nat} : GaveBefore (c :: calls) (i + 1) ↔
    (∃ seq a, c.state = .completed seq (.ok a)) ∧ GaveBefore calls i := by
  constructor
  · intro h
    constructor
    · obtain ⟨d, seq, a, hd, hs⟩ := h 0 (Nat.succ_pos i)
      cases hd
      exact ⟨seq, a, hs⟩
    · intro j hj
      simpa using h (j + 1) (Nat.succ_lt_succ hj)
  · rintro ⟨⟨seq, a, hs⟩, h⟩ j hj
    cases j with
    | zero => exact ⟨c, seq, a, rfl, hs⟩
    | succ j => simpa using h j (Nat.lt_of_succ_lt_succ hj)

theorem GaveBefore.set {i j : Nat} (h : GaveBefore calls i) (hij : i ≤ j) (c : Call α) :
    GaveBefore (calls.set j c) i := by
  intro l hl
  obtain ⟨d, seq, a, hd, hs⟩ := h l hl
  exact ⟨d, seq, a, by rw [List.getElem?_set_ne (by omega), hd], hs⟩

/-- A sequence is not settled while it waits for a member. -/
theorem sequenceOutcome_of_gaveBefore {i : Nat} (h : GaveBefore calls i) (hc : calls[i]? = some c)
    (hcompleted : c.isCompleted = false) : sequenceOutcome calls = none := by
  induction calls generalizing i with
  | nil => cases hc
  | cons d rest ih =>
    rw [sequenceOutcome]
    cases i with
    | zero =>
      obtain rfl : d = c := Option.some.inj hc
      cases hs : d.state with
      | completed seq result => exact absurd hs (Call.isCompleted_eq_false_iff.1 hcompleted seq result)
      | _ => rfl
    | succ i =>
      obtain ⟨⟨seq, a, hs⟩, hrest⟩ := gaveBefore_cons_succ.1 h
      rw [hs]
      dsimp only
      rw [ih hrest hc]
      rfl

/-- While a sequence is not settled, the members before the first that is not complete have given
their values. -/
theorem exists_first_of_unsettled (h : sequenceOutcome calls = none) :
    ∃ i c, calls.findIdx? (fun c => !c.isCompleted) = some i ∧ calls[i]? = some c ∧
      c.isCompleted = false ∧ GaveBefore calls i := by
  induction calls with
  | nil => cases h
  | cons c rest ih =>
    rw [List.findIdx?_cons]
    cases hdone : c.isCompleted with
    | false => exact ⟨0, c, rfl, rfl, hdone, fun j hj => nomatch hj⟩
    | true =>
      have hs : ∃ seq a, c.state = .completed seq (.ok a) ∧ sequenceOutcome rest = none := by
        rw [sequenceOutcome] at h
        cases hstate : c.state with
        | completed seq result =>
          cases result with
          | ok a => exact ⟨seq, a, rfl, by simpa [hstate] using h⟩
          | error e => simp [hstate] at h
        | _ => simp [Call.isCompleted, hstate] at hdone
      obtain ⟨seq, a, hs, hrest⟩ := hs
      obtain ⟨i, d, hfind, hd, hnot, hgave⟩ := ih hrest
      refine ⟨i + 1, d, ?_, hd, hnot, gaveBefore_cons_succ.2 ⟨⟨seq, a, hs⟩, hgave⟩⟩
      simp [hfind]

theorem findIdx?_of_gaveBefore {i : Nat} (h : GaveBefore calls i) (hc : calls[i]? = some c)
    (hcompleted : c.isCompleted = false) :
    calls.findIdx? (fun c => !c.isCompleted) = some i := by
  obtain ⟨j, d, hfind, hd, hnot, hgave⟩ :=
    exists_first_of_unsettled (sequenceOutcome_of_gaveBefore h hc hcompleted)
  have complete : ∀ {k l : Nat} {e : Call α}, GaveBefore calls k → l < k → calls[l]? = some e →
      e.isCompleted = true := by
    intro k l e hk hl he
    obtain ⟨e', seq, a, he', hs⟩ := hk l hl
    rw [he] at he'
    cases he'
    simp [Call.isCompleted, hs]
  have hij : ¬ i < j := fun hlt => by
    rw [complete hgave hlt hc] at hcompleted
    cases hcompleted
  have hji : ¬ j < i := fun hlt => by
    rw [complete h hlt hd] at hnot
    cases hnot
  rw [hfind, show j = i by omega]

theorem isCompleted_of_sequenceOutcome (h : sequenceOutcome calls = some (.ok values))
    (hc : c ∈ calls) : c.isCompleted = true := by
  induction calls generalizing values with
  | nil => cases hc
  | cons d rest ih =>
    obtain ⟨seq, a, first, hs, hrest, -⟩ := sequenceOutcome_cons_eq_ok_iff.1 h
    rcases List.mem_cons.mp hc with rfl | hc
    · simp [Call.isCompleted, hs]
    · exact ih hrest hc

/-! ## Moving on -/

namespace ActiveGroup

@[simp] theorem startWork_members (g : ActiveGroup α) : g.startWork.members = g.members := by
  unfold startWork
  repeat' split
  all_goals rfl

/-- Closing begins when the members of a transaction are settled. -/
theorem startClosing_cases (g : ActiveGroup α) :
    (g.startClosing = g ∧
      (g.phase = .working → g.discipline = .transactional → sequenceOutcome g.members = none)) ∨
    (g.phase = .working ∧ g.discipline = .transactional ∧ ∃ c outcome, c.state = .idle ∧
      sequenceOutcome g.members = some outcome ∧
        g.startClosing = { g with phase := .closing c outcome }) := by
  unfold startClosing
  cases hp : g.phase with
  | opening b => exact Or.inl ⟨rfl, fun h => nomatch h⟩
  | closing c outcome => exact Or.inl ⟨rfl, fun h => nomatch h⟩
  | working =>
    cases hd : g.discipline with
    | direct => exact Or.inl ⟨rfl, fun _ h => nomatch h⟩
    | concurrent => exact Or.inl ⟨rfl, fun _ h => nomatch h⟩
    | transactional =>
      rcases ho : sequenceOutcome g.members with _ | (e | values)
      · exact Or.inl ⟨rfl, fun _ _ => rfl⟩
      · exact Or.inr ⟨rfl, rfl, _, _, rfl, rfl, rfl⟩
      · exact Or.inr ⟨rfl, rfl, _, _, rfl, rfl, rfl⟩

theorem startWork_eq_self (h : ∀ b, g.phase ≠ .opening b) : g.startWork = g := by
  unfold startWork
  cases hp : g.phase with
  | opening b => exact absurd hp (h b)
  | _ => rfl

theorem progress_of_not_transactional (hd : g.discipline ≠ .transactional)
    (hp : g.phase = .working) : g.progress = g := by
  have hwork : g.startWork = g := startWork_eq_self fun b h => by
    rw [hp] at h
    cases h
  rcases startClosing_cases g with ⟨h, -⟩ | ⟨-, h, -⟩
  · rw [progress, hwork, h]
  · exact absurd h hd

/-- Where a group stands after moving on. -/
theorem progress_cases (g : ActiveGroup α) :
    (g.progress = g ∧
      (g.phase = .working → g.discipline = .transactional → sequenceOutcome g.members = none)) ∨
    (∃ b seq a, g.phase = .opening b ∧ b.state = .completed seq (.ok a) ∧
      g.progress = { g with phase := .working } ∧
      (g.discipline = .transactional → sequenceOutcome g.members = none)) ∨
    (∃ c outcome, c.state = .idle ∧ sequenceOutcome g.members = some outcome ∧
      g.progress = { g with phase := .closing c outcome } ∧
      (g.phase = .working ∨
        ∃ b seq a, g.phase = .opening b ∧ b.state = .completed seq (.ok a))) := by
  by_cases hwork : g.startWork = g
  · rcases startClosing_cases g with ⟨h, hnone⟩ | ⟨hp, -, c, outcome, hc, ho, h⟩
    · exact Or.inl ⟨by rw [progress, hwork, h], hnone⟩
    · exact Or.inr (Or.inr ⟨c, outcome, hc, ho, by rw [progress, hwork, h], Or.inl hp⟩)
  · have hbegun : ∃ b seq a, g.phase = .opening b ∧ b.state = .completed seq (.ok a) ∧
        g.startWork = { g with phase := .working } := by
      unfold startWork at hwork ⊢
      split at hwork
      · rename_i b hb
        split at hwork
        · rename_i seq a hs
          exact ⟨b, seq, a, hb, hs, rfl⟩
        · exact absurd rfl hwork
      · exact absurd rfl hwork
    obtain ⟨b, seq, a, hb, hs, hstart⟩ := hbegun
    rcases startClosing_cases g.startWork with ⟨h, hnone⟩ | ⟨-, -, c, outcome, hc, ho, h⟩
    · refine Or.inr (Or.inl ⟨b, seq, a, hb, hs, by rw [progress, h, hstart], fun hd => ?_⟩)
      rw [hstart] at hnone
      exact hnone rfl hd
    · refine Or.inr (Or.inr ⟨c, outcome, hc, ?_, ?_, Or.inr ⟨b, seq, a, hb, hs⟩⟩)
      · rwa [startWork_members] at ho
      · rw [progress, h, hstart]

/-- A group that has moved on has nothing to move on from. -/
theorem progress_progress (g : ActiveGroup α) : g.progress.progress = g.progress := by
  rcases progress_cases g with ⟨h, -⟩ | ⟨b, seq, a, -, -, h, hnone⟩ | ⟨c, outcome, -, -, h, -⟩
  · rw [h, h]
  · rw [h, progress_of_working rfl]
    rcases startClosing_cases { g with phase := .working } with ⟨h', -⟩ | ⟨-, hd, c, outcome, -, ho, -⟩
    · exact h'
    · rw [hnone hd] at ho
      cases ho
  · rw [h, progress_of_closing rfl]

/-! ## Whose turn it is -/

theorem findIdx?_of_mayTurn (hd : g.discipline ≠ .concurrent) {i : Nat}
    (hmay : g.mayTurn i = true) : g.members.findIdx? (fun c => !c.isCompleted) = some i := by
  unfold ActiveGroup.mayTurn at hmay
  split at hmay
  · rename_i hconcurrent
    exact absurd hconcurrent hd
  · exact of_decide_eq_true hmay

/-- Only in a concurrent group may different calls have turns. -/
theorem concurrent_of_calls {target target' : Target} {c' : Call α}
    (hcall : g.call? target = some c) (hcall' : g.call? target' = some c')
    (hne : target ≠ target') : g.discipline = .concurrent ∧ g.phase = .working := by
  cases hp : g.phase with
  | opening b =>
    obtain ⟨rfl, -⟩ := (ActiveGroup.call?_of_opening hp).1 hcall
    obtain ⟨rfl, -⟩ := (ActiveGroup.call?_of_opening hp).1 hcall'
    exact absurd rfl hne
  | closing d outcome =>
    obtain ⟨rfl, -⟩ := (ActiveGroup.call?_of_closing hp).1 hcall
    obtain ⟨rfl, -⟩ := (ActiveGroup.call?_of_closing hp).1 hcall'
    exact absurd rfl hne
  | working =>
    refine ⟨?_, rfl⟩
    obtain ⟨i, rfl, hmay, -⟩ := (ActiveGroup.call?_of_working hp).1 hcall
    obtain ⟨j, rfl, hmay', -⟩ := (ActiveGroup.call?_of_working hp).1 hcall'
    by_contra hd
    have hi := findIdx?_of_mayTurn hd hmay
    rw [findIdx?_of_mayTurn hd hmay'] at hi
    exact hne (congrArg Target.member (Option.some.inj hi).symm)

end ActiveGroup

end Orchestration.Execution
