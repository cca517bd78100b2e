import Orchestration.Proofs.Execution.Sequence

/-!
# Where a transaction stands

A transactional group begins a transaction, calls its members one after the other as long as they
give values, and then commits or rolls back. Where it stands tells what has happened in it, and
every turn keeps this.
-/

namespace Orchestration.Execution

variable {α : Type} {tr : List (Happening α)} {operations : List String} {values : List α}
  {g : ActiveGroup α} {c : Call α} {how : CallEnd α}

/-- How the members may have gone when no more of them is called: what has happened, the call that
settles the transaction then, and the outcome for which it does. -/
inductive Course (operations : List String) :
    List (Happening α) → String → Except RunError (List α) → Prop where
  /-- Every member gave its value. -/
  | complete {values : List α} {tr : List (Happening α)} (gave : Gives operations values tr)
      (all : values.length = operations.length) : Course operations tr "commit" (.ok values)
  /-- The members before one gave their values, and this one failed or was cancelled. -/
  | brokenOff {values : List α} {tr : List (Happening α)} {operation : String} {how : CallEnd α}
      {e : RunError} (gave : Gives operations values tr)
      (declared : operations[values.length]? = some operation)
      (error : how.result? (.member operation) operation = some (.error e)) :
      Course operations (tr ++ called (.member values.length) operation how) "rollback" (.error e)

/-- What has happened in a transactional group, by where it stands. -/
inductive Stage (operations : List String) (g : ActiveGroup α) : List (Happening α) → Prop where
  /-- The transaction is being begun. -/
  | opening {b : Call α} {tr : List (Happening α)} (discipline : g.discipline = .transactional)
      (phase : g.phase = .opening b) (operation : b.operation = "begin")
      (members : g.members = operations.map Call.idle)
      (unbegun : ∀ seq a, b.state ≠ .completed seq (.ok a)) (begun : b.Traced .begin .begin tr) :
      Stage operations g tr
  /-- The members before one have given their values, those after it have not been called. -/
  | working {done : List (Call α)} {c : Call α} {rest : List String} {values : List α} {a : α}
      {tr tr' : List (Happening α)} (discipline : g.discipline = .transactional)
      (phase : g.phase = .working) (members : g.members = done ++ c :: rest.map Call.idle)
      (declared : operations = done.map Call.operation ++ c.operation :: rest)
      (given : sequenceOutcome done = some (.ok values)) (gave : Gives operations values tr)
      (unfinished : c.isCompleted = false)
      (current : c.Traced (.member c.operation) (.member values.length) tr') :
      Stage operations g (called .begin "begin" (.own (.value a)) ++ tr ++ tr')
  /-- The transaction is being settled. Settling is not raced against cancellation. -/
  | closing {c : Call α} {outcome : Except RunError (List α)} {a : α} {tr tr' : List (Happening α)}
      (phase : g.phase = .closing c outcome) (course : Course operations tr c.operation outcome)
      (unraced : .ended .settle .cancelled ∉ tr') (settles : c.Traced .commit .settle tr') :
      Stage operations g (called .begin "begin" (.own (.value a)) ++ tr ++ tr')

theorem stage_enter {code : GroupCode} (h : code.discipline = .transactional) :
    Stage code.operations (ActiveGroup.enter code : ActiveGroup α) [] := by
  refine Stage.opening (b := Call.idle "begin") h ?_ rfl rfl (fun seq a hs => ?_) (.idle rfl)
  · simp only [ActiveGroup.enter, h]
  · cases hs

namespace ActiveGroup

theorem progress_of_opening {b : Call α} (hp : g.phase = .opening b)
    (hb : ∀ seq a, b.state ≠ .completed seq (.ok a)) : g.progress = g := by
  have hwork : g.startWork = g := by simp only [startWork, hp]
  rw [progress, hwork]
  simp only [startClosing, hp]

theorem progress_of_begun {b : Call α} {seq : Nat} {a : α} (hp : g.phase = .opening b)
    (hb : b.state = .completed seq (.ok a)) :
    g.progress = { g with phase := .working }.startClosing := by
  simp only [progress, startWork, hp, hb]

theorem progress_of_working (hp : g.phase = .working) : g.progress = g.startClosing := by
  simp only [progress, startWork, hp]

theorem startClosing_eq_self (hp : g.phase = .working) (hopen : sequenceOutcome g.members = none) :
    g.startClosing = g := by
  unfold startClosing
  rw [hp]
  cases g.discipline <;> simp only [hopen]

theorem progress_of_closing {outcome : Except RunError (List α)}
    (hp : g.phase = .closing c outcome) : g.progress = g := by
  simp only [progress, startWork, startClosing, hp]

end ActiveGroup

/-- A call that has just been made is idle, and nothing has happened to it. -/
theorem traced_idle (failure : String → RunError) (target : Target) (operation : String) :
    (Call.idle operation : Call α).Traced failure target [] :=
  .idle rfl

namespace Stage

/-- The members are settled as soon as none is left or one gives no value. -/
theorem settling {outcome : Except RunError (List α)} {operation : String}
    (hd : g.discipline = .transactional) (hp : g.phase = .working)
    (houtcome : sequenceOutcome g.members = some outcome)
    (hcourse : Course operations tr operation outcome) (a : α) :
    Stage operations g.startClosing (called .begin "begin" (.own (.value a)) ++ tr) := by
  rw [← List.append_nil (called .begin "begin" (.own (.value a)) ++ tr)]
  have hphase : g.startClosing.phase = .closing (Call.idle operation) outcome := by
    cases hcourse with
    | complete gave all => simp only [ActiveGroup.startClosing, hp, hd, houtcome]
    | brokenOff gave declared error => simp only [ActiveGroup.startClosing, hp, hd, houtcome]
  exact closing hphase hcourse List.not_mem_nil (traced_idle _ _ _)

/-- Once some members have given their values the next one is due, if there is one. -/
theorem arrive {done : List (Call α)} {rest : List String} (hd : g.discipline = .transactional)
    (hp : g.phase = .working) (hmembers : g.members = done ++ rest.map Call.idle)
    (hdeclared : operations = done.map Call.operation ++ rest)
    (hgiven : sequenceOutcome done = some (.ok values)) (hgave : Gives operations values tr)
    (a : α) : Stage operations g.startClosing (called .begin "begin" (.own (.value a)) ++ tr) := by
  have houtcome := sequenceOutcome_append hgiven (rest.map Call.idle)
  rw [← hmembers] at houtcome
  cases rest with
  | nil =>
    have hall : values.length = operations.length := by
      rw [hdeclared, ← length_of_sequenceOutcome hgiven]
      simp
    refine settling hd hp ?_ (Course.complete hgave hall) a
    rw [houtcome]
    simp [sequenceOutcome, Except.map]
  | cons operation rest =>
    have hnone : sequenceOutcome g.members = none := by
      rw [houtcome]
      rfl
    rw [ActiveGroup.startClosing_eq_self hp hnone,
      ← List.append_nil (called .begin "begin" (.own (.value a)) ++ tr)]
    exact working hd hp hmembers hdeclared hgiven hgave rfl (traced_idle _ _ _)

/-- What becomes of the group is up to the member whose turn it was. -/
theorem proceed {done : List (Call α)} {rest : List String} {tr' : List (Happening α)}
    (hd : g.discipline = .transactional) (hp : g.phase = .working)
    (hmembers : g.members = done ++ c :: rest.map Call.idle)
    (hdeclared : operations = done.map Call.operation ++ c.operation :: rest)
    (hgiven : sequenceOutcome done = some (.ok values)) (hgave : Gives operations values tr)
    (hcurrent : c.Traced (.member c.operation) (.member values.length) tr') (a : α) :
    Stage operations g.startClosing (called .begin "begin" (.own (.value a)) ++ tr ++ tr') := by
  have hlength := length_of_sequenceOutcome hgiven
  have hnow : operations[values.length]? = some c.operation := by
    rw [hdeclared, ← hlength, ← List.length_map Call.operation]
    simp
  have houtcome := sequenceOutcome_append hgiven (c :: rest.map Call.idle)
  rw [← hmembers] at houtcome
  by_cases hcompleted : ∃ seq result, c.state = .completed seq result
  · obtain ⟨seq, result, hs⟩ := hcompleted
    obtain ⟨how, hhow, rfl⟩ := hcurrent.of_completed hs
    rw [List.append_assoc]
    cases result with
    | error e =>
      refine settling hd hp ?_ (.brokenOff hgave hnow hhow) a
      rw [houtcome, sequenceOutcome, hs]
      rfl
    | ok value =>
      obtain rfl := CallEnd.result?_eq_ok_iff.1 hhow
      have hgiven' : sequenceOutcome (done ++ [c]) = some (.ok (values ++ [value])) := by
        rw [sequenceOutcome_append hgiven, sequenceOutcome, hs]
        rfl
      have hmembers' : g.members = (done ++ [c]) ++ rest.map Call.idle := by simp [hmembers]
      have hdeclared' : operations = (done ++ [c]).map Call.operation ++ rest := by simp [hdeclared]
      exact arrive hd hp hmembers' hdeclared' hgiven' (hgave.snoc hnow) a
  · have hunfinished : c.isCompleted = false :=
      Call.isCompleted_eq_false_iff.2 fun seq result hs => hcompleted ⟨seq, result, hs⟩
    have hnone : sequenceOutcome g.members = none := by
      rw [hmembers, sequenceOutcome_eq_none hgiven hunfinished]
    rw [ActiveGroup.startClosing_eq_self hp hnone]
    exact working hd hp hmembers hdeclared hgiven hgave hunfinished hcurrent

/-- Nothing is left to move on from. -/
theorem progress_eq (h : Stage operations g tr) : g.progress = g := by
  cases h with
  | opening hd hp hop hmembers hunbegun hbegun =>
    exact ActiveGroup.progress_of_opening hp hunbegun
  | working hd hp hmembers hdeclared hgiven hgave hunfinished hcurrent =>
    have hnone : sequenceOutcome g.members = none := by
      rw [hmembers, sequenceOutcome_eq_none hgiven hunfinished]
    rw [ActiveGroup.progress_of_working hp, ActiveGroup.startClosing_eq_self hp hnone]
  | closing hp hcourse hunraced hsettles => exact ActiveGroup.progress_of_closing hp

theorem next_opening {b : Call α} (hd : g.discipline = .transactional) (hp : g.phase = .opening b)
    (hop : b.operation = "begin") (hmembers : g.members = operations.map Call.idle)
    (hbegun : b.Traced .begin .begin tr) (cancelled : Bool) (answer : Answer α) :
    Stage operations (g.next ⟨cancelled, .begin, answer⟩)
      (tr ++ b.happenings .begin (answer.end? cancelled)) := by
  have htraced := hbegun.turn cancelled 0 answer
  have hop' := (Call.turn_operation b cancelled .begin 0 answer).trans hop
  rw [ActiveGroup.next, ActiveGroup.turn_begin hp]
  dsimp only
  generalize (b.turn cancelled .begin 0 answer).1 = b' at htraced hop'
  by_cases hok : ∃ seq a, b'.state = .completed seq (.ok a)
  · obtain ⟨seq, a, hs⟩ := hok
    obtain ⟨how, hhow, htrace⟩ := htraced.of_completed hs
    rw [CallEnd.result?_eq_ok_iff.1 hhow, hop'] at htrace
    rw [htrace, ActiveGroup.progress_of_begun rfl hs]
    have hnone : sequenceOutcome ([] : List (Call α)) = some (.ok []) := rfl
    refine arrive ?_ ?_ ?_ rfl hnone .none a
    · exact hd
    · rfl
    · exact hmembers
  · have hstill : ∀ seq a, b'.state ≠ .completed seq (.ok a) := fun seq a hs => hok ⟨seq, a, hs⟩
    rw [ActiveGroup.progress_of_opening rfl hstill]
    exact opening hd rfl hop' hmembers hstill htraced

theorem next_working {done : List (Call α)} {rest : List String} {tr' : List (Happening α)}
    (hd : g.discipline = .transactional) (hp : g.phase = .working)
    (hmembers : g.members = done ++ c :: rest.map Call.idle)
    (hdeclared : operations = done.map Call.operation ++ c.operation :: rest)
    (hgiven : sequenceOutcome done = some (.ok values)) (hgave : Gives operations values tr)
    (hcurrent : c.Traced (.member c.operation) (.member values.length) tr')
    (hcall : g.call? (.member values.length) = some c) (a : α) (cancelled : Bool)
    (answer : Answer α) :
    Stage operations (g.next ⟨cancelled, .member values.length, answer⟩)
      (called .begin "begin" (.own (.value a)) ++ tr ++
        (tr' ++ c.happenings (.member values.length) (answer.end? cancelled))) := by
  have htraced := hcurrent.turn cancelled g.completed answer
  have hop := Call.turn_operation c cancelled (.member c.operation) g.completed answer
  rw [ActiveGroup.next, ActiveGroup.turn_member hp hcall rfl]
  dsimp only
  generalize (c.turn cancelled (.member c.operation) g.completed answer).1 = c' at htraced hop ⊢
  rw [← hop] at htraced hdeclared
  have hset : g.members.set values.length c' = done ++ c' :: rest.map Call.idle := by
    have hlength := length_of_sequenceOutcome hgiven
    rw [hmembers, List.set_append_right _ _ (Nat.le_of_eq hlength), hlength, Nat.sub_self]
    rfl
  rw [hset, ActiveGroup.progress_of_working]
  · refine proceed ?_ ?_ ?_ hdeclared hgiven hgave htraced a
    · exact hd
    · exact hp
    · rfl
  · exact hp

theorem next_closing {outcome : Except RunError (List α)} {tr' : List (Happening α)}
    (hp : g.phase = .closing c outcome) (hcourse : Course operations tr c.operation outcome)
    (hunraced : .ended .settle .cancelled ∉ tr') (hsettles : c.Traced .commit .settle tr') (a : α)
    (cancelled : Bool) (answer : Answer α) :
    Stage operations (g.next ⟨cancelled, .settle, answer⟩)
      (called .begin "begin" (.own (.value a)) ++ tr ++
        (tr' ++ c.happenings .settle (answer.end? false))) := by
  have htraced := hsettles.turn false 0 answer
  have hop := Call.turn_operation c false .commit 0 answer
  rw [ActiveGroup.next, ActiveGroup.turn_settle hp]
  generalize (c.turn false .commit 0 answer).1 = c' at htraced hop ⊢
  rw [ActiveGroup.progress_of_closing rfl]
  rw [← hop] at hcourse
  refine closing rfl hcourse ?_ htraced
  rw [List.mem_append, not_or]
  refine ⟨hunraced, fun hmem => ?_⟩
  cases hover : c.isOver with
  | true => simp [Call.happenings, hover] at hmem
  | false =>
    obtain ⟨-, hend⟩ := (Call.mem_happenings_ended hover).1 hmem
    cases answer with
    | pending => cases hend
    | ended ending => cases hend

/-- Every turn leads from stage to stage. -/
theorem next (h : Stage operations g tr) (t : Turn α) :
    Stage operations (g.next t) (tr ++ g.happenings t) := by
  obtain ⟨cancelled, target, answer⟩ := t
  cases hcall : g.call? target with
  | none =>
    obtain ⟨hnext, hnothing⟩ := ActiveGroup.next_of_call?_eq_none
      (t := ⟨cancelled, target, answer⟩) hcall h.progress_eq
    rw [hnext, hnothing, List.append_nil]
    exact h
  | some d =>
    have hhappenings : g.happenings ⟨cancelled, target, answer⟩ =
        d.happenings target (answer.end? (cancelled && target ≠ .settle)) := by
      simp only [ActiveGroup.happenings, hcall]
    rw [hhappenings]
    cases h with
    | opening hd hp hop hmembers hunbegun hbegun =>
      obtain ⟨rfl, rfl⟩ := (ActiveGroup.call?_of_opening hp).1 hcall
      simpa using next_opening hd hp hop hmembers hbegun cancelled answer
    | working hd hp hmembers hdeclared hgiven hgave hunfinished hcurrent =>
      obtain ⟨i, rfl, hmay, hc⟩ := (ActiveGroup.call?_of_working hp).1 hcall
      simp only [ActiveGroup.mayTurn, hd, hmembers, decide_eq_true_eq,
        findIdx?_of_sequenceOutcome hgiven hunfinished, Option.some.injEq] at hmay
      subst hmay
      rw [hmembers, ← length_of_sequenceOutcome hgiven] at hc
      obtain rfl : _ = d := by simpa using hc
      rw [List.append_assoc]
      simpa using
        next_working hd hp hmembers hdeclared hgiven hgave hcurrent hcall _ cancelled answer
    | closing hp hcourse hunraced hsettles =>
      obtain ⟨rfl, rfl⟩ := (ActiveGroup.call?_of_closing hp).1 hcall
      rw [List.append_assoc]
      simpa using next_closing hp hcourse hunraced hsettles _ cancelled answer

end Stage

theorem stage_after {code : GroupCode} (h : code.discipline = .transactional) (ts : List (Turn α)) :
    Stage code.operations ((ActiveGroup.enter code).after ts) ((ActiveGroup.enter code).trace ts) :=
  ActiveGroup.after_induction (P := Stage code.operations) (fun _ _ t h => h.next t)
    (stage_enter h) ts

end Orchestration.Execution
