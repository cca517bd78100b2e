import Orchestration.Proofs.Execution.Stage

/-!
# How transactions are settled

A transaction is over when it cannot be begun or when it has been committed or rolled back. What has
happened by then is told from the stages it went through: each way out settles the transaction once,
if it was begun at all, and commits it only if every member gave its value.
-/

namespace Orchestration.Execution

variable {α : Type} {tr : List (Happening α)} {operations : List String} {values : List α}
  {g : ActiveGroup α} {c : Call α} {how : CallEnd α}

/-! ## What a transaction comes to -/

/-- What has happened in a transaction that is over, with its result. -/
inductive Transacts (operations : List String) :
    List (Happening α) → Except RunError (List α) → Prop where
  /-- It could not be begun. -/
  | refused {how : CallEnd α} {e : RunError}
      (error : how.result? .begin "begin" = some (.error e)) :
      Transacts operations (called .begin "begin" how) (.error e)
  /-- It was begun and settled. -/
  | settled {tr : List (Happening α)} {operation : String} {outcome : Except RunError (List α)}
      {ending : Ending α} {last : Except RunError α} (a : α)
      (course : Course operations tr operation outcome)
      (ended : (CallEnd.own ending).result? .commit operation = some last) :
      Transacts operations
        (called .begin "begin" (.own (.value a)) ++ tr ++ called .settle operation (.own ending))
        (ActiveGroup.closingOutcome outcome last)

/-- A transaction is over when it cannot be begun or when the call that settles it has completed. -/
def TransactionOver (tr : List (Happening α)) : Prop :=
  (∃ how, .ended .begin how ∈ tr ∧ how.fails = true) ∨
    ∃ how, .ended .settle how ∈ tr ∧ how.completes = true

/-! ### The members of a transaction -/

namespace Course

variable {operation : String} {outcome : Except RunError (List α)}

theorem target_of_made (h : Course operations tr operation outcome) {target : Target}
    {operation' : String} (hmem : .made target operation' ∈ tr) : ∃ i, target = .member i := by
  cases h with
  | complete gave all => exact gave.target_of_made hmem
  | brokenOff gave declared error =>
    rcases List.mem_append.mp hmem with hmem | hmem
    · exact gave.target_of_made hmem
    · exact ⟨_, (made_mem_called.1 hmem).1⟩

theorem target_of_ended (h : Course operations tr operation outcome) {target : Target}
    (hmem : .ended target how ∈ tr) : ∃ i, target = .member i := by
  cases h with
  | complete gave all => exact gave.target_of_ended hmem
  | brokenOff gave declared error =>
    rcases List.mem_append.mp hmem with hmem | hmem
    · exact gave.target_of_ended hmem
    · exact ⟨_, (ended_mem_called.1 hmem).1⟩

/-- The members called are the first ones, and all but the last of them gave their values. -/
theorem reached (h : Course operations tr operation outcome) : ∃ n ≤ operations.length,
    (∀ i operation', .made (.member i) operation' ∈ tr ↔
      i < n ∧ operations[i]? = some operation') ∧
    ∀ i, i + 1 < n → ∃ a, .ended (.member i) (.own (.value a)) ∈ tr := by
  cases h with
  | @complete values tr gave all =>
    refine ⟨values.length, gave.length_le, fun i operation' => gave.member_made_iff, ?_⟩
    intro i hi
    exact gave.exists_ended (by omega)
  | @brokenOff values tr operation how e gave declared error =>
    have hlt : values.length < operations.length := (List.getElem?_eq_some_iff.1 declared).1
    refine ⟨values.length + 1, hlt, fun i operation' => ?_, fun i hi => ?_⟩
    · rw [List.mem_append, gave.member_made_iff, made_mem_called, Target.member.injEq]
      constructor
      · rintro (⟨hi, hop⟩ | ⟨rfl, rfl⟩)
        · exact ⟨by omega, hop⟩
        · exact ⟨by omega, declared⟩
      · rintro ⟨hi, hop⟩
        by_cases hlast : i = values.length
        · rw [hlast, declared] at hop
          exact Or.inr ⟨hlast, (Option.some.inj hop).symm⟩
        · exact Or.inl ⟨by omega, hop⟩
    · obtain ⟨a, hmem⟩ := gave.exists_ended (show i < values.length by omega)
      exact ⟨a, List.mem_append_left _ hmem⟩

/-- A member that was called has ended. -/
theorem ended_of_made (h : Course operations tr operation outcome) {i : Nat} {operation' : String}
    (hmem : .made (.member i) operation' ∈ tr) : ∃ how, .ended (.member i) how ∈ tr := by
  cases h with
  | @complete values tr gave all =>
    obtain ⟨a, hended⟩ := gave.exists_ended (gave.member_made_iff.1 hmem).1
    exact ⟨_, hended⟩
  | @brokenOff values tr operation how e gave declared error =>
    rcases List.mem_append.mp hmem with hmem | hmem
    · obtain ⟨a, hended⟩ := gave.exists_ended (gave.member_made_iff.1 hmem).1
      exact ⟨_, List.mem_append_left _ hended⟩
    · obtain ⟨htarget, -⟩ := made_mem_called.1 hmem
      exact ⟨how, List.mem_append_right _ (ended_mem_called.2 ⟨htarget, rfl⟩)⟩

/-- The transaction is committed if all members have given their values, and only then. -/
theorem commit_iff (h : Course operations tr operation outcome) :
    operation = "commit" ↔
      ∀ i < operations.length, ∃ a, .ended (.member i) (.own (.value a)) ∈ tr := by
  cases h with
  | @complete values tr gave all =>
    refine iff_of_true rfl fun i hi => ?_
    exact gave.exists_ended (by omega)
  | @brokenOff values tr operation how e gave declared error =>
    refine iff_of_false (by decide) fun hall => ?_
    obtain ⟨a, hmem⟩ := hall values.length (List.getElem?_eq_some_iff.1 declared).1
    rcases List.mem_append.mp hmem with hmem | hmem
    · obtain ⟨a', hget, -⟩ := gave.member_ended_iff.1 hmem
      rw [List.getElem?_eq_none (Nat.le_refl _)] at hget
      cases hget
    · obtain ⟨-, rfl⟩ := ended_mem_called.1 hmem
      cases error

theorem commit_iff_ok (h : Course operations tr operation outcome) :
    operation = "commit" ↔ ∃ values, outcome = .ok values := by
  cases h with
  | complete gave all => exact iff_of_true rfl ⟨_, rfl⟩
  | brokenOff gave declared error => exact iff_of_false (by decide) (fun ⟨_, h⟩ => nomatch h)

theorem eq_commit_or_rollback (h : Course operations tr operation outcome) :
    operation = "commit" ∨ operation = "rollback" := by
  cases h with
  | complete gave all => exact Or.inl rfl
  | brokenOff gave declared error => exact Or.inr rfl

/-- The outcome for which it is committed is the values of the members. -/
theorem values_of_ok (h : Course operations tr operation (.ok values)) :
    values.length = operations.length ∧
      ∀ i a, values[i]? = some a ↔ .ended (.member i) (.own (.value a)) ∈ tr := by
  cases h with
  | complete gave all =>
    refine ⟨all, fun i a => ?_⟩
    rw [gave.member_ended_iff]
    simp

/-- The outcome for which it is rolled back is the error of the last member called. -/
theorem last_of_error {e : RunError} (h : Course operations tr operation (.error e)) :
    ∃ i operation' how, operations[i]? = some operation' ∧ .ended (.member i) how ∈ tr ∧
      (∀ j operation', .made (.member j) operation' ∈ tr → j ≤ i) ∧
      how.result? (.member operation') operation' = some (.error e) := by
  cases h with
  | @brokenOff values tr operation how _ gave declared error =>
    have hended : .ended (.member values.length) how ∈
        tr ++ called (.member values.length) operation how :=
      List.mem_append_right _ (ended_mem_called.2 ⟨rfl, rfl⟩)
    refine ⟨values.length, operation, how, declared, hended, ?_, error⟩
    intro j operation' hmem
    rcases List.mem_append.mp hmem with hmem | hmem
    · exact Nat.le_of_lt (gave.member_made_iff.1 hmem).1
    · obtain ⟨htarget, -⟩ := made_mem_called.1 hmem
      cases htarget
      exact Nat.le_refl _

end Course

/-! ### The end of a transaction -/

theorem Stage.transacts (h : Stage operations g tr) {result : Except RunError (List α)}
    (hresult : g.outcome? = some result) : g.isBroken = false ∧ Transacts operations tr result := by
  cases h with
  | @opening b tr hd hp hop hmembers hunbegun hbegun =>
    simp only [ActiveGroup.outcome?, hp] at hresult
    split at hresult
    · rename_i seq e hs
      cases hresult
      obtain ⟨how, hhow, rfl⟩ := hbegun.of_completed hs
      rw [hop] at hhow ⊢
      exact ⟨by simp [ActiveGroup.isBroken, hp, Call.isPanicked, hs], .refused hhow⟩
    · cases hresult
  | working hd hp hmembers hdeclared hgiven hgave hunfinished hcurrent =>
    simp only [ActiveGroup.outcome?, hp, hd] at hresult
    cases hresult
  | @closing c outcome a tr tr' hp hcourse hunraced hsettles =>
    simp only [ActiveGroup.outcome?, hp] at hresult
    split at hresult
    · rename_i seq last hs
      cases hresult
      obtain ⟨how, hhow, rfl⟩ := hsettles.of_completed hs
      refine ⟨by simp [ActiveGroup.isBroken, hp, Call.isPanicked, hs], ?_⟩
      cases how with
      | cancelled => exact absurd (by simp) hunraced
      | own ending => exact .settled a hcourse hhow
    · cases hresult

/-- A transaction that was begun is not over by what happens to its members. -/
theorem transactionOver_of_begun {tr tr' : List (Happening α)} {a : α}
    (hmembers : ∀ target how, .ended target how ∈ tr → ∃ i, target = .member i)
    (h : TransactionOver (called .begin "begin" (.own (.value a)) ++ tr ++ tr')) :
    TransactionOver tr' := by
  have hended : ∀ target how,
      .ended target how ∈ called .begin "begin" (.own (.value a)) ++ tr ++ tr' →
        (target = .begin ∧ how = .own (.value a)) ∨ (∃ i, target = .member i) ∨
          .ended target how ∈ tr' := by
    intro target how hmem
    rw [List.append_assoc, List.mem_append, List.mem_append, ended_mem_called] at hmem
    exact hmem.imp_right (Or.imp_left (hmembers target how))
  rcases h with ⟨how, hmem, hfails⟩ | ⟨how, hmem, hcompletes⟩
  · rcases hended _ _ hmem with ⟨-, rfl⟩ | ⟨i, htarget⟩ | hmem
    · cases hfails
    · cases htarget
    · exact Or.inl ⟨how, hmem, hfails⟩
  · rcases hended _ _ hmem with ⟨htarget, -⟩ | ⟨i, htarget⟩ | hmem
    · cases htarget
    · cases htarget
    · exact Or.inr ⟨how, hmem, hcompletes⟩

theorem Stage.exists_outcome (h : Stage operations g tr) (hover : TransactionOver tr) :
    ∃ result, g.outcome? = some result := by
  cases h with
  | @opening b tr hd hp hop hmembers hunbegun hbegun =>
    rcases hover with ⟨how, hmem, hfails⟩ | ⟨how, hmem, -⟩
    · obtain ⟨-, seq, hs⟩ := hbegun.of_ended hmem
      obtain ⟨e, he⟩ := CallEnd.fails_iff.1 hfails
      rw [CallEnd.state_eq_completed_iff.2 ⟨rfl, he⟩] at hs
      exact ⟨.error e, by simp only [ActiveGroup.outcome?, hp, hs]⟩
    · cases (hbegun.of_ended hmem).1
  | working hd hp hmembers hdeclared hgiven hgave hunfinished hcurrent =>
    rcases transactionOver_of_begun (fun _ _ => hgave.target_of_ended) hover with
      ⟨how, hmem, -⟩ | ⟨how, hmem, -⟩
    · cases (hcurrent.of_ended hmem).1
    · cases (hcurrent.of_ended hmem).1
  | @closing c outcome a tr tr' hp hcourse hunraced hsettles =>
    rcases transactionOver_of_begun (fun _ _ => hcourse.target_of_ended) hover with
      ⟨how, hmem, -⟩ | ⟨how, hmem, hcompletes⟩
    · cases (hsettles.of_ended hmem).1
    · obtain ⟨-, seq, hs⟩ := hsettles.of_ended hmem
      obtain ⟨last, hlast⟩ := CallEnd.completes_iff.1 hcompletes
      rw [CallEnd.state_eq_completed_iff.2 ⟨rfl, hlast⟩] at hs
      exact ⟨ActiveGroup.closingOutcome outcome last, by simp only [ActiveGroup.outcome?, hp, hs]⟩

theorem Transacts.transactionOver {result : Except RunError (List α)}
    (h : Transacts operations tr result) : TransactionOver tr := by
  cases h with
  | refused error => exact Or.inl ⟨_, by simp, CallEnd.fails_iff.2 ⟨_, error⟩⟩
  | settled a course ended => exact Or.inr ⟨_, by simp, CallEnd.completes_iff.2 ⟨_, ended⟩⟩

/-- Whether the transaction was begun. -/
def Begun (tr : List (Happening α)) : Prop :=
  ∃ a, .ended .begin (.own (.value a)) ∈ tr

/-- How a transaction went that is over with a result. -/
structure SettledOnce (operations : List String) (tr : List (Happening α))
    (result : Except RunError (List α)) : Prop where
  /-- If it could not be begun, nothing else was called, and the error says why. -/
  refused : ∀ how e, .ended .begin how ∈ tr → how.result? .begin "begin" = some (.error e) →
    tr = called .begin "begin" how ∧ result = .error e
  /-- Otherwise it was begun. -/
  begun : (∀ how, .ended .begin how ∈ tr → how.fails = false) → Begun tr
  /-- The members called are the first ones, and all but the last of them gave their values. -/
  reached : ∃ n ≤ operations.length,
    (∀ i operation, .made (.member i) operation ∈ tr ↔ i < n ∧ operations[i]? = some operation) ∧
      ∀ i, i + 1 < n → ∃ a, .ended (.member i) (.own (.value a)) ∈ tr
  /-- It was committed or rolled back once, after all members called had ended. -/
  settled : Begun tr → ∃ before operation how, tr = before ++ called .settle operation how ∧
    (operation = "commit" ∨ operation = "rollback") ∧
    (∀ operation', .made .settle operation' ∉ before) ∧
    ∀ i operation', .made (.member i) operation' ∈ before → ∃ how', .ended (.member i) how' ∈ before
  /-- It was committed if all members had given their values, and only then. -/
  commit_iff : Begun tr → (.made .settle "commit" ∈ tr ↔
    ∀ i < operations.length, ∃ a, .ended (.member i) (.own (.value a)) ∈ tr)
  /-- There are values if it was committed with success. -/
  ok_iff : (∃ values, result = .ok values) ↔
    .made .settle "commit" ∈ tr ∧ ∃ b, .ended .settle (.own (.value b)) ∈ tr
  /-- These are the values of the members, in the order of declaration. -/
  values : ∀ values, result = .ok values → values.length = operations.length ∧
    ∀ i a, values[i]? = some a ↔ .ended (.member i) (.own (.value a)) ∈ tr
  /-- The error is that of committing if committing failed. -/
  commit_error_iff : ∀ text, result = .error (.commit text) ↔
    .made .settle "commit" ∈ tr ∧ .ended .settle (.own (.failure text)) ∈ tr
  /-- If it was begun but not committed, the error is that of the last member called, however
  rolling back went. -/
  member_error : Begun tr → .made .settle "commit" ∉ tr → ∃ i operation how e,
    operations[i]? = some operation ∧ .ended (.member i) how ∈ tr ∧
    (∀ j operation', .made (.member j) operation' ∈ tr → j ≤ i) ∧
    how.result? (.member operation) operation = some (.error e) ∧ result = .error e

theorem settledOnce_of_refused {e : RunError} (h : how.result? .begin "begin" = some (.error e)) :
    SettledOnce operations (called .begin "begin" how) (.error e : Except RunError (List α)) := by
  have hfails : how.fails = true := CallEnd.fails_iff.2 ⟨e, h⟩
  have hunbegun : ¬ Begun (called .begin "begin" how) := by
    rintro ⟨a, hmem⟩
    obtain ⟨-, rfl⟩ := ended_mem_called.1 hmem
    cases hfails
  have herror : ∀ text, e ≠ .commit text := by
    rintro text rfl
    rcases CallEnd.eq_of_result?_eq_error h with ⟨_, -, heq⟩ | heq <;> cases heq
  constructor
  case refused =>
    intro how' e' hmem he'
    obtain ⟨-, rfl⟩ := ended_mem_called.1 hmem
    rw [h] at he'
    cases he'
    exact ⟨rfl, rfl⟩
  case begun =>
    intro hnot
    rw [hnot how (ended_mem_called.2 ⟨rfl, rfl⟩)] at hfails
    cases hfails
  case reached => exact ⟨0, Nat.zero_le _, by simp, by simp⟩
  case settled => exact fun hbegun => absurd hbegun hunbegun
  case commit_iff => exact fun hbegun => absurd hbegun hunbegun
  case ok_iff => simp
  case values =>
    intro values hvalues
    cases hvalues
  case commit_error_iff => simpa using herror
  case member_error => exact fun hbegun => absurd hbegun hunbegun

theorem closingOutcome_eq_ok_iff {outcome : Except RunError (List α)} {last : Except RunError α} :
    ActiveGroup.closingOutcome outcome last = .ok values ↔
      outcome = .ok values ∧ ∃ b, last = .ok b := by
  cases outcome <;> cases last <;> simp [ActiveGroup.closingOutcome]

theorem closingOutcome_eq_error_iff {outcome : Except RunError (List α)} {last : Except RunError α}
    {e : RunError} : ActiveGroup.closingOutcome outcome last = .error e ↔
      ((∃ values, outcome = .ok values) ∧ last = .error e) ∨ outcome = .error e := by
  cases outcome <;> cases last <;> simp [ActiveGroup.closingOutcome]

/-- What committing or rolling back gives is told by how it ends. -/
theorem settlement_result {operation : String} {ending : Ending α} {last : Except RunError α}
    (h : (CallEnd.own ending).result? .commit operation = some last) :
    (∀ b, last = .ok b ↔ ending = .value b) ∧
      ∀ text, last = .error (.commit text) ↔ ending = .failure text := by
  cases ending with
  | value b =>
    cases h
    simp
  | failure text =>
    cases h
    simp
  | panicWith => cases h

theorem settledOnce_of_course {operation : String} {outcome : Except RunError (List α)}
    {ending : Ending α} {last : Except RunError α} (a : α)
    (hcourse : Course operations tr operation outcome)
    (hlast : (CallEnd.own ending).result? .commit operation = some last) :
    SettledOnce operations
      (called .begin "begin" (.own (.value a)) ++ tr ++ called .settle operation (.own ending))
      (ActiveGroup.closingOutcome outcome last) := by
  generalize hfull :
    called .begin "begin" (.own (.value a)) ++ tr ++ called .settle operation (.own ending) = full
  have hmembers : ∀ i, (∀ operation', .made (.member i) operation' ∈ full ↔
      .made (.member i) operation' ∈ tr) ∧
      ∀ how, .ended (.member i) how ∈ full ↔ .ended (.member i) how ∈ tr := by
    simp [← hfull]
  have hmade : ∀ operation', .made .settle operation' ∉ tr := fun operation' hmem => by
    obtain ⟨i, htarget⟩ := hcourse.target_of_made hmem
    cases htarget
  have hcommit : .made .settle "commit" ∈ full ↔ operation = "commit" := by
    simp [← hfull, hmade, eq_comm]
  have hbegin : ∀ how, .ended .begin how ∈ full ↔ how = .own (.value a) := by
    intro how
    have hnot : .ended .begin how ∉ tr := fun hmem => by
      obtain ⟨i, htarget⟩ := hcourse.target_of_ended hmem
      cases htarget
    simp [← hfull, hnot]
  have hsettle : ∀ how, .ended .settle how ∈ full ↔ how = .own ending := by
    intro how
    have hnot : .ended .settle how ∉ tr := fun hmem => by
      obtain ⟨i, htarget⟩ := hcourse.target_of_ended hmem
      cases htarget
    simp [← hfull, hnot]
  obtain ⟨hok, herror⟩ := settlement_result hlast
  constructor
  case refused =>
    intro how e hmem he
    obtain rfl := (hbegin how).1 hmem
    cases he
  case begun => exact fun _ => ⟨a, (hbegin _).2 rfl⟩
  case reached => simpa only [hmembers] using hcourse.reached
  case settled =>
    intro _
    refine ⟨_, _, _, hfull.symm, hcourse.eq_commit_or_rollback, fun operation' => ?_, ?_⟩
    · simp [hmade]
    · intro i operation' hmem
      obtain ⟨how, hended⟩ := hcourse.ended_of_made (by simpa using hmem)
      exact ⟨how, List.mem_append_right _ hended⟩
  case commit_iff =>
    intro _
    simpa only [hcommit, hmembers] using hcourse.commit_iff
  case ok_iff =>
    simp only [closingOutcome_eq_ok_iff, exists_and_right, hcommit, hcourse.commit_iff_ok, hsettle,
      CallEnd.own.injEq, hok, @eq_comm _ _ ending]
  case values =>
    intro values hvalues
    obtain ⟨rfl, -⟩ := closingOutcome_eq_ok_iff.1 hvalues
    simpa only [hmembers] using hcourse.values_of_ok
  case commit_error_iff =>
    intro text
    have hnot : outcome ≠ .error (.commit text) := by
      rintro rfl
      obtain ⟨i, operation', how, -, -, -, herror⟩ := hcourse.last_of_error
      rcases CallEnd.eq_of_result?_eq_error herror with ⟨_, -, heq⟩ | heq <;> cases heq
    simp only [closingOutcome_eq_error_iff, hnot, or_false, hcommit, hcourse.commit_iff_ok, hsettle,
      CallEnd.own.injEq, herror, @eq_comm _ _ ending]
  case member_error =>
    intro _ hnot
    rw [hcommit, hcourse.commit_iff_ok] at hnot
    cases outcome with
    | ok values => exact absurd ⟨values, rfl⟩ hnot
    | error e =>
      obtain ⟨i, operation', how, hdeclared, hended, hlast, he⟩ := hcourse.last_of_error
      refine ⟨i, operation', how, e, hdeclared, ((hmembers i).2 how).2 hended, ?_, he, ?_⟩
      · simpa only [hmembers] using hlast
      · exact closingOutcome_eq_error_iff.2 (Or.inr rfl)

/-- A transaction that is over was settled once, or not at all if it could not be begun. -/
theorem Transacts.settledOnce {result : Except RunError (List α)}
    (h : Transacts operations tr result) : SettledOnce operations tr result := by
  cases h with
  | refused error => exact settledOnce_of_refused error
  | settled a course ended => exact settledOnce_of_course a course ended

/-! ## Groups of a run -/

/-- As long as a transaction is not over, one of its calls may have a turn. -/
theorem Stage.awaits (h : Stage operations g tr) (hopen : g.outcome? = none)
    (hwhole : g.isBroken = false) : ∃ target c, g.call? target = some c ∧ c.isOver = false := by
  cases h with
  | @opening b tr hd hp hop hmembers hunbegun hbegun =>
    refine ⟨.begin, b, (ActiveGroup.call?_of_opening hp).2 ⟨rfl, rfl⟩, ?_⟩
    have hpanicked : b.isPanicked = false := by simpa only [ActiveGroup.isBroken, hp] using hwhole
    have hcompleted : b.isCompleted = false := by
      refine Call.isCompleted_eq_false_iff.2 fun seq result hs => ?_
      cases result with
      | ok a => exact hunbegun seq a hs
      | error e => simp only [ActiveGroup.outcome?, hp, hs, reduceCtorEq] at hopen
    rw [Call.isOver, hcompleted, hpanicked, Bool.or_false]
  | @working done c rest values a tr tr' hd hp hmembers _ hgiven _ hunfinished _ =>
    have hmay : g.mayTurn values.length = true := by
      simp [ActiveGroup.mayTurn, hd, hmembers, findIdx?_of_sequenceOutcome hgiven hunfinished]
    have hc : g.members[values.length]? = some c := by
      rw [hmembers, ← length_of_sequenceOutcome hgiven]
      simp
    refine ⟨.member values.length, c, (ActiveGroup.call?_of_working hp).2 ⟨_, rfl, hmay, hc⟩, ?_⟩
    have hpanicked : c.isPanicked = false := by
      have hany : g.members.any Call.isPanicked = false := by
        simpa [ActiveGroup.isBroken, hp, hd] using hwhole
      rw [hmembers, List.any_append, List.any_cons] at hany
      exact (Bool.or_eq_false_iff.1 (Bool.or_eq_false_iff.1 hany).2).1
    rw [Call.isOver, hunfinished, hpanicked, Bool.or_false]
  | @closing c outcome a tr tr' hp hcourse hunraced hsettles =>
    refine ⟨.settle, c, (ActiveGroup.call?_of_closing hp).2 ⟨rfl, rfl⟩, ?_⟩
    have hpanicked : c.isPanicked = false := by simpa only [ActiveGroup.isBroken, hp] using hwhole
    have hcompleted : c.isCompleted = false := by
      refine Call.isCompleted_eq_false_iff.2 fun seq last hs => ?_
      simp only [ActiveGroup.outcome?, hp, hs, reduceCtorEq] at hopen
    rw [Call.isOver, hcompleted, hpanicked, Bool.or_false]

/-- How a transactional group at position `k` of a run goes, where `g` is the group after its turns
and `tr` is what has happened in it. -/
structure RunsTransaction (operations : List String) (r : Run α) (k : Nat) (g : ActiveGroup α)
    (tr : List (Happening α)) : Prop where
  /-- The run leaves the group when the transaction is over, and not before. -/
  left_iff : (∃ result, r.past[k]? = some (g, result)) ↔ TransactionOver tr
  /-- By then the transaction was settled once, or could not be begun. -/
  settled : ∀ g' result, r.past[k]? = some (g', result) → g' = g ∧ SettledOnce operations tr result
  /-- Until then a call of the group may have a turn, unless one has panicked. -/
  awaits : ¬ TransactionOver tr → g.isBroken = false →
    ∃ target c, g.call? target = some c ∧ c.isOver = false

/-- **A transactional group settles its transaction exactly once.** -/
theorem transactional_group_settles {codes : List GroupCode} {k : Nat} {code : GroupCode}
    (cancelled : Bool) (hcode : codes[k]? = some code)
    (htransactional : code.discipline = .transactional) (es : List (Event α)) :
    RunsTransaction code.operations ((Run.start cancelled codes).1.steps es).1 k
      ((Run.start cancelled codes).1.groupAfter k code es)
      ((Run.start cancelled codes).1.traceIn k code es) := by
  have hopen : (ActiveGroup.enter code : ActiveGroup α).outcome? = none := by
    simp only [ActiveGroup.outcome?, ActiveGroup.enter, htransactional, Call.idle]
  have h : Stage code.operations ((Run.start cancelled codes).1.groupAfter k code es)
      ((Run.start cancelled codes).1.traceIn k code es) :=
    stage_after htransactional ((Run.start cancelled codes).1.turnsIn k es)
  constructor
  case left_iff =>
    constructor
    · rintro ⟨result, hpast⟩
      obtain ⟨-, -, houtcome⟩ := (Run.past_eq_some_iff cancelled hcode hopen es).1 hpast
      exact (h.transacts houtcome).2.transactionOver
    · intro hover
      obtain ⟨result, houtcome⟩ := h.exists_outcome hover
      have hwhole := (h.transacts houtcome).1
      exact ⟨result, (Run.past_eq_some_iff cancelled hcode hopen es).2 ⟨rfl, hwhole, houtcome⟩⟩
  case settled =>
    intro g' result hpast
    obtain ⟨hg, -, houtcome⟩ := (Run.past_eq_some_iff cancelled hcode hopen es).1 hpast
    exact ⟨hg, (h.transacts houtcome).2.settledOnce⟩
  case awaits =>
    intro hnot hwhole
    refine h.awaits ?_ hwhole
    cases houtcome : ((Run.start cancelled codes).1.groupAfter k code es).outcome? with
    | none => rfl
    | some result => exact absurd (h.transacts houtcome).2.transactionOver hnot

/-- Three updates that are made together or not at all. -/
def updateCode : GroupCode :=
  ⟨.transactional, ["UpdatePost", "UpdateUser", "UpdateLog"]⟩

/-- The token is cancelled before the second update is made, and rolling back fails. -/
def updateEvents : List (Event String) :=
  [.turn .begin .pending, .turn .begin (.ended (.value "tx")),
    .turn (.member 0) (.ended (.value "post")), .cancel,
    .turn (.member 1) (.ended (.value "user")), .turn .settle (.ended (.failure "lost"))]

/-- The cancelled update is reported, not the failure to roll back. -/
theorem transactional_group_settles_cancelled :
    let r := ((Run.start false [updateCode]).1.steps updateEvents).1
    let tr := (Run.start false [updateCode]).1.traceIn 0 updateCode updateEvents
    [updateCode][0]? = some updateCode ∧ updateCode.discipline = .transactional ∧
      RunsTransaction updateCode.operations r 0
        ((Run.start false [updateCode]).1.groupAfter 0 updateCode updateEvents) tr ∧
      r.status = .returned ∧ r.results = [.error (.cancelled "UpdateUser")] ∧
      SettledOnce updateCode.operations tr (.error (.cancelled "UpdateUser")) := by
  intro r tr
  have hruns := transactional_group_settles false (rfl : [updateCode][0]? = some updateCode) rfl
    updateEvents
  obtain ⟨-, hsettled⟩ :=
    hruns.settled _ _ (rfl : r.past[0]? = some (_, .error (.cancelled "UpdateUser")))
  exact ⟨rfl, rfl, hruns, rfl, rfl, hsettled⟩

end Orchestration.Execution
