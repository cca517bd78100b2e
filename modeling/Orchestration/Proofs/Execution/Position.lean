import Orchestration.Proofs.Execution.Standing

/-!
# Where a run stands

Of the groups of a run, those that are over come first, and all of them but the last have given
values; then comes the group that runs, and the others have not been entered. Every turn falls to the
group that runs. What a turn keeps as long as its group is not over, it therefore keeps in every group
of every run.
-/

namespace Orchestration.Execution

variable {α : Type} {code : GroupCode} {codes : List GroupCode} {g : ActiveGroup α} {k : Nat}
  {cancelled : Bool}

namespace Run

variable {r : Run α}

/-- The groups past that were over as soon as they were entered are as they were entered. -/
def EnteredOver (codes : List GroupCode) (past : List (ActiveGroup α × Except RunError (List α))) :
    Prop :=
  ∀ (j : Nat) (code : GroupCode) (g : ActiveGroup α) (result : Except RunError (List α)),
    codes[j]? = some code → (ActiveGroup.enter code : ActiveGroup α).outcome? ≠ none →
      past[j]? = some (g, result) → g = ActiveGroup.enter code ∧ g.outcome? = some result

/-- The groups that a run came from, by where it stands. -/
structure Placed (codes : List GroupCode) (r : Run α) : Prop where
  /-- Unless it has returned, it has reached a group that is not over when it is entered. -/
  reached : r.status ≠ .returned → ∃ code later, codes.drop r.past.length = code :: later ∧
    (ActiveGroup.enter code : ActiveGroup α).outcome? = none
  /-- The groups behind the one that runs are those that wait. -/
  waiting : ∀ g later, r.status = .running g later → codes.drop (r.past.length + 1) = later
  unfinished : ∀ g later, r.status = .running g later → g.outcome? = none ∧ g.isBroken = false
  within : r.past.length ≤ codes.length
  /-- A group that fails is the last, and the run returns. -/
  failed : ∀ (j : Nat) (g : ActiveGroup α) (e : RunError), r.past[j]? = some (g, .error e) →
    j + 1 = r.past.length ∧ r.status = .returned
  /-- Otherwise it returns when all groups are over. -/
  complete : r.status = .returned → (∀ (j : Nat) (g : ActiveGroup α) (e : RunError),
    r.past[j]? ≠ some (g, .error e)) →
    r.past.length = codes.length
  early : EnteredOver codes r.past

theorem isBroken_enter (code : GroupCode) :
    (ActiveGroup.enter code : ActiveGroup α).isBroken = false := by
  unfold ActiveGroup.isBroken ActiveGroup.enter
  cases code.discipline <;> simp [Call.idle, Call.isPanicked]

theorem getElem?_concat_eq_some {past : List (ActiveGroup α × Except RunError (List α))}
    {x y : ActiveGroup α × Except RunError (List α)} {j : Nat} :
    (past ++ [x])[j]? = some y ↔ past[j]? = some y ∨ (j = past.length ∧ y = x) := by
  by_cases hlt : j < past.length
  · rw [List.getElem?_append_left hlt]
    constructor
    · exact Or.inl
    · rintro (h | ⟨rfl, -⟩)
      · exact h
      · exact absurd hlt (Nat.lt_irrefl _)
  · rw [List.getElem?_append_right (by omega)]
    have hnone : past[j]? = none := List.getElem?_eq_none (by omega)
    rw [hnone]
    by_cases hj : j = past.length
    · subst hj
      simp [eq_comm]
    · have hsub : ([x] : List _)[j - past.length]? = none := List.getElem?_eq_none (by
        rw [List.length_singleton]
        omega)
      simp [hsub, hj]

theorem getElem?_of_drop {n : Nat} {later : List GroupCode} (h : codes.drop n = code :: later) :
    codes[n]? = some code := by
  have hget : (codes.drop n)[0]? = some code := by
    rw [h]
    rfl
  rwa [List.getElem?_drop, Nat.add_zero] at hget

theorem drop_succ_of_drop {n : Nat} {later : List GroupCode} (h : codes.drop n = code :: later) :
    codes.drop (n + 1) = later := by
  rw [← List.drop_drop, h]
  rfl

theorem lt_length_of_drop {n : Nat} {later : List GroupCode} (h : codes.drop n = code :: later) :
    n < codes.length := by
  by_contra hle
  rw [List.drop_eq_nil_of_le (by omega)] at h
  cases h

/-- One more group is past. -/
theorem drop_concat {past : List (ActiveGroup α × Except RunError (List α))}
    {later : List GroupCode} (h : codes.drop past.length = code :: later)
    (x : ActiveGroup α × Except RunError (List α)) :
    codes.drop (past ++ [x]).length = later ∧ (past ++ [x]).length ≤ codes.length := by
  rw [List.length_append, List.length_singleton]
  exact ⟨drop_succ_of_drop h, lt_length_of_drop h⟩

theorem EnteredOver.concat {past : List (ActiveGroup α × Except RunError (List α))}
    {later : List GroupCode} (h : EnteredOver codes past)
    (hdrop : codes.drop past.length = code :: later) {result : Except RunError (List α)}
    (hg : (ActiveGroup.enter code : ActiveGroup α).outcome? ≠ none →
      g = ActiveGroup.enter code ∧ g.outcome? = some result) :
    EnteredOver codes (past ++ [(g, result)]) := by
  intro j code' g' result' hcode' hover hget
  rcases getElem?_concat_eq_some.1 hget with hget | ⟨rfl, heq⟩
  · exact h j code' g' result' hcode' hover hget
  · cases heq
    obtain rfl : code' = code := Option.some.inj (hcode'.symm.trans (getElem?_of_drop hdrop))
    exact hg hover

section Past

variable {past : List (ActiveGroup α × Except RunError (List α))} {later : List GroupCode}
  (hok : ∀ (j : Nat) (g : ActiveGroup α) (e : RunError), past[j]? ≠ some (g, .error e))

include hok

/-- A run whose next group is entered and not over. -/
theorem placed_running (hdrop : codes.drop past.length = code :: later)
    (hopen : (ActiveGroup.enter code : ActiveGroup α).outcome? = none) (hg : g.outcome? = none)
    (hwhole : g.isBroken = false) (hearly : EnteredOver codes past) :
    Placed codes ⟨cancelled, past, .running g later⟩ := by
  constructor
  case reached => exact fun _ => ⟨code, later, hdrop, hopen⟩
  case early => exact hearly
  case waiting =>
    rintro g' later' ⟨⟩
    exact drop_succ_of_drop hdrop
  case unfinished =>
    rintro g' later' ⟨⟩
    exact ⟨hg, hwhole⟩
  case within => exact Nat.le_of_lt (lt_length_of_drop hdrop)
  case failed => exact fun j g e h => absurd h (hok j g e)
  case complete => exact fun h => nomatch h

/-- A run whose last group has failed. -/
theorem placed_failed (hlt : past.length < codes.length) (g : ActiveGroup α) (e : RunError)
    (hearly : EnteredOver codes (past ++ [(g, .error e)])) :
    Placed codes ⟨cancelled, past ++ [(g, .error e)], .returned⟩ := by
  constructor
  case reached => exact fun h => absurd rfl h
  case early => exact hearly
  case waiting => exact fun g later h => nomatch h
  case unfinished => exact fun g later h => nomatch h
  case within =>
    rw [List.length_append, List.length_singleton]
    omega
  case failed =>
    intro j g' e' h
    rcases getElem?_concat_eq_some.1 h with h | ⟨rfl, -⟩
    · exact absurd h (hok j g' e')
    · exact ⟨by simp, rfl⟩
  case complete =>
    intro _ hnone
    exact absurd (getElem?_concat_eq_some.2 (Or.inr ⟨rfl, rfl⟩)) (hnone past.length g e)

theorem not_failed_concat (g : ActiveGroup α) (values : List α) (j : Nat) (g' : ActiveGroup α)
    (e : RunError) : (past ++ [(g, .ok values)])[j]? ≠ some (g', .error e) := by
  intro h
  rcases getElem?_concat_eq_some.1 h with h | ⟨-, h⟩
  · exact hok j g' e h
  · cases h

end Past

theorem placed_enterNext (cancelled : Bool) {rest : List GroupCode}
    {past : List (ActiveGroup α × Except RunError (List α))} (hrest : codes.drop past.length = rest)
    (hwithin : past.length ≤ codes.length)
    (hok : ∀ (j : Nat) (g : ActiveGroup α) (e : RunError), past[j]? ≠ some (g, .error e))
    (hearly : EnteredOver codes past) : Placed codes (enterNext cancelled past rest).1 := by
  induction rest generalizing past with
  | nil =>
    have hall : codes.length ≤ past.length := List.drop_eq_nil_iff.1 hrest
    constructor
    case reached => exact fun h => absurd rfl h
    case early => exact hearly
    case waiting => exact fun g later h => nomatch h
    case unfinished => exact fun g later h => nomatch h
    case within => exact hwithin
    case failed => exact fun j g e h => absurd h (hok j g e)
    case complete => exact fun _ _ => Nat.le_antisymm hwithin hall
  | cons code later ih =>
    have hlt := lt_length_of_drop hrest
    unfold enterNext
    dsimp only
    split
    · rename_i hopen
      exact placed_running hok hrest hopen hopen (isBroken_enter code) hearly
    · rename_i e he
      exact placed_failed hok hlt _ e (hearly.concat hrest fun _ => ⟨rfl, he⟩)
    · rename_i values hvalues
      obtain ⟨hlater, hwithin'⟩ := drop_concat hrest (ActiveGroup.enter code, .ok values)
      exact ih hlater hwithin' (not_failed_concat hok _ values)
        (hearly.concat hrest fun _ => ⟨rfl, hvalues⟩)

/-- A run that moves on to the next group goes on or returns. -/
theorem status_enterNext_ne {status : Status α} (hrunning : ∀ g later, status ≠ .running g later)
    (hreturned : status ≠ .returned) (cancelled : Bool)
    (past : List (ActiveGroup α × Except RunError (List α))) (codes : List GroupCode) :
    (enterNext cancelled past codes).1.status ≠ status := by
  induction codes generalizing past with
  | nil => exact hreturned.symm
  | cons code later ih =>
    unfold enterNext
    dsimp only
    split
    · exact (hrunning _ _).symm
    · exact hreturned.symm
    · exact ih _

theorem status_enterNext_ne_panicked (cancelled : Bool)
    (past : List (ActiveGroup α × Except RunError (List α))) (codes : List GroupCode) :
    (enterNext cancelled past codes).1.status ≠ .panicked := by
  refine status_enterNext_ne (fun g later heq => ?_) (fun heq => ?_) cancelled past codes <;> cases heq

theorem status_enterNext_ne_dropped (cancelled : Bool)
    (past : List (ActiveGroup α × Except RunError (List α))) (codes : List GroupCode) :
    (enterNext cancelled past codes).1.status ≠ .dropped := by
  refine status_enterNext_ne (fun g later heq => ?_) (fun heq => ?_) cancelled past codes <;> cases heq

theorem status_moveOn_ne_dropped (r : Run α) (g : ActiveGroup α) (later : List GroupCode) :
    (r.moveOn g later).1.status ≠ .dropped := by
  rcases moveOn_cases r g later with ⟨-, hr⟩ | ⟨-, hr⟩ | ⟨e, -, -, hr⟩ | ⟨values, -, -, hr⟩ <;> rw [hr]
  · exact fun heq => nomatch heq
  · exact fun heq => nomatch heq
  · exact fun heq => nomatch heq
  · exact status_enterNext_ne_dropped _ _ _

/-- Moving on from a group panics only where the group is broken. -/
theorem isBroken_of_moveOn (h : (r.moveOn g later).1.status = .panicked) :
    g.progress.isBroken = true ∧ (r.moveOn g later).1.past = r.past := by
  rcases moveOn_cases r g later with ⟨hb, hr⟩ | ⟨-, hr⟩ | ⟨e, -, -, hr⟩ | ⟨values, -, -, hr⟩
  · exact ⟨hb, by rw [hr]⟩
  · rw [hr] at h
    cases h
  · rw [hr] at h
    cases h
  · rw [hr] at h
    exact absurd h (status_enterNext_ne_panicked _ _ _)

theorem placed_start (codes : List GroupCode) (cancelled : Bool) :
    Placed codes (start cancelled codes : Run α × List Note).1 :=
  placed_enterNext cancelled rfl (Nat.zero_le _) (fun _ _ _ h => nomatch h)
    fun _ _ _ _ _ _ h => nomatch h

/-- While a run has not returned, none of its groups has failed. -/
theorem Placed.not_failed (h : Placed codes r) (hs : r.status ≠ .returned) (j : Nat)
    (g : ActiveGroup α) (e : RunError) : r.past[j]? ≠ some (g, .error e) :=
  fun hj => hs (h.failed j g e hj).2

/-- The group that runs was not over when it was entered. -/
theorem Placed.entered (h : Placed codes r) {later : List GroupCode}
    (hs : r.status = .running g later) : ∃ code, codes.drop r.past.length = code :: later ∧
      (ActiveGroup.enter code : ActiveGroup α).outcome? = none := by
  obtain ⟨code, rest, hdrop, hopen⟩ := h.reached (unreturned_of_running hs)
  have hrest : rest = later := (drop_succ_of_drop hdrop).symm.trans (h.waiting g later hs)
  exact ⟨code, hrest ▸ hdrop, hopen⟩

/-- Whether the token of a run is cancelled has no part in where it stands. -/
theorem Placed.congr (h : Placed codes r) {r' : Run α} (hpast : r'.past = r.past)
    (hstatus : r'.status = r.status) : Placed codes r' := by
  obtain ⟨cancelled', past, status⟩ := r'
  cases hpast
  cases hstatus
  exact ⟨h.reached, h.waiting, h.unfinished, h.within, h.failed, h.complete, h.early⟩

theorem Placed.stop (h : Placed codes r) (hs : r.status ≠ .returned) {status : Status α}
    (hrunning : ∀ g later, status ≠ .running g later) (hreturned : status ≠ .returned) :
    Placed codes { r with status } := by
  constructor
  case reached => exact fun _ => h.reached hs
  case early => exact h.early
  case waiting => exact fun g later hstatus => absurd hstatus (hrunning g later)
  case unfinished => exact fun g later hstatus => absurd hstatus (hrunning g later)
  case within => exact h.within
  case failed => exact fun j g e hj => absurd hj (h.not_failed hs j g e)
  case complete => exact fun hstatus => absurd hstatus hreturned

theorem Placed.moveOn (h : Placed codes r) {g₀ : ActiveGroup α} {later : List GroupCode}
    (hs : r.status = .running g₀ later) (g : ActiveGroup α) :
    Placed codes (r.moveOn g later).1 := by
  have hreturned := unreturned_of_running hs
  have hok := h.not_failed hreturned
  obtain ⟨code, hdrop, hopen⟩ := h.entered hs
  have hlt := lt_length_of_drop hdrop
  rcases moveOn_cases r g later with ⟨-, hr⟩ | ⟨ho, hr⟩ | ⟨e, -, -, hr⟩ | ⟨values, -, -, hr⟩
  · rw [hr]
    exact h.stop hreturned (fun _ _ heq => nomatch heq) (fun heq => nomatch heq)
  · have hwhole : g.progress.isBroken = false := by
      cases hb : g.progress.isBroken with
      | false => rfl
      | true =>
        rw [Run.moveOn, if_pos hb] at hr
        cases congrArg Run.status hr
    rw [hr]
    exact placed_running hok hdrop hopen ho hwhole h.early
  · rw [hr]
    exact placed_failed hok hlt _ e (h.early.concat hdrop fun hover => absurd hopen hover)
  · obtain ⟨hlater, hwithin⟩ := drop_concat hdrop (g.progress, .ok values)
    rw [hr]
    exact placed_enterNext r.cancelled hlater hwithin (not_failed_concat hok _ values)
      (h.early.concat hdrop fun hover => absurd hopen hover)

theorem Placed.step (h : Placed codes r) (e : Event α) : Placed codes (r.step e).1 := by
  rcases r.step_cases e with
    ⟨hpast, hstatus, -⟩ | ⟨-, hreturned, hstep⟩ | ⟨g, later, target, answer, hs, -, hstep⟩
  · exact h.congr hpast hstatus
  · rw [hstep]
    exact h.stop hreturned (fun _ _ heq => by cases heq) (fun heq => by cases heq)
  · rw [hstep]
    exact h.moveOn hs _

theorem Placed.steps (h : Placed codes r) (es : List (Event α)) : Placed codes (r.steps es).1 := by
  induction es generalizing r with
  | nil => exact h
  | cons e rest ih => exact ih (h.step e)

/-- Only one event drops a run. -/
theorem eq_drop_of_dropped (hs : r.status ≠ .dropped) {e : Event α}
    (h : (r.step e).1.status = .dropped) : e = .drop := by
  rcases r.step_cases e with
    ⟨-, hsame, -⟩ | ⟨hdrop, -, -⟩ | ⟨g, later, target, answer, -, -, hstep⟩
  · exact absurd (hsame.symm.trans h) hs
  · exact hdrop
  · rw [hstep] at h
    exact absurd h (status_moveOn_ne_dropped _ _ _)

theorem drop_mem_of_dropped (hs : r.status ≠ .dropped) {es : List (Event α)}
    (h : (r.steps es).1.status = .dropped) : .drop ∈ es := by
  induction es generalizing r with
  | nil => exact absurd h hs
  | cons e rest ih =>
    by_cases hone : (r.step e).1.status = .dropped
    · rw [eq_drop_of_dropped hs hone]
      exact List.mem_cons_self ..
    · exact List.mem_cons_of_mem e (ih hone h)

/-! ## Turns -/

theorem steps_append (r : Run α) (es fs : List (Event α)) :
    (r.steps (es ++ fs)).1 = ((r.steps es).1.steps fs).1 := by
  induction es generalizing r with
  | nil => rfl
  | cons e rest ih => exact ih (r.step e).1

theorem turnsIn_append (k : Nat) (r : Run α) (es fs : List (Event α)) :
    r.turnsIn k (es ++ fs) = r.turnsIn k es ++ (r.steps es).1.turnsIn k fs := by
  induction es generalizing r with
  | nil => rfl
  | cons e rest ih =>
    have hrest := ih (r.step e).1
    rw [List.cons_append, turnsIn, turnsIn, hrest, List.append_assoc]
    rfl

theorem turnIn?_eq_some {e : Event α} {t : Turn α} (h : r.turnIn? k e = some t) :
    r.past.length = k ∧ ∃ g later, r.status = .running g later ∧
      ∃ target answer, e = .turn target answer ∧ t = ⟨r.cancelled, target, answer⟩ := by
  unfold turnIn? at h
  split at h
  · rename_i target answer
    split at h
    · rename_i g later hs
      split at h
      · rename_i hk
        cases h
        exact ⟨hk, g, later, hs, target, answer, rfl, rfl⟩
      · cases h
    · cases h
  · cases h

theorem turnIn?_of_running {later : List GroupCode} (hs : r.status = .running g later)
    (hk : r.past.length = k) (target : Target) (answer : Answer α) :
    r.turnIn? k (.turn target answer) = some ⟨r.cancelled, target, answer⟩ := by
  simp only [turnIn?, hs, if_pos hk]

theorem past_prefix_steps (r : Run α) (es : List (Event α)) : r.past <+: (r.steps es).1.past := by
  induction es generalizing r with
  | nil => exact List.prefix_refl r.past
  | cons e rest ih => exact (past_prefix_step r e).trans (ih _)

/-- A run that moves on without returning stays in its group or has one more group over. -/
theorem grows_or_not_returned_moveOn (r : Run α) (g : ActiveGroup α) (later : List GroupCode) :
    r.past.length < (r.moveOn g later).1.past.length ∨ (r.moveOn g later).1.status ≠ .returned := by
  rcases moveOn_cases r g later with ⟨-, hr⟩ | ⟨-, hr⟩ | ⟨e, -, -, hr⟩ | ⟨values, -, -, hr⟩
  · exact Or.inr (by simp [hr])
  · exact Or.inr (by simp [hr])
  · exact Or.inl (by simp [hr])
  · left
    have hle := (past_prefix_enterNext r.cancelled (r.past ++ [(g.progress, .ok values)])
      later).length_le
    rw [List.length_append, List.length_singleton] at hle
    rw [hr]
    omega

/-- A run that has not returned returns only by having one more group over. -/
theorem grows_or_not_returned (hs : r.status ≠ .returned) (es : List (Event α)) :
    r.past.length < (r.steps es).1.past.length ∨ (r.steps es).1.status ≠ .returned := by
  induction es generalizing r with
  | nil => exact Or.inr hs
  | cons e rest ih =>
    have hone : r.past.length < (r.step e).1.past.length ∨ (r.step e).1.status ≠ .returned := by
      rcases r.step_cases e with
        ⟨-, hstatus, -⟩ | ⟨-, -, hstep⟩ | ⟨g, later, target, answer, -, -, hstep⟩
      · exact Or.inr (hstatus ▸ hs)
      · exact Or.inr (by simp [hstep])
      · rw [hstep]
        exact grows_or_not_returned_moveOn r _ later
    rcases hone with hlt | hnot
    · exact Or.inl (Nat.lt_of_lt_of_le hlt (past_prefix_steps _ rest).length_le)
    · rcases ih hnot with hlt | hreturned
      · exact Or.inl (Nat.lt_of_le_of_lt (past_prefix_step r e).length_le hlt)
      · exact Or.inr hreturned

/-- The group that has a turn is no further than the run, and the run has not returned since. -/
theorem le_of_turnsIn_ne_nil {es : List (Event α)} (h : r.turnsIn k es ≠ []) :
    k ≤ (r.steps es).1.past.length ∧
      (k = (r.steps es).1.past.length → (r.steps es).1.status ≠ .returned) := by
  induction es generalizing r with
  | nil => exact absurd rfl h
  | cons e rest ih =>
    cases hturn : r.turnIn? k e with
    | none =>
      have hrest : (r.step e).1.turnsIn k rest ≠ [] := by
        intro hrest
        apply h
        rw [turnsIn, hturn, hrest]
        rfl
      exact ih hrest
    | some t =>
      obtain ⟨hk, g, later, hs, -⟩ := turnIn?_eq_some hturn
      have hle := (past_prefix_steps r (e :: rest)).length_le
      rcases grows_or_not_returned (unreturned_of_running hs) (e :: rest) with hlt | hnot
      · exact ⟨by omega, fun heq => by omega⟩
      · exact ⟨by omega, fun _ => hnot⟩

/-- A group that is over as soon as it is entered has no turns. -/
theorem turnsIn_eq_nil_of_over (h : Placed codes r) (hcode : codes[k]? = some code)
    (hover : (ActiveGroup.enter code : ActiveGroup α).outcome? ≠ none) (es : List (Event α)) :
    r.turnsIn k es = [] := by
  induction es generalizing r with
  | nil => rfl
  | cons e rest ih =>
    rw [turnsIn, ih (h.step e), List.append_nil]
    cases hturn : r.turnIn? k e with
    | none => rfl
    | some t =>
      obtain ⟨hk, g, later, hs, -⟩ := turnIn?_eq_some hturn
      obtain ⟨code', hdrop, hopen⟩ := h.entered hs
      have hget := getElem?_of_drop hdrop
      rw [hk, hcode] at hget
      cases hget
      exact absurd hopen hover

/-! ## What every turn keeps -/

theorem Follows.outcome?_of_turn (h : Follows k code r g) {e : Event α} {t : Turn α}
    (ht : r.turnIn? k e = some t) : g.outcome? = none := by
  obtain ⟨hk, g₀, later, hs, -⟩ := turnIn?_eq_some ht
  cases h with
  | ahead _ _ hposition => omega
  | inside hs' hunfinished _ => exact hunfinished
  | left hentry _ _ =>
    have hlt := (List.getElem?_eq_some_iff.1 hentry).1
    omega
  | stopped hstopped _ _ => exact absurd hs (hstopped g₀ later)

theorem Follows.eq_of_running (h : Follows k code r g) {g₀ : ActiveGroup α}
    {later : List GroupCode} (hs : r.status = .running g₀ later) (hk : r.past.length = k) :
    g = g₀ := by
  cases h with
  | ahead _ _ hposition => omega
  | inside hs' _ _ =>
    rw [hs] at hs'
    cases hs'
    rfl
  | left hentry _ _ =>
    have hlt := (List.getElem?_eq_some_iff.1 hentry).1
    omega
  | stopped hstopped _ _ => exact absurd hs (hstopped g₀ later)

/-- What every turn of a group keeps as long as the group is not over holds of it at every moment of a
run. -/
theorem Follows.induction {P : ActiveGroup α → List (Happening α) → Prop}
    (hstep : ∀ g tr t, P g tr → g.outcome? = none → P (g.next t) (tr ++ g.happenings t))
    (hopen : (ActiveGroup.enter code : ActiveGroup α).outcome? = none) (h : Follows k code r g)
    {tr : List (Happening α)} (hP : P g tr) (es : List (Event α)) :
    P (g.after (r.turnsIn k es)) (tr ++ g.trace (r.turnsIn k es)) := by
  induction es generalizing r g tr with
  | nil =>
    show P g (tr ++ [])
    rw [List.append_nil]
    exact hP
  | cons e rest ih =>
    have hfollows := h.step hopen e
    rw [turnsIn]
    cases hturn : r.turnIn? k e with
    | none =>
      rw [hturn] at hfollows
      exact ih hfollows hP
    | some t =>
      rw [hturn] at hfollows
      have hnext := ih hfollows (hstep g tr t hP (h.outcome?_of_turn hturn))
      rw [List.append_assoc] at hnext
      exact hnext

/-- A run in which a call panicked that has no task of its own has stopped in the group of the call. -/
theorem Follows.isBroken_of_panicked
    (hopen : (ActiveGroup.enter code : ActiveGroup α).outcome? = none) (h : Follows k code r g)
    (hbroken : r.status = .panicked → r.past.length = k → g.isBroken = true) (es : List (Event α))
    (hs : (r.steps es).1.status = .panicked) (hk : (r.steps es).1.past.length = k) :
    (g.after (r.turnsIn k es)).isBroken = true := by
  induction es generalizing r g with
  | nil => exact hbroken hs hk
  | cons e rest ih =>
    have hfollows := h.step hopen e
    rw [turnsIn, ActiveGroup.after_append]
    refine ih hfollows (fun hpanicked hlength => ?_) hs hk
    rcases r.step_cases e with
      ⟨hpast, hsame, hturn⟩ | ⟨-, -, hstep⟩ | ⟨g₀, later, target, answer, hrunning, rfl, hstep⟩
    · rw [hturn k]
      exact hbroken (hsame ▸ hpanicked) (hpast ▸ hlength)
    · rw [hstep] at hpanicked
      cases hpanicked
    · rw [hstep] at hpanicked hlength
      obtain ⟨hb, hpast⟩ := isBroken_of_moveOn hpanicked
      rw [hpast] at hlength
      rw [turnIn?_of_running hrunning hlength, h.eq_of_running hrunning hlength]
      exact hb

end Run

end Orchestration.Execution
