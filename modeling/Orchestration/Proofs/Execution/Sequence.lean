import Orchestration.Proofs.Execution.Trace

/-!
# Members called one after the other

Outside a concurrent group the members are called in the order of declaration, each after the one
before it has given its value. The first that is not complete is the one whose turn it is, and the
values given so far stand before what the others give.
-/

namespace Orchestration.Execution

variable {α : Type} {tr : List (Happening α)} {operations : List String} {values : List α}
  {c : Call α} {how : CallEnd α}

/-! ## What happens to the members -/

/-- What happens to a call that is made and ends. -/
def called (target : Target) (operation : String) (how : CallEnd α) : List (Happening α) :=
  [.made target operation, .ended target how]

@[simp] theorem made_mem_called {target target' : Target} {operation operation' : String} :
    .made target' operation' ∈ called target operation how ↔
      target' = target ∧ operation' = operation := by
  simp [called]

@[simp] theorem ended_mem_called {target target' : Target} {operation : String} {how' : CallEnd α} :
    .ended target' how' ∈ called target operation how ↔ target' = target ∧ how' = how := by
  simp [called]

/-- What happens to the first members when each of them gives its value. -/
inductive Gives (operations : List String) : List α → List (Happening α) → Prop where
  | none : Gives operations [] []
  | snoc {values : List α} {tr : List (Happening α)} {operation : String} {a : α}
      (gave : Gives operations values tr) (declared : operations[values.length]? = some operation) :
      Gives operations (values ++ [a])
        (tr ++ called (.member values.length) operation (.own (.value a)))

namespace Gives

theorem length_le (h : Gives operations values tr) : values.length ≤ operations.length := by
  cases h with
  | none => exact Nat.zero_le _
  | snoc gave declared =>
    rw [List.length_append, List.length_singleton]
    exact (List.getElem?_eq_some_iff.1 declared).1

theorem made_iff (h : Gives operations values tr) {target : Target} {operation : String} :
    .made target operation ∈ tr ↔
      ∃ i < values.length, target = .member i ∧ operations[i]? = some operation := by
  induction h with
  | none => simp
  | @snoc values tr operation' a gave declared ih =>
    rw [List.mem_append, ih, List.length_append, List.length_singleton]
    constructor
    · rintro (⟨i, hi, htarget, hop⟩ | hmem)
      · exact ⟨i, by omega, htarget, hop⟩
      · obtain ⟨rfl, rfl⟩ := made_mem_called.1 hmem
        exact ⟨values.length, by omega, rfl, declared⟩
    · rintro ⟨i, hi, rfl, hop⟩
      by_cases hlt : i < values.length
      · exact Or.inl ⟨i, hlt, rfl, hop⟩
      · obtain rfl : i = values.length := by omega
        rw [declared] at hop
        cases hop
        exact Or.inr (made_mem_called.2 ⟨rfl, rfl⟩)

theorem ended_iff (h : Gives operations values tr) {target : Target} {how : CallEnd α} :
    .ended target how ∈ tr ↔
      ∃ i a, values[i]? = some a ∧ target = .member i ∧ how = .own (.value a) := by
  induction h with
  | none => simp
  | @snoc values tr operation a gave declared ih =>
    rw [List.mem_append, ih]
    constructor
    · rintro (⟨i, a', ha, htarget, hhow⟩ | hmem)
      · have hi : i < values.length := (List.getElem?_eq_some_iff.1 ha).1
        exact ⟨i, a', by rw [List.getElem?_append_left hi, ha], htarget, hhow⟩
      · obtain ⟨rfl, rfl⟩ := ended_mem_called.1 hmem
        exact ⟨values.length, a, by simp, rfl, rfl⟩
    · rintro ⟨i, a', ha, rfl, rfl⟩
      by_cases hlt : i < values.length
      · rw [List.getElem?_append_left hlt] at ha
        exact Or.inl ⟨i, a', ha, rfl, rfl⟩
      · have hi : i < (values ++ [a]).length := (List.getElem?_eq_some_iff.1 ha).1
        rw [List.length_append, List.length_singleton] at hi
        obtain rfl : i = values.length := by omega
        obtain rfl : a = a' := by simpa using ha
        exact Or.inr (ended_mem_called.2 ⟨rfl, rfl⟩)

theorem target_of_made (h : Gives operations values tr) {target : Target} {operation : String}
    (hmem : .made target operation ∈ tr) : ∃ i, target = .member i := by
  obtain ⟨i, -, htarget, -⟩ := h.made_iff.1 hmem
  exact ⟨i, htarget⟩

theorem target_of_ended (h : Gives operations values tr) {target : Target}
    (hmem : .ended target how ∈ tr) : ∃ i, target = .member i := by
  obtain ⟨i, -, -, htarget, -⟩ := h.ended_iff.1 hmem
  exact ⟨i, htarget⟩

theorem member_made_iff (h : Gives operations values tr) {i : Nat} {operation : String} :
    .made (.member i) operation ∈ tr ↔ i < values.length ∧ operations[i]? = some operation := by
  rw [h.made_iff]
  simp

theorem member_ended_iff (h : Gives operations values tr) {i : Nat} :
    .ended (.member i) how ∈ tr ↔ ∃ a, values[i]? = some a ∧ how = .own (.value a) := by
  rw [h.ended_iff]
  simp

theorem exists_ended (h : Gives operations values tr) {i : Nat} (hi : i < values.length) :
    ∃ a, .ended (.member i) (.own (.value a)) ∈ tr :=
  ⟨values[i], h.member_ended_iff.2 ⟨_, List.getElem?_eq_getElem hi, rfl⟩⟩

end Gives

/-! ## The outcome of a sequence -/

theorem sequenceOutcome_nil_eq_ok_iff :
    sequenceOutcome ([] : List (Call α)) = some (.ok values) ↔ values = [] := by
  simp [sequenceOutcome, eq_comm]

theorem sequenceOutcome_cons_eq_ok_iff {calls : List (Call α)} :
    sequenceOutcome (c :: calls) = some (.ok values) ↔
      ∃ seq a first, c.state = .completed seq (.ok a) ∧
        sequenceOutcome calls = some (.ok first) ∧ values = a :: first := by
  rw [sequenceOutcome]
  cases hs : c.state with
  | completed seq result =>
    cases result with
    | error e => simp
    | ok a => rcases sequenceOutcome calls with _ | (e | first) <;> simp [Except.map, eq_comm]
  | _ => simp

/-- The values of members that come first stand before what the others give. -/
theorem sequenceOutcome_append {done : List (Call α)} (h : sequenceOutcome done = some (.ok values))
    (rest : List (Call α)) :
    sequenceOutcome (done ++ rest) = (sequenceOutcome rest).map fun r => r.map (values ++ ·) := by
  induction done generalizing values with
  | nil =>
    obtain rfl := sequenceOutcome_nil_eq_ok_iff.1 h
    rw [List.nil_append]
    rcases sequenceOutcome rest with _ | (e | later) <;> rfl
  | cons c done ih =>
    obtain ⟨seq, a, first, hs, hdone, rfl⟩ := sequenceOutcome_cons_eq_ok_iff.1 h
    rw [List.cons_append, sequenceOutcome, hs]
    dsimp only
    rw [ih hdone]
    rcases sequenceOutcome rest with _ | (e | later) <;> rfl

theorem length_of_sequenceOutcome {done : List (Call α)}
    (h : sequenceOutcome done = some (.ok values)) : done.length = values.length := by
  induction done generalizing values with
  | nil =>
    obtain rfl := sequenceOutcome_nil_eq_ok_iff.1 h
    rfl
  | cons c done ih =>
    obtain ⟨seq, a, first, -, hdone, rfl⟩ := sequenceOutcome_cons_eq_ok_iff.1 h
    rw [List.length_cons, List.length_cons, ih hdone]

/-- A sequence is not settled while it waits for a member. -/
theorem sequenceOutcome_eq_none {done rest : List (Call α)}
    (h : sequenceOutcome done = some (.ok values)) (hc : c.isCompleted = false) :
    sequenceOutcome (done ++ c :: rest) = none := by
  have hnone : sequenceOutcome (c :: rest) = none := by
    rw [sequenceOutcome]
    cases hs : c.state with
    | completed seq result => exact absurd hs (Call.isCompleted_eq_false_iff.1 hc seq result)
    | _ => rfl
  rw [sequenceOutcome_append h, hnone]
  rfl

/-- The first member that is not complete comes right after those that gave their values. -/
theorem findIdx?_of_sequenceOutcome {done rest : List (Call α)}
    (h : sequenceOutcome done = some (.ok values)) (hc : c.isCompleted = false) :
    (done ++ c :: rest).findIdx? (fun c => !c.isCompleted) = some values.length := by
  induction done generalizing values with
  | nil =>
    obtain rfl := sequenceOutcome_nil_eq_ok_iff.1 h
    simp [List.findIdx?_cons, hc]
  | cons d done ih =>
    obtain ⟨seq, a, first, hs, hdone, rfl⟩ := sequenceOutcome_cons_eq_ok_iff.1 h
    have hd : d.isCompleted = true := by simp [Call.isCompleted, hs]
    rw [List.cons_append, List.findIdx?_cons, hd, ih hdone]
    rfl

end Orchestration.Execution
