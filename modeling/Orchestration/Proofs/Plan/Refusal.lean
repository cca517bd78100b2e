import Orchestration.Proofs.Plan.Success

/-!
# The first problem of a schema

Compiling ends at the first member that is not admitted, and reports what is wrong with that member:
what the members before it bring in is collected, what comes after it is never looked at.
-/

namespace Orchestration

open PlanError (Cause)
open Naming (TakenNames)

namespace Compile

variable {catalog : Catalog} {st mid : Progress} {cause : Cause} {m : ResolvedMember}
  {op : OperationShape} {ms₁ ms₂ : List ResolvedMember} {pms : List PlanMember}

/-- Members are compiled in two stages as in one. -/
theorem members_append (catalog : Catalog) (st : Progress) (ms₁ ms₂ : List ResolvedMember) :
    members catalog st (ms₁ ++ ms₂) = do
      let (pms₁, mid) ← members catalog st ms₁
      let (pms₂, st') ← members catalog mid ms₂
      return (pms₁ ++ pms₂, st') := by
  induction ms₁ generalizing st with
  | nil =>
    simp only [List.nil_append, members, bind, Except.bind]
    cases members catalog st ms₂ <;> rfl
  | cons m ms₁ ih =>
    simp only [List.cons_append, members, bind, Except.bind, ih]
    cases member catalog st m with
    | error cause => rfl
    | ok compiled =>
      dsimp only
      cases members catalog compiled.2 ms₁ with
      | error cause => rfl
      | ok first =>
        dsimp only [pure, Except.pure]
        cases members catalog first.2 ms₂ <;> rfl

/-- A problem of the members of some groups is a problem of the groups. -/
theorem groups_eq_error {gs : List ResolvedGroup}
    (h : members catalog st (gs.flatMap ResolvedGroup.members) = .error cause) :
    groups catalog st gs = .error cause := by
  induction gs generalizing st with
  | nil => cases h
  | cons g gs ih =>
    rw [List.flatMap_cons, members_append] at h
    rw [groups]
    cases hg : members catalog st g.members with
    | error first =>
      rw [hg] at h
      cases h
      rfl
    | ok compiled =>
      rw [hg] at h
      obtain ⟨pms, mid⟩ := compiled
      cases hrest : members catalog mid (gs.flatMap ResolvedGroup.members) with
      | error later =>
        simp only [hrest, bind, Except.bind, Except.error.injEq] at h
        rw [h] at hrest
        simp only [ih hrest, bind, Except.bind]
      | ok others =>
        simp only [hrest, bind, Except.bind, pure, Except.pure, reduceCtorEq] at h

/-- The problem of a member after members without one is the problem of all of them. -/
theorem Walk.members_eq_error (h : Walk catalog st ms₁ pms mid)
    (hm : member catalog mid m = .error cause) :
    members catalog st (ms₁ ++ m :: ms₂) = .error cause := by
  have hnext : members catalog mid (m :: ms₂) = .error cause := by
    simp only [members, hm, bind, Except.bind]
  rw [members_append, members_eq_ok_iff.2 h]
  simp only [hnext, bind, Except.bind]

/-- Naming a result fails only if the name given for it is taken. -/
theorem nameResult_eq_error_iff {names : TakenNames} :
    nameResult names m op = .error cause ↔
      ∃ name, givenResultName? m op = some name ∧ name ∈ names.names ∧
        cause = .resultNameConflict m.operation name := by
  unfold nameResult givenResultName? wantsResult
  cases op.result.isErrorOnly with
  | true => simp
  | false =>
    cases m.resultMode with
    | suppress => simp
    | discard => simp
    | bind =>
      cases m.resultName with
      | none => simp
      | some given =>
        cases hc : names.claim? given with
        | none =>
          have hmem : given ∈ names.names := by
            by_contra h
            rw [TakenNames.claim?_eq_some_iff.2 ⟨h, rfl⟩] at hc
            cases hc
          simp [hc, hmem, eq_comm]
        | some taken =>
          obtain ⟨hfree, -⟩ := TakenNames.claim?_eq_some_iff.1 hc
          simp [hc, hfree]

/-- What can be wrong with a member, in the order in which it is looked for: its operation, its
argument, the name of its result. -/
theorem member_eq_error_iff :
    member catalog st m = .error cause ↔
      (catalog.get? m.operation = none ∧ cause = .unknownOperation m.operation) ∨
      ∃ op, catalog.get? m.operation = some op ∧
        ((∃ fault, op.fault = some fault ∧
            cause = .unanalyzableOperation m.operation fault.message) ∨
          op.fault = none ∧ (bindArgument st.params m op = .error cause ∨
            Bindable st.params m op ∧ nameResult st.names m op = .error cause)) := by
  unfold member
  cases catalog.get? m.operation with
  | none => simp [eq_comm]
  | some op =>
    cases hop : op.fault with
    | some fault => simp [hop, eq_comm]
    | none =>
      simp only [hop, reduceCtorEq, false_and, exists_false, false_or, Option.some.injEq,
        exists_eq_left', true_and, bind_eq_error_iff, Prod.exists, bindArgument_eq_ok_iff hop]
      refine or_congr_right ?_
      constructor
      · rintro ⟨_, _, ⟨hbind, rfl, rfl⟩, hname | ⟨_, _, -, h⟩⟩
        · exact ⟨hbind, hname⟩
        · cases h
      · rintro ⟨hbind, hname⟩
        exact ⟨_, _, ⟨hbind, rfl, rfl⟩, Or.inl hname⟩

/-- The problem of members is that of the first one that the state after those before it does not
admit. -/
theorem members_eq_error_iff {ms : List ResolvedMember} :
    members catalog st ms = .error cause ↔
      ∃ before m after pms mid, ms = before ++ m :: after ∧ Walk catalog st before pms mid ∧
        member catalog mid m = .error cause := by
  constructor
  · intro h
    induction ms generalizing st with
    | nil => cases h
    | cons m ms ih =>
      rw [members] at h
      rcases bind_eq_error_iff.1 h with hm | ⟨⟨pm, next⟩, hm, h⟩
      · exact ⟨[], m, ms, [], st, rfl, Walk.nil st, hm⟩
      rcases bind_eq_error_iff.1 h with hrest | ⟨_, -, h⟩
      · obtain ⟨op, hop, hadm, rfl, rfl⟩ := member_eq_ok_iff.1 hm
        obtain ⟨before, m', after, pms, mid, rfl, hwalk, hm'⟩ := ih hrest
        exact ⟨m :: before, m', after, _, mid, rfl, Walk.cons hop hadm hwalk, hm'⟩
      · cases h
  · rintro ⟨before, m, after, pms, mid, rfl, hwalk, hm⟩
    exact hwalk.members_eq_error hm

/-- Groups have the problem that their members have. -/
theorem groups_eq_error_iff {gs : List ResolvedGroup} :
    groups catalog st gs = .error cause ↔
      members catalog st (gs.flatMap ResolvedGroup.members) = .error cause := by
  constructor
  · intro h
    cases hm : members catalog st (gs.flatMap ResolvedGroup.members) with
    | error first =>
      rw [groups_eq_error hm] at h
      cases h
      rfl
    | ok compiled =>
      obtain ⟨pgs, hgroups⟩ := exists_groups (members_eq_ok_iff.1 hm)
      rw [hgroups] at h
      cases h
  · exact groups_eq_error

theorem member_eq_error_of_fault {fault : SignatureFault}
    (hop : catalog.get? m.operation = some op) (hfault : op.fault = some fault) :
    member catalog st m = .error (.unanalyzableOperation m.operation fault.message) := by
  simp only [member, hop, hfault]

end Compile

variable {catalog : Catalog} {s : ResolvedSchema} {scope : String} {m : ResolvedMember}
  {op : OperationShape} {before after : List ResolvedMember} {fault : SignatureFault} {cause : Cause}

theorem compile_eq_error (h : Compile.members catalog (Compile.start catalog s) s.members =
    .error cause) : s.compile catalog scope = .error ⟨s.name, cause⟩ := by
  simp only [ResolvedSchema.compile, Compile.groups_eq_error h, bind, Except.bind, Except.mapError]

/-- A schema without a plan has the problem of its first member that has one. -/
theorem compile_eq_error_iff {e : PlanError} :
    s.compile catalog scope = .error e ↔ e.schema = s.name ∧
      Compile.members catalog (Compile.start catalog s) s.members = .error e.cause := by
  constructor
  · intro h
    obtain ⟨cause, hcause, rfl⟩ := mapError_eq_error_iff.1 h
    rcases bind_eq_error_iff.1 hcause with hgroups | ⟨_, -, h⟩
    · exact ⟨rfl, Compile.groups_eq_error_iff.1 hgroups⟩
    · cases h
  · rintro ⟨hname, hmembers⟩
    rw [compile_eq_error hmembers, ← hname]

/-- A schema that uses an operation with a fault has no plan. -/
theorem not_compiles_of_fault (hs : s.members = before ++ m :: after)
    (hop : catalog.get? m.operation = some op) (hfault : op.fault = some fault) (p : Plan) :
    s.compile catalog scope ≠ .ok p := by
  intro h
  have hwalk := walk_of_compile h
  rw [hs] at hwalk
  obtain ⟨op', _, _, hop', hadmits, -⟩ := hwalk.at
  obtain rfl : op' = op := Option.some.inj (hop'.symm.trans hop)
  rw [hadmits.analyzable] at hfault
  cases hfault

/-- If every member before it can be compiled, the operation with a fault is what is reported. -/
theorem compile_eq_unanalyzable (hs : s.members = before ++ m :: after)
    (hop : catalog.get? m.operation = some op) (hfault : op.fault = some fault)
    (hbefore : ∀ earlier m' later, before = earlier ++ m' :: later →
      ∃ op', catalog.get? m'.operation = some op' ∧ Compilable catalog s earlier m' op') :
    s.compile catalog scope =
      .error ⟨s.name, .unanalyzableOperation m.operation fault.message⟩ := by
  obtain ⟨pms, mid, hwalk⟩ :
      ∃ pms mid, Compile.Walk catalog (Compile.start catalog s) before pms mid := by
    refine Compile.exists_walk_iff.2 fun earlier m' later he => ?_
    obtain ⟨op', hop', hcompilable⟩ := hbefore earlier m' later he
    exact ⟨op', hop', hcompilable.admits⟩
  refine compile_eq_error ?_
  rw [hs]
  exact hwalk.members_eq_error (Compile.member_eq_error_of_fault hop hfault)

end Orchestration
