import Orchestration.Plan.Compile
import Orchestration.Proofs.Naming.Allocator
import Orchestration.Proofs.Plan.Params
import Orchestration.Proofs.Schema.Resolved

/-!
# The walk over a schema

Compiling is a walk over the members of a schema, whatever groups they stand in. `Walk` relates the
state before the walk, the members, their compiled forms and the state after it; it holds exactly of
what the compiler computes. One step asks of the state only what `Admits` says, and the state after
any members is a function of the state before and the members.
-/

namespace Orchestration

open PlanError (Cause)

/-- The members of all groups, in order. -/
def Plan.members (p : Plan) : List PlanMember :=
  p.groups.flatMap PlanGroup.members

namespace Compile

open Naming (TakenNames)

variable {catalog : Catalog} {st st' : Progress} {names names' : TakenNames}
  {m : ResolvedMember} {op : OperationShape} {pm : PlanMember}
  {ms ms₁ ms₂ : List ResolvedMember} {pms : List PlanMember}

/-! ## One member -/

/-- Whether a member has a result and asks for it to be bound. -/
def wantsResult (m : ResolvedMember) (op : OperationShape) : Bool :=
  !op.result.isErrorOnly && m.resultMode = .bind

/-- The name given for a result that is to be bound. -/
def givenResultName? (m : ResolvedMember) (op : OperationShape) : Option String :=
  if wantsResult m op then m.resultName else none

/-- The default name of a result, which a member without a given name starts from. -/
def resultBase (op : OperationShape) : String :=
  Naming.resultName op.result.typeName op.result.isCollection

/-- The name that a member claims for its result when `names` are taken: the given one, or one
derived from the type of the result. -/
def claimedName? (names : TakenNames) (m : ResolvedMember) (op : OperationShape) : Option String :=
  if wantsResult m op then some (m.resultName.getD (names.derivedName (resultBase op))) else none

/-- What the result of a member is called. -/
def memberVar (names : TakenNames) (m : ResolvedMember) (op : OperationShape) : String :=
  match claimedName? names m op with
  | some name => name
  | none => if !op.result.isErrorOnly && m.resultMode = .discard then discardMarker else ""

/-- The compiled form of a member. -/
def planMember (names : TakenNames) (m : ResolvedMember) (op : OperationShape) : PlanMember :=
  { operation := m.operation
    resultVar := memberVar names m op
    resultType := op.result.typeName
    resultIsCollection := op.result.isCollection
    isErrorOnly := op.result.isErrorOnly
    binding := memberBinding m op }

/-- The state after a member. -/
def Progress.next (st : Progress) (m : ResolvedMember) (op : OperationShape) : Progress :=
  ⟨(broughtParam? m op).toList.foldl Table.collect st.params,
    (claimedName? st.names m op).toList.foldl TakenNames.insert st.names⟩

/-- What a member needs of the state that it is compiled in. -/
structure Admits (st : Progress) (m : ResolvedMember) (op : OperationShape) : Prop where
  analyzable : op.fault = none
  bindable : Bindable st.params m op
  nameFree : ∀ name, givenResultName? m op = some name → name ∉ st.names.names

theorem bindsResult_planMember_of_none (h : claimedName? names m op = none) :
    (planMember names m op).bindsResult = false := by
  have hvar : memberVar names m op = discardMarker ∨ memberVar names m op = "" := by
    unfold memberVar
    rw [h]
    by_cases hd : (!op.result.isErrorOnly && m.resultMode = .discard) = true
    · exact Or.inl (if_pos hd)
    · exact Or.inr (if_neg hd)
  rcases hvar with h | h <;> simp [PlanMember.bindsResult, planMember, h, discardMarker]

theorem resultVar_planMember_of_some {name : String} (h : claimedName? names m op = some name) :
    (planMember names m op).resultVar = name := by
  show memberVar names m op = name
  unfold memberVar
  rw [h]

/-- The name that a member asks for: the given one, or the default name of its result. -/
def askedName? (m : ResolvedMember) (op : OperationShape) : Option String :=
  if wantsResult m op then some (m.resultName.getD (resultBase op)) else none

/-- The names that may be handed out when one is asked for: that name if it is free, or a name
derived from it. -/
inductive Answer (names : TakenNames) (asked : String) : String → Prop where
  /-- The schema gives the name. -/
  | given (free : asked ∉ names.names) : Answer names asked asked
  /-- The name is the default one of the result. -/
  | derived : Answer names asked (names.derivedName asked)

theorem Answer.notMem {asked claimed : String} (h : Answer names asked claimed) :
    claimed ∉ names.names := by
  cases h with
  | given free => exact free
  | derived => exact TakenNames.derivedName_notMem _ _

/-- A member that asks for no name claims none, any other claims an answer. -/
theorem claim_cases (hfree : ∀ name, givenResultName? m op = some name → name ∉ names.names) :
    (askedName? m op = none ∧ claimedName? names m op = none) ∨
      ∃ asked claimed, askedName? m op = some asked ∧ claimedName? names m op = some claimed ∧
        Answer names asked claimed := by
  unfold givenResultName? at hfree
  unfold askedName? claimedName?
  cases hw : wantsResult m op with
  | false => exact Or.inl ⟨rfl, rfl⟩
  | true =>
    rw [hw] at hfree
    refine Or.inr ⟨_, _, rfl, rfl, ?_⟩
    cases hname : m.resultName with
    | some given => exact Answer.given (hfree given hname)
    | none => exact Answer.derived

theorem claimedName?_notMem (hfree : ∀ name, givenResultName? m op = some name → name ∉ names.names)
    {name : String} (h : claimedName? names m op = some name) : name ∉ names.names := by
  rcases claim_cases hfree with ⟨-, hnone⟩ | ⟨_, claimed, -, hclaimed, hanswer⟩
  · rw [hnone] at h
    cases h
  · obtain rfl : claimed = name := Option.some.inj (hclaimed.symm.trans h)
    exact hanswer.notMem

theorem nameResult_eq_ok_iff {var : String} :
    nameResult names m op = .ok (var, names') ↔
      (∀ name, givenResultName? m op = some name → name ∉ names.names) ∧
        var = memberVar names m op ∧
        names' = (claimedName? names m op).toList.foldl TakenNames.insert names := by
  unfold nameResult memberVar claimedName? givenResultName? wantsResult
  cases op.result.isErrorOnly with
  | true => simp [eq_comm]
  | false =>
    cases m.resultMode with
    | suppress => simp [eq_comm]
    | discard => simp [eq_comm]
    | bind =>
      cases m.resultName with
      | none => simp [TakenNames.claimDerived, resultBase, eq_comm]
      | some given =>
        cases hc : names.claim? given with
        | none =>
          have hmem : given ∈ names.names := by
            by_contra h
            rw [TakenNames.claim?_eq_some_iff.2 ⟨h, rfl⟩] at hc
            cases hc
          simp [hc, hmem]
        | some taken =>
          obtain ⟨hfree, rfl⟩ := TakenNames.claim?_eq_some_iff.1 hc
          simp [hc, hfree, eq_comm]

/-- The step lemma: what one member needs of the state, its compiled form and the state after it. -/
theorem member_eq_ok_iff :
    member catalog st m = .ok (pm, st') ↔
      ∃ op, catalog.get? m.operation = some op ∧ Admits st m op ∧
        pm = planMember st.names m op ∧ st' = st.next m op := by
  unfold member
  cases hget : catalog.get? m.operation with
  | none => simp
  | some op =>
    cases hop : op.fault with
    | some fault =>
      simp only [hop, reduceCtorEq, Option.some.injEq, exists_eq_left', false_iff, not_and]
      intro h
      rw [h.analyzable] at hop
      cases hop
    | none =>
      simp only [hop, bind_eq_ok_iff, pure_eq_ok_iff, Option.some.injEq, exists_eq_left',
        Prod.exists, Prod.mk.injEq, bindArgument_eq_ok_iff hop, nameResult_eq_ok_iff]
      constructor
      · rintro ⟨_, _, ⟨hbind, rfl, rfl⟩, _, _, ⟨hname, rfl, rfl⟩, rfl, rfl⟩
        exact ⟨⟨hop, hbind, hname⟩, rfl, rfl⟩
      · rintro ⟨h, rfl, rfl⟩
        exact ⟨_, _, ⟨h.bindable, rfl, rfl⟩, _, _, ⟨h.nameFree, rfl, rfl⟩, rfl, rfl⟩

/-! ## Many members -/

/-- A walk from one state over members to their compiled forms and the state after them. -/
inductive Walk (catalog : Catalog) :
    Progress → List ResolvedMember → List PlanMember → Progress → Prop where
  /-- No members leave the state as it is. -/
  | nil (st : Progress) : Walk catalog st [] [] st
  /-- The state admits the first member, and the walk goes on from the state after it. -/
  | cons {st st' : Progress} {m : ResolvedMember} {op : OperationShape} {ms : List ResolvedMember}
      {pms : List PlanMember} (resolves : catalog.get? m.operation = some op)
      (admits : Admits st m op) (rest : Walk catalog (st.next m op) ms pms st') :
      Walk catalog st (m :: ms) (planMember st.names m op :: pms) st'

theorem members_eq_ok_iff :
    members catalog st ms = .ok (pms, st') ↔ Walk catalog st ms pms st' := by
  induction ms generalizing st pms st' with
  | nil =>
    constructor
    · intro h
      cases h
      exact Walk.nil _
    · intro h
      cases h
      rfl
  | cons m ms ih =>
    simp only [members, bind_eq_ok_iff, pure_eq_ok_iff, Prod.exists, Prod.mk.injEq,
      member_eq_ok_iff, ih]
    constructor
    · rintro ⟨_, _, ⟨op, hop, hadm, rfl, rfl⟩, pms', _, hrest, rfl, rfl⟩
      exact Walk.cons hop hadm hrest
    · intro h
      cases h with
      | cons hop hadm hrest => exact ⟨_, _, ⟨_, hop, hadm, rfl, rfl⟩, _, _, hrest, rfl, rfl⟩

theorem Walk.length_eq (h : Walk catalog st ms pms st') : pms.length = ms.length := by
  induction h with
  | nil => rfl
  | cons _ _ _ ih => rw [List.length_cons, List.length_cons, ih]

theorem Walk.append {mid : Progress} {pms₁ pms₂ : List PlanMember}
    (h₁ : Walk catalog st ms₁ pms₁ mid) (h₂ : Walk catalog mid ms₂ pms₂ st') :
    Walk catalog st (ms₁ ++ ms₂) (pms₁ ++ pms₂) st' := by
  induction h₁ with
  | nil => exact h₂
  | cons hop hadm _ ih => exact Walk.cons hop hadm (ih h₂)

theorem Walk.split (h : Walk catalog st (ms₁ ++ ms₂) pms st') :
    ∃ pms₁ pms₂ mid, pms = pms₁ ++ pms₂ ∧ Walk catalog st ms₁ pms₁ mid ∧
      Walk catalog mid ms₂ pms₂ st' := by
  induction ms₁ generalizing st pms with
  | nil => exact ⟨[], pms, st, rfl, Walk.nil st, h⟩
  | cons m ms₁ ih =>
    cases h with
    | cons hop hadm hrest =>
      obtain ⟨pms₁, pms₂, mid, rfl, h₁, h₂⟩ := ih hrest
      exact ⟨_ :: pms₁, pms₂, mid, rfl, Walk.cons hop hadm h₁, h₂⟩

/-! ## The state after members -/

/-- The parameters that members bring in, in order. -/
def broughtParams (catalog : Catalog) (ms : List ResolvedMember) : List Param :=
  ms.filterMap fun m => (catalog.get? m.operation).bind (broughtParam? m)

/-- The names that members claim one after another when `names` are taken. -/
def claimedNames (catalog : Catalog) : TakenNames → List ResolvedMember → List String
  | _, [] => []
  | names, m :: ms =>
    let claimed := ((catalog.get? m.operation).bind (claimedName? names m)).toList
    claimed ++ claimedNames catalog (claimed.foldl TakenNames.insert names) ms

/-- The state after members that it admits. -/
def Progress.after (catalog : Catalog) (st : Progress) (ms : List ResolvedMember) : Progress :=
  ⟨(broughtParams catalog ms).foldl Table.collect st.params,
    (claimedNames catalog st.names ms).foldl TakenNames.insert st.names⟩

theorem broughtParams_append (catalog : Catalog) (ms₁ ms₂ : List ResolvedMember) :
    broughtParams catalog (ms₁ ++ ms₂) = broughtParams catalog ms₁ ++ broughtParams catalog ms₂ :=
  List.filterMap_append

theorem broughtParams_cons (hop : catalog.get? m.operation = some op) :
    broughtParams catalog (m :: ms) = (broughtParam? m op).toList ++ broughtParams catalog ms := by
  unfold broughtParams
  rw [List.filterMap_cons, hop, Option.bind_some]
  cases broughtParam? m op <;> rfl

theorem mem_broughtParams {p : Param} :
    p ∈ broughtParams catalog ms ↔
      ∃ m ∈ ms, ∃ op, catalog.get? m.operation = some op ∧ broughtParam? m op = some p := by
  simp [broughtParams, List.mem_filterMap, Option.bind_eq_some_iff]

theorem Progress.after_cons (hop : catalog.get? m.operation = some op) :
    st.after catalog (m :: ms) = (st.next m op).after catalog ms := by
  simp [Progress.after, Progress.next, broughtParams_cons hop, claimedNames, hop,
    List.foldl_append]

theorem Walk.end_eq (h : Walk catalog st ms pms st') : st' = st.after catalog ms := by
  induction h with
  | nil => rfl
  | cons hop _ _ ih => rw [Progress.after_cons hop, ih]

/-- What a walk says about any one of its members: the state after those before it admits it, and its
compiled form stands where it stands. -/
theorem Walk.at {before after : List ResolvedMember}
    (h : Walk catalog st (before ++ m :: after) pms st') :
    ∃ op pms₁ pms₂, catalog.get? m.operation = some op ∧
      Admits (st.after catalog before) m op ∧ pms₁.length = before.length ∧
      pms = pms₁ ++ planMember (st.after catalog before).names m op :: pms₂ := by
  obtain ⟨pms₁, pms₂, mid, rfl, h₁, h₂⟩ := h.split
  obtain rfl := h₁.end_eq
  cases h₂ with
  | cons hop hadm _ => exact ⟨_, pms₁, _, hop, hadm, h₁.length_eq, rfl⟩

/-- There is a walk exactly if each member is admitted after the members before it. -/
theorem exists_walk_iff :
    (∃ pms st', Walk catalog st ms pms st') ↔
      ∀ before m after, ms = before ++ m :: after →
        ∃ op, catalog.get? m.operation = some op ∧ Admits (st.after catalog before) m op := by
  constructor
  · rintro ⟨pms, st', h⟩ before m after rfl
    obtain ⟨op, _, _, hop, hadm, -⟩ := h.at
    exact ⟨op, hop, hadm⟩
  · intro h
    induction ms generalizing st with
    | nil => exact ⟨[], st, Walk.nil st⟩
    | cons m ms ih =>
      -- the state after the first member and more is the state after the longer list
      obtain ⟨op, hop, hadm⟩ := h [] m ms rfl
      have hrest : ∀ before m' after, ms = before ++ m' :: after →
          ∃ op', catalog.get? m'.operation = some op' ∧
            Admits ((st.next m op).after catalog before) m' op' := by
        intro before m' after he
        rw [← Progress.after_cons hop]
        exact h (m :: before) m' after (by rw [he, List.cons_append])
      obtain ⟨pms, st', hwalk⟩ := ih hrest
      exact ⟨_, st', Walk.cons hop hadm hwalk⟩

/-- The names that are taken when a schema's first member is compiled. -/
theorem mem_start_names {s : ResolvedSchema} {name : String} :
    name ∈ (start catalog s).names.names ↔
      (∃ p ∈ broughtParams catalog s.members, p.fieldName = name) ∨
        name ∈ Naming.bodyNames ∨ name ∈ Naming.keywords := by
  have hannounced : announcedParams catalog s =
      (broughtParams catalog s.members).map Param.fieldName := by
    unfold announcedParams broughtParams
    rw [List.map_filterMap]
    congr 1
    funext m
    cases catalog.get? m.operation with
    | none => rfl
    | some op => exact announcedParam?_eq m op
  show name ∈ ((announcedParams catalog s).foldl TakenNames.insert TakenNames.initial).names ↔ _
  rw [TakenNames.mem_foldl_insert, hannounced, List.mem_map]
  simp [TakenNames.initial]

theorem mem_after_names {name : String} :
    name ∈ (st.after catalog ms).names.names ↔
      name ∈ claimedNames catalog st.names ms ∨ name ∈ st.names.names :=
  TakenNames.mem_foldl_insert _ _

/-- After a walk a parameter has the type of every parameter of its name that was brought in. -/
theorem Walk.typeName_eq (h : Walk catalog st ms pms st') (hst : st.params = ∅) {q r : Param}
    (hq : q ∈ broughtParams catalog ms)
    (hr : (collected (broughtParams catalog ms)).get? q.fieldName = some r) :
    r.typeName = q.typeName := by
  induction ms using List.reverseRecOn generalizing pms st' q r with
  | nil => cases hq
  | append_singleton ms m ih =>
    obtain ⟨op, _, _, hop, hadm, -⟩ := h.at
    obtain ⟨_, _, _, -, h₁, -⟩ := h.split
    have hparams : (st.after catalog ms).params = collected (broughtParams catalog ms) := by
      simp only [Progress.after, hst, collected]
    have hlast : broughtParams catalog [m] = (broughtParam? m op).toList := by
      rw [broughtParams_cons hop]
      exact List.append_nil _
    rw [broughtParams_append, hlast] at hq hr
    rw [get?_collected, List.find?_append, ← get?_collected] at hr
    rcases List.mem_append.mp hq with hq | hq
    · -- brought in by an earlier member: the entry is the one collected up to there
      obtain ⟨r', hr'⟩ := Table.mem_keys_iff.1 (mem_keys_collected.2 ⟨q, hq, rfl⟩)
      rw [hr', Option.some_or] at hr
      cases hr
      exact ih h₁ hq hr'
    · -- brought in by the last member: it was checked against an entry that was there
      have hb : broughtParam? m op = some q := Option.mem_toList.1 hq
      cases hc : (collected (broughtParams catalog ms)).get? q.fieldName with
      | some r' =>
        rw [hc, Option.some_or] at hr
        cases hr
        exact hadm.bindable.sameType q hb r (by rw [hparams, hc])
      | none =>
        have hfirst : (broughtParam? m op).toList.find? (fun p => p.fieldName = q.fieldName) =
            some q := by simp [hb]
        rw [hc, Option.none_or, hfirst] at hr
        rw [Option.some.inj hr]

theorem Walk.exists_of_mem (h : Walk catalog st ms pms st') (hpm : pm ∈ pms) :
    ∃ before m after op, ms = before ++ m :: after ∧ catalog.get? m.operation = some op ∧
      Admits (st.after catalog before) m op ∧
      pm = planMember (st.after catalog before).names m op := by
  induction h with
  | nil => cases hpm
  | @cons st st' m op ms pms hop hadm _ ih =>
    rcases List.mem_cons.mp hpm with rfl | hpm
    · exact ⟨[], m, ms, op, rfl, hop, hadm, rfl⟩
    · obtain ⟨before, m', after, op', rfl, hop', hadm', rfl⟩ := ih hpm
      refine ⟨m :: before, m', after, op', rfl, hop', ?_, ?_⟩
      · rwa [Progress.after_cons hop]
      · rw [Progress.after_cons hop]

/-- Where a parameter comes from: some member brought it in and takes its argument from it. -/
theorem Walk.exists_of_brought {p : Param} (h : Walk catalog st ms pms st')
    (hp : p ∈ broughtParams catalog ms) :
    ∃ before m after op, ms = before ++ m :: after ∧ broughtParam? m op = some p ∧
      Admits (st.after catalog before) m op ∧
      planMember (st.after catalog before).names m op ∈ pms := by
  obtain ⟨m, hm, op, hop, hbrought⟩ := mem_broughtParams.1 hp
  obtain ⟨before, after, rfl⟩ := List.append_of_mem hm
  obtain ⟨op', pms₁, pms₂, hop', hadm, -, rfl⟩ := h.at
  obtain rfl : op' = op := Option.some.inj (hop'.symm.trans hop)
  exact ⟨before, m, after, op', rfl, hbrought, hadm,
    List.mem_append_right _ List.mem_cons_self⟩

theorem Walk.fieldName_not_reserved {p : Param} (h : Walk catalog st ms pms st')
    (hp : p ∈ broughtParams catalog ms) : Naming.isReserved p.fieldName = false := by
  obtain ⟨_, _, _, _, -, hbrought, hadm, -⟩ := h.exists_of_brought hp
  exact Orchestration.fieldName_not_reserved hbrought hadm.bindable.nameAllowed

/-! ## Groups -/

theorem groups_walk {gs : List ResolvedGroup} {pgs : List PlanGroup}
    (h : groups catalog st gs = .ok (pgs, st')) :
    Walk catalog st (gs.flatMap ResolvedGroup.members) (pgs.flatMap PlanGroup.members) st' := by
  induction gs generalizing st pgs with
  | nil =>
    cases h
    exact Walk.nil _
  | cons g gs ih =>
    simp only [groups, bind_eq_ok_iff, pure_eq_ok_iff, Prod.exists, Prod.mk.injEq] at h
    obtain ⟨pms, mid, hg, pgs', st'', hgs, rfl, rfl⟩ := h
    exact (members_eq_ok_iff.1 hg).append (ih hgs)

theorem exists_groups {gs : List ResolvedGroup}
    (h : Walk catalog st (gs.flatMap ResolvedGroup.members) pms st') :
    ∃ pgs, groups catalog st gs = .ok (pgs, st') := by
  induction gs generalizing st pms with
  | nil =>
    cases h
    exact ⟨[], rfl⟩
  | cons g gs ih =>
    rw [List.flatMap_cons] at h
    obtain ⟨pms₁, pms₂, mid, rfl, h₁, h₂⟩ := h.split
    obtain ⟨pgs, hpgs⟩ := ih h₂
    refine ⟨⟨g.declaredTransactional && 1 < g.members.length, pms₁⟩ :: pgs, ?_⟩
    simp only [groups, bind_eq_ok_iff, pure_eq_ok_iff, Prod.exists, Prod.mk.injEq]
    exact ⟨pms₁, mid, members_eq_ok_iff.2 h₁, pgs, st', hpgs, rfl, rfl⟩

end Compile

variable {catalog : Catalog} {s : ResolvedSchema} {scope : String} {p : Plan}

/-- A plan is what the walk over the groups gives, with the parameters and the output settled after
it. -/
theorem compile_eq_ok_iff_groups :
    s.compile catalog scope = .ok p ↔
      ∃ groups st, Compile.groups catalog (Compile.start catalog s) s.groups = .ok (groups, st) ∧
        p = { name := s.name
              scope := scope
              params := st.params
              useParamStruct := (wrapParams s.name st.params).1
              paramName := (wrapParams s.name st.params).2.1
              paramTypeName := (wrapParams s.name st.params).2.2
              groups := groups
              outputTypeName := s.output.typeName
              outputIsRef := s.output.isRef
              outputFields := assembleOutput s.output.fields.entries groups
              usesSharedContext := groups.any PlanGroup.transactional } := by
  simp only [ResolvedSchema.compile, mapError_eq_ok_iff, bind_eq_ok_iff, pure_eq_ok_iff,
    Prod.exists, eq_comm (b := p)]

theorem exists_compile_iff_walk :
    (∃ p, s.compile catalog scope = .ok p) ↔
      ∃ pms st, Compile.Walk catalog (Compile.start catalog s) s.members pms st := by
  constructor
  · rintro ⟨p, h⟩
    obtain ⟨groups, st, hg, -⟩ := compile_eq_ok_iff_groups.1 h
    exact ⟨_, st, Compile.groups_walk hg⟩
  · rintro ⟨pms, st, h⟩
    obtain ⟨groups, hg⟩ := Compile.exists_groups h
    exact ⟨_, compile_eq_ok_iff_groups.2 ⟨groups, st, hg, rfl⟩⟩

theorem walk_of_compile (h : s.compile catalog scope = .ok p) :
    Compile.Walk catalog (Compile.start catalog s) s.members p.members
      ((Compile.start catalog s).after catalog s.members) := by
  obtain ⟨groups, st, hg, rfl⟩ := compile_eq_ok_iff_groups.1 h
  have hwalk := Compile.groups_walk hg
  obtain rfl := hwalk.end_eq
  exact hwalk

/-- The parameters of a plan are those that the members bring in, the first of each name. -/
theorem params_of_compile (h : s.compile catalog scope = .ok p) :
    p.params = collected (Compile.broughtParams catalog s.members) := by
  obtain ⟨groups, st, hg, rfl⟩ := compile_eq_ok_iff_groups.1 h
  rw [(Compile.groups_walk hg).end_eq]
  rfl

/-! ## A schema with a plan -/

/-- Operations with a plain, a composite and no argument, and one that only succeeds or fails. -/
def reportCatalog : Catalog :=
  { scope := "db"
    operations := Table.ofList
      [("GetUser", ⟨"GetUser", .plain "i64", .value .single "User" ∅, none⟩),
       ("GetOrder", ⟨"GetOrder", .composite "Order" (Table.ofList [("id", "i64")]),
         .value .single "Order" ∅, none⟩),
       ("ListUsers", ⟨"ListUsers", .none, .value .collection "User" ∅, none⟩),
       ("Touch", ⟨"Touch", .plain "i64", .errorOnly, none⟩)]
    types := ∅ }

/-- Members that repeat a parameter, share one, give a result a name and drop one. The composite
`Order` and the result of the same type are both kept off the reserved name `order`. -/
def reportSchema : ResolvedSchema :=
  { name := "Report"
    output := ⟨"Report", false, Table.ofList [("user", "User"), ("users", "[User]")]⟩
    groups :=
      [⟨true, [⟨"GetUser", none, none, none, .bind⟩, ⟨"GetUser", none, none, none, .bind⟩]⟩,
       ⟨false, [⟨"ListUsers", none, none, some "everyone", .bind⟩,
         ⟨"GetOrder", none, none, none, .bind⟩,
         ⟨"GetUser", none, some ⟨"order_param", ["id"]⟩, none, .discard⟩]⟩,
       ⟨false, [⟨"Touch", some "id", none, some "ignored", .bind⟩]⟩]
    outFile := "report" }

theorem exists_plan_of_any {Q : Plan → Prop} [DecidablePred Q]
    (h : (s.compile catalog scope).toOption.any (fun p => decide (Q p)) = true) :
    ∃ p, s.compile catalog scope = .ok p ∧ Q p :=
  exists_ok_of_any h

theorem reportSchema_compiles : ∃ p, reportSchema.compile reportCatalog "db" = .ok p := by
  have h : ∃ p, reportSchema.compile reportCatalog "db" = .ok p ∧ True :=
    exists_plan_of_any (by decide +kernel)
  obtain ⟨p, hp, -⟩ := h
  exact ⟨p, hp⟩

end Orchestration
