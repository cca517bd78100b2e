import Orchestration.Generation.Batch
import Orchestration.Proofs.Plan.Walk

/-!
# A plan mirrors its schema

Compiling keeps the shape of a schema. The plan has a group for every group and a member for every
member, in order; what the catalog says of an operation's result is copied, and the result is named
as its mode says. Of a group's flag only one thing is read: whether several members share a
transaction. A group of at most one member can therefore declare what it likes.
-/

namespace Orchestration

open Naming (TakenNames)

variable {catalog : Catalog} {s : ResolvedSchema} {scope : String} {p : Plan}

/-! ## What is mirrored -/

/-- A name is the base that a name is derived from, or a numbered form of it. -/
def DerivedFrom (base name : String) : Prop :=
  name = TakenNames.baseOr base ∨ ∃ n, 2 ≤ n ∧ name = TakenNames.numbered (TakenNames.baseOr base) n

/-- A member of a plan calls the operation of the schema's member, says of its result what the
catalog says, and names the result as the schema's member asks. -/
structure PlanMember.Mirrors (catalog : Catalog) (m : ResolvedMember) (pm : PlanMember) : Prop where
  operation : pm.operation = m.operation
  result : ∃ op, catalog.get? m.operation = some op ∧ pm.resultType = op.result.typeName ∧
    pm.resultIsCollection = op.result.isCollection ∧ pm.isErrorOnly = op.result.isErrorOnly
  unbound : pm.isErrorOnly = true ∨ m.resultMode = .suppress → pm.resultVar = ""
  dropped : pm.isErrorOnly = false → m.resultMode = .discard → pm.resultVar = discardMarker
  given : ∀ name, pm.isErrorOnly = false → m.resultMode = .bind → m.resultName = some name →
    pm.resultVar = name
  derived : pm.isErrorOnly = false → m.resultMode = .bind → m.resultName = none →
    DerivedFrom (Naming.resultName pm.resultType pm.resultIsCollection) pm.resultVar

/-- Whether several members were declared to share a transaction. -/
def ResolvedGroup.SharesTransaction (g : ResolvedGroup) : Prop :=
  g.declaredTransactional = true ∧ 1 < g.members.length

/-- A group of a plan has a member for each member of the schema's group, and is transactional if
several members were declared so. Several members of which this was not declared run concurrently. -/
structure PlanGroup.Mirrors (catalog : Catalog) (g : ResolvedGroup) (pg : PlanGroup) : Prop where
  members : List.Forall₂ (PlanMember.Mirrors catalog) g.members pg.members
  transactional : pg.transactional = true ↔ g.SharesTransaction
  concurrent : pg.discipline = .concurrent ↔
    g.declaredTransactional = false ∧ 1 < g.members.length
  direct : pg.discipline = .direct ↔ g.members.length ≤ 1

/-- A plan has a group for each group of the schema, and a shared context if one of the schema's
groups needs it. -/
structure Plan.Mirrors (catalog : Catalog) (s : ResolvedSchema) (p : Plan) : Prop where
  name : p.name = s.name
  groups : List.Forall₂ (PlanGroup.Mirrors catalog) s.groups p.groups
  sharedContext : p.usesSharedContext = true ↔ ∃ g ∈ s.groups, g.SharesTransaction

/-- Two groups have the same members, and declare the same if there are several. -/
structure ResolvedGroup.Interchangeable (g g' : ResolvedGroup) : Prop where
  members : g'.members = g.members
  declared : 1 < g.members.length → g'.declaredTransactional = g.declaredTransactional

/-- Two groups have the same members, and declare the same if there are several. -/
structure Group.Interchangeable (g g' : Group) : Prop where
  members : g'.members = g.members
  declared : 1 < g.members.length → g'.transactional = g.transactional

/-! ## Members -/

theorem derivedFrom_derivedName (names : TakenNames) (base : String) :
    DerivedFrom base (names.derivedName base) := by
  rcases TakenNames.derivedName_eq names base with ⟨-, h⟩ | ⟨-, h⟩
  · exact Or.inl h
  · exact Or.inr ⟨_, (TakenNames.freeNumber_spec names _).1, h⟩

namespace Compile

variable {st st' : Progress} {m : ResolvedMember} {op : OperationShape}
  {ms : List ResolvedMember} {pms : List PlanMember}

theorem planMember_mirrors (names : TakenNames) (hop : catalog.get? m.operation = some op) :
    (planMember names m op).Mirrors catalog m := by
  constructor
  case operation => rfl
  case result => exact ⟨op, hop, rfl, rfl, rfl⟩
  case unbound =>
    intro (h : op.result.isErrorOnly = true ∨ m.resultMode = .suppress)
    show memberVar names m op = ""
    rcases h with h | h
    · simp [memberVar, claimedName?, wantsResult, h]
    · simp [memberVar, claimedName?, wantsResult, h]
  case dropped =>
    intro (hresult : op.result.isErrorOnly = false) hmode
    show memberVar names m op = discardMarker
    simp [memberVar, claimedName?, wantsResult, hresult, hmode]
  case given =>
    intro name (hresult : op.result.isErrorOnly = false) hmode hname
    show memberVar names m op = name
    simp [memberVar, claimedName?, wantsResult, hresult, hmode, hname]
  case derived =>
    intro (hresult : op.result.isErrorOnly = false) hmode hname
    show DerivedFrom (resultBase op) (memberVar names m op)
    have hvar : memberVar names m op = names.derivedName (resultBase op) := by
      simp [memberVar, claimedName?, wantsResult, hresult, hmode, hname]
    rw [hvar]
    exact derivedFrom_derivedName names (resultBase op)

/-- Every step of a walk adds a member that mirrors the one it is for. -/
theorem Walk.mirrors (h : Walk catalog st ms pms st') :
    List.Forall₂ (PlanMember.Mirrors catalog) ms pms := by
  induction h with
  | nil => exact List.Forall₂.nil
  | cons hop _ _ ih => exact List.Forall₂.cons (planMember_mirrors _ hop) ih

/-! ## Groups -/

theorem group_mirrors {g : ResolvedGroup} (h : members catalog st g.members = .ok (pms, st')) :
    PlanGroup.Mirrors catalog g ⟨g.declaredTransactional && 1 < g.members.length, pms⟩ := by
  have hwalk := members_eq_ok_iff.1 h
  have hlength := hwalk.length_eq
  constructor
  case members => exact hwalk.mirrors
  case transactional => simp [ResolvedGroup.SharesTransaction]
  case concurrent =>
    unfold PlanGroup.discipline
    by_cases hlen : 1 < g.members.length
    · cases g.declaredTransactional <;> simp [hlength, hlen]
    · simp [hlength, hlen]
  case direct =>
    unfold PlanGroup.discipline
    by_cases hlen : 1 < g.members.length
    · cases g.declaredTransactional <;> simp [hlength, hlen]
    · simp [hlength, hlen, Nat.le_of_not_lt hlen]

theorem groups_mirror {gs : List ResolvedGroup} {pgs : List PlanGroup}
    (h : groups catalog st gs = .ok (pgs, st')) :
    List.Forall₂ (PlanGroup.Mirrors catalog) gs pgs := by
  induction gs generalizing st pgs with
  | nil =>
    cases h
    exact List.Forall₂.nil
  | cons g gs ih =>
    simp only [groups, bind_eq_ok_iff, pure_eq_ok_iff, Prod.exists, Prod.mk.injEq] at h
    obtain ⟨pms, mid, hg, pgs', st'', hgs, rfl, rfl⟩ := h
    exact List.Forall₂.cons (group_mirrors hg) (ih hgs)

theorem any_transactional_iff {gs : List ResolvedGroup} {pgs : List PlanGroup}
    (h : List.Forall₂ (PlanGroup.Mirrors catalog) gs pgs) :
    pgs.any PlanGroup.transactional = true ↔ ∃ g ∈ gs, g.SharesTransaction := by
  induction h with
  | nil => simp
  | cons hg _ ih =>
    rw [List.any_cons, Bool.or_eq_true, hg.transactional, ih]
    simp

/-- The walk over groups reads no more of a flag than what interchangeable groups share. -/
theorem groups_interchangeable {gs gs' : List ResolvedGroup}
    (h : List.Forall₂ ResolvedGroup.Interchangeable gs gs') :
    groups catalog st gs' = groups catalog st gs := by
  induction h generalizing st with
  | nil => rfl
  | @cons g g' gs gs' hg _ ih =>
    have hflag : (g'.declaredTransactional && decide (1 < g.members.length)) =
        (g.declaredTransactional && decide (1 < g.members.length)) := by
      by_cases hlen : 1 < g.members.length
      · rw [hg.declared hlen]
      · simp [hlen]
    simp only [groups, hg.members, hflag, ih]

theorem members_interchangeable {gs gs' : List ResolvedGroup}
    (h : List.Forall₂ ResolvedGroup.Interchangeable gs gs') :
    gs'.flatMap ResolvedGroup.members = gs.flatMap ResolvedGroup.members := by
  induction h with
  | nil => rfl
  | cons hg _ ih => rw [List.flatMap_cons, List.flatMap_cons, hg.members, ih]

theorem start_interchangeable {gs : List ResolvedGroup}
    (h : List.Forall₂ ResolvedGroup.Interchangeable s.groups gs) :
    start catalog { s with groups := gs } = start catalog s := by
  unfold start announcedParams
  rw [members_interchangeable h]

end Compile

/-! ## Resolved schemas -/

theorem Plan.mirrors_of_compile (h : s.compile catalog scope = .ok p) : p.Mirrors catalog s := by
  obtain ⟨groups, st, hg, rfl⟩ := compile_eq_ok_iff_groups.1 h
  have hgroups := Compile.groups_mirror hg
  exact ⟨rfl, hgroups, Compile.any_transactional_iff hgroups⟩

theorem compile_interchangeable {gs : List ResolvedGroup}
    (h : List.Forall₂ ResolvedGroup.Interchangeable s.groups gs) :
    ResolvedSchema.compile { s with groups := gs } catalog scope = s.compile catalog scope := by
  unfold ResolvedSchema.compile
  rw [Compile.start_interchangeable h]
  simp only [Compile.groups_interchangeable h]

/-! ## Schemas -/

theorem Group.resolve_interchangeable {g g' : Group} (h : g.Interchangeable g') :
    Related ResolvedGroup.Interchangeable (g.resolve catalog) (g'.resolve catalog) := by
  unfold resolve
  rw [h.members]
  cases hmembers : g.members.mapM (Member.resolve catalog) with
  | error cause => exact Related.error cause
  | ok members =>
    refine Related.ok ⟨rfl, fun hlen => h.declared ?_⟩
    rwa [← length_of_mapM hmembers]

/-- Schemas of interchangeable groups resolve to schemas of interchangeable groups, or fail alike. -/
theorem Schema.resolve_interchangeable (catalog : Catalog) {t : Schema} {gs : List Group}
    (h : List.Forall₂ Group.Interchangeable t.groups gs) :
    Related (fun r r' => ∃ rgs, List.Forall₂ ResolvedGroup.Interchangeable r.groups rgs ∧
        r' = { r with groups := rgs })
      (t.resolve catalog) (Schema.resolve catalog { t with groups := gs }) := by
  have hgroups : Related (List.Forall₂ ResolvedGroup.Interchangeable)
      (t.groups.mapM (Group.resolve catalog)) (gs.mapM (Group.resolve catalog)) :=
    Related.mapM (fun _ _ => Group.resolve_interchangeable) h
  unfold resolve
  cases resolveOutput catalog.types t.output with
  | error cause => exact Related.error _
  | ok output =>
    dsimp only
    generalize t.groups.mapM (Group.resolve catalog) = rgs,
      gs.mapM (Group.resolve catalog) = rgs' at hgroups
    cases hgroups with
    | error cause => exact Related.error _
    | ok hgroups => exact Related.ok ⟨_, hgroups, rfl⟩

namespace Generator

variable {g : Generator} {t : Schema} {gs : List Group}

theorem plan_interchangeable (h : List.Forall₂ Group.Interchangeable t.groups gs) :
    g.plan { t with groups := gs } = g.plan t := by
  have hresolve := Schema.resolve_interchangeable g.catalog h
  unfold plan
  generalize t.resolve g.catalog = r, Schema.resolve g.catalog { t with groups := gs } = r'
    at hresolve
  cases hresolve with
  | error e => rfl
  | ok hr =>
    obtain ⟨rgs, hgroups, rfl⟩ := hr
    exact compile_interchangeable hgroups

theorem draft_interchangeable (h : List.Forall₂ Group.Interchangeable t.groups gs) :
    g.draft { t with groups := gs } = g.draft t := by
  unfold draft
  rw [plan_interchangeable h]
  rfl

end Generator

/-- **A plan mirrors its schema, and nothing that is made of a schema tells what its groups of at most
one member declared.** -/
theorem plan_mirrors_schema (catalog : Catalog) (s : ResolvedSchema) (scope : String) :
    (∀ p, s.compile catalog scope = .ok p → p.Mirrors catalog s) ∧
      (∀ gs, List.Forall₂ ResolvedGroup.Interchangeable s.groups gs →
        let turned := ResolvedSchema.compile { s with groups := gs } catalog scope
        turned = s.compile catalog scope ∧
          turned.map Digest.ofPlan = (s.compile catalog scope).map Digest.ofPlan ∧
          ∀ (r : Renderer) (template : String) (output : Path),
            turned.map (fun p => r.render template p output) =
              (s.compile catalog scope).map (fun p => r.render template p output)) ∧
      ∀ (g : Generator) (t : Schema) (gs : List Group),
        List.Forall₂ Group.Interchangeable t.groups gs →
          g.plan { t with groups := gs } = g.plan t ∧ g.draft { t with groups := gs } = g.draft t := by
  refine ⟨fun p h => Plan.mirrors_of_compile h, ?_, ?_⟩
  · intro gs h turned
    have hsame : turned = s.compile catalog scope := compile_interchangeable h
    rw [hsame]
    exact ⟨rfl, rfl, fun _ _ _ => rfl⟩
  · intro g t gs h
    exact ⟨Generator.plan_interchangeable h, Generator.draft_interchangeable h⟩

/-- The groups of the report, its single call declared as a transaction. -/
def turnedGroups : List ResolvedGroup :=
  reportSchema.groups.take 2 ++ [⟨true, [⟨"Touch", some "id", none, some "ignored", .bind⟩]⟩]

theorem plan_mirrors_schema_report :
    List.Forall₂ ResolvedGroup.Interchangeable reportSchema.groups turnedGroups ∧
      reportSchema.groups ≠ turnedGroups ∧
      ∃ p, reportSchema.compile reportCatalog "db" = .ok p ∧ p.Mirrors reportCatalog reportSchema ∧
        ResolvedSchema.compile { reportSchema with groups := turnedGroups } reportCatalog "db" =
          .ok p := by
  have hturned : List.Forall₂ ResolvedGroup.Interchangeable reportSchema.groups turnedGroups := by
    refine List.Forall₂.cons ⟨rfl, fun _ => rfl⟩ (List.Forall₂.cons ⟨rfl, fun _ => rfl⟩
      (List.Forall₂.cons ⟨rfl, fun hlen => ?_⟩ List.Forall₂.nil))
    exact absurd hlen (by decide)
  obtain ⟨p, hp⟩ := reportSchema_compiles
  obtain ⟨hmirrors, hsame, -⟩ := plan_mirrors_schema reportCatalog reportSchema "db"
  exact ⟨hturned, by decide, p, hp, hmirrors p hp, (hsame turnedGroups hturned).1.trans hp⟩

end Orchestration
