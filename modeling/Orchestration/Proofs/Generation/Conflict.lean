import Orchestration.Proofs.Generation.Introduced
import Orchestration.Proofs.Plan.Refusal

/-!
# Names that collide

The names that a schema gives are looked at twice: when the configuration is checked, and when the
schema is compiled, against everything that is taken by then. After the first check only what the
schema itself takes can stand in the way of a given name: a parameter that one of its members brings
in, or the result of an earlier member.
-/

namespace Orchestration

open Compile
open PlanError (Cause)

variable {catalog : Catalog} {c : Config} {g : Generator} {s : Schema} {r : ResolvedSchema}
  {cause : Cause} {operation name : String}

/-- Whether a cause is about a name that a member gives. -/
def PlanError.Cause.isNaming : Cause → Bool
  | .reservedParamName .. | .resultNameConflict .. => true
  | _ => false

/-- A generator has no plan for a schema, for the given cause. -/
def Generator.FailsWith (g : Generator) (s : Schema) (cause : Cause) : Prop :=
  ∃ e, g.plan s = .error e ∧ e.cause = cause

/-! ## Resolving looks at no given name -/

theorem Schema.isNaming_of_resolveOutput {types : TypeTable} {output : Option String}
    (h : resolveOutput types output = .error cause) : cause.isNaming = false := by
  unfold resolveOutput at h
  split at h
  · cases h
    rfl
  unfold outputOf at h
  dsimp only at h
  split at h
  · cases h
    rfl
  split at h
  · cases h
    rfl
  split at h
  · cases h
    rfl
  split at h
  · cases h
    rfl
  · cases h

theorem Member.isNaming_of_resolve {m : Member} (h : m.resolve catalog = .error cause) :
    cause.isNaming = false := by
  unfold resolve at h
  split at h
  · cases h
    rfl
  split at h
  · cases h
  split at h
  · cases h
    rfl
  · cases h

theorem Group.isNaming_of_resolve {group : Group} (h : group.resolve catalog = .error cause) :
    cause.isNaming = false := by
  rcases bind_eq_error_iff.1 h with hmembers | ⟨_, -, h⟩
  · obtain ⟨m, -, hm⟩ := exists_error_of_mapM hmembers
    exact Member.isNaming_of_resolve hm
  · cases h

theorem Schema.isNaming_of_resolve {e : PlanError} (h : s.resolve catalog = .error e) :
    e.cause.isNaming = false := by
  obtain ⟨cause, hcause, rfl⟩ := mapError_eq_error_iff.1 h
  rcases bind_eq_error_iff.1 hcause with houtput | ⟨_, -, hcause⟩
  · exact isNaming_of_resolveOutput houtput
  rcases bind_eq_error_iff.1 hcause with hgroups | ⟨_, -, hcause⟩
  · obtain ⟨group, -, hgroup⟩ := exists_error_of_mapM hgroups
    exact Group.isNaming_of_resolve hgroup
  · cases hcause

/-! ## The member at fault -/

section Member

variable {st : Progress} {params : Table Param} {m : ResolvedMember} {op : OperationShape}

theorem isNaming_of_shareParam {path : ParamPath}
    (h : shareParam params operation path = .error cause) : cause.isNaming = false := by
  rcases shareParam_eq_error_iff.1 h with ⟨-, rfl⟩ | ⟨_, -, -, _, -, rfl⟩
  · rfl
  · rfl

theorem paramName_of_given (h : givenParamName? m op = some name) : m.paramName = some name := by
  unfold givenParamName? at h
  split at h
  · exact h
  · cases h

/-- Binding an argument fails over a given name only if that is reserved. -/
theorem reserved_of_bindArgument (hop : op.fault = none)
    (h : bindArgument params m op = .error cause) (hnaming : cause.isNaming = true) :
    ∃ given, m.paramName = some given ∧ Naming.isReserved given = true ∧
      cause = .reservedParamName op.name given := by
  rcases (bindArgument_eq_error_iff hop).1 h with
    ⟨given, hgiven, hreserved, hcause⟩ | ⟨-, _, -, _, -, -, rfl⟩ | ⟨_, -, hshare⟩
  · exact ⟨given, paramName_of_given hgiven, hreserved, hcause⟩
  · cases hnaming
  · rw [isNaming_of_shareParam hshare] at hnaming
    cases hnaming

/-- A member fails over a parameter name only if it gives a reserved one. -/
theorem reserved_of_member (h : member catalog st m = .error (.reservedParamName operation name)) :
    m.paramName = some name ∧ Naming.isReserved name = true := by
  rcases member_eq_error_iff.1 h with
    ⟨-, h⟩ | ⟨op, -, ⟨_, -, h⟩ | ⟨hfault, hbind | ⟨-, hresult⟩⟩⟩
  · cases h
  · cases h
  · obtain ⟨given, hgiven, hreserved, h⟩ := reserved_of_bindArgument hfault hbind rfl
    cases h
    exact ⟨hgiven, hreserved⟩
  · obtain ⟨_, -, -, h⟩ := nameResult_eq_error_iff.1 hresult
    cases h

/-- A member fails over the name of its result exactly if its argument can be bound and the name that
it gives is taken. -/
theorem member_eq_conflict_iff :
    member catalog st m = .error (.resultNameConflict operation name) ↔
      m.operation = operation ∧ ∃ op, catalog.get? operation = some op ∧ op.fault = none ∧
        Bindable st.params m op ∧ givenResultName? m op = some name ∧ name ∈ st.names.names := by
  constructor
  · intro h
    rcases member_eq_error_iff.1 h with ⟨-, h⟩ | ⟨op, hop, ⟨_, -, h⟩ | ⟨hfault, hbind | ⟨hbind, hresult⟩⟩⟩
    · cases h
    · cases h
    · obtain ⟨_, -, -, h⟩ := reserved_of_bindArgument hfault hbind rfl
      cases h
    · obtain ⟨given, hgiven, htaken, h⟩ := nameResult_eq_error_iff.1 hresult
      cases h
      exact ⟨rfl, op, hop, hfault, hbind, hgiven, htaken⟩
  · rintro ⟨rfl, op, hop, hfault, hbind, hgiven, htaken⟩
    refine member_eq_error_iff.2 (Or.inr ⟨op, hop, Or.inr ⟨hfault, Or.inr ⟨hbind, ?_⟩⟩⟩)
    exact nameResult_eq_error_iff.2 ⟨name, hgiven, htaken, rfl⟩

theorem resultName_of_given (h : givenResultName? m op = some name) : m.resultName = some name := by
  unfold givenResultName? at h
  split at h
  · exact h
  · cases h

end Member

/-! ## What is taken -/

section Taken

variable {st : Progress} {before : List ResolvedMember} {pms : List PlanMember}

/-- What the schema itself has taken when a member is compiled: the members before it are given with
their compiled forms. -/
inductive Occupied (catalog : Catalog) (r : ResolvedSchema) (before : List ResolvedMember)
    (pms : List PlanMember) (name : String) : Prop where
  /-- The name is that of a parameter, whichever member brings it in. -/
  | parameter {m : ResolvedMember} {op : OperationShape} {q : Param} (member : m ∈ r.members)
      (resolves : catalog.get? m.operation = some op) (brings : broughtParam? m op = some q)
      (named : q.fieldName = name)
  /-- An earlier member has bound its result to the name. -/
  | result {m : ResolvedMember} {pm : PlanMember} (earlier : (m, pm) ∈ before.zip pms)
      (bound : m.resultMode = .bind) (gives : pm.isErrorOnly = false) (named : pm.resultVar = name)

/-- Of the names that are not reserved, exactly those are taken that the schema itself has taken. -/
theorem mem_names_iff_occupied (h : Walk catalog (start catalog r) before pms st)
    (hfree : Naming.isReserved name = false) :
    name ∈ st.names.names ↔ Occupied catalog r before pms name := by
  have hnot : name ∉ Naming.bodyNames ∧ name ∉ Naming.keywords := by
    rw [← Bool.not_eq_true, Naming.isReserved_iff] at hfree
    exact ⟨fun hbody => hfree (Or.inl hbody), fun hkeyword => hfree (Or.inr (Or.inl hkeyword))⟩
  rw [h.end_eq, mem_after_names, mem_start_names, h.mem_claimedNames_iff]
  constructor
  · rintro (⟨m, pm, hmem, hmode, hresult, hvar⟩ | ⟨q, hq, hname⟩ | hbody | hkeyword)
    · exact Occupied.result hmem hmode hresult hvar
    · obtain ⟨m, hm, op, hop, hbrought⟩ := mem_broughtParams.1 hq
      exact Occupied.parameter hm hop hbrought hname
    · exact absurd hbody hnot.1
    · exact absurd hkeyword hnot.2
  · intro hoccupied
    cases hoccupied with
    | parameter hm hop hbrought hname =>
      exact Or.inr (Or.inl ⟨_, mem_broughtParams.2 ⟨_, hm, _, hop, hbrought⟩, hname⟩)
    | result hmem hmode hresult hvar => exact Or.inl ⟨_, _, hmem, hmode, hresult, hvar⟩

end Taken

/-! ## Plans -/

/-- A failure over a given name is that of the first member that cannot be compiled. -/
theorem failsWith_iff (hnaming : cause.isNaming = true) :
    g.FailsWith s cause ↔ ∃ r before m after pms st, s.resolve g.catalog = .ok r ∧
      r.members = before ++ m :: after ∧ Walk g.catalog (start g.catalog r) before pms st ∧
      member g.catalog st m = .error cause := by
  unfold Generator.FailsWith Generator.plan
  cases hr : s.resolve g.catalog with
  | error e =>
    constructor
    · rintro ⟨_, he, rfl⟩
      cases he
      rw [Schema.isNaming_of_resolve hr] at hnaming
      cases hnaming
    · rintro ⟨r, _, _, _, _, _, h, -⟩
      cases h
  | ok r =>
    simp only [compile_eq_error_iff, members_eq_error_iff]
    constructor
    · rintro ⟨e, ⟨-, before, m, after, pms, st, hms, hwalk, hm⟩, rfl⟩
      exact ⟨r, before, m, after, pms, st, rfl, hms, hwalk, hm⟩
    · rintro ⟨_, before, m, after, pms, st, h, hms, hwalk, hm⟩
      cases h
      exact ⟨⟨r.name, cause⟩, ⟨rfl, before, m, after, pms, st, hms, hwalk, hm⟩, rfl⟩

/-- A member of a schema gives its result a name that the schema has taken before. Everything else
about it, and about the members before it, is as it should be. -/
inductive Conflict (catalog : Catalog) (r : ResolvedSchema) (operation name : String) : Prop where
  | intro {before after : List ResolvedMember} {m : ResolvedMember} {pms : List PlanMember}
      {st : Progress} {op : OperationShape} (members : r.members = before ++ m :: after)
      (walk : Walk catalog (start catalog r) before pms st) (calls : m.operation = operation)
      (resolves : catalog.get? operation = some op) (analyzable : op.fault = none)
      (bindable : Bindable st.params m op) (gives : givenResultName? m op = some name)
      (occupied : Occupied catalog r before pms name)

/-- No name that a member of a checked schema gives is reserved. -/
theorem not_reserved_of_valid {before after : List ResolvedMember} {m' : ResolvedMember}
    (hvalid : c.faults = []) (hs : s ∈ c.schemas) (hr : s.resolve catalog = .ok r)
    (hms : r.members = before ++ m' :: after) :
    (∀ n, m'.paramName = some n → Naming.isReserved n = false) ∧
      ∀ n, m'.resultName = some n → Naming.isReserved n = false := by
  have hm' : m' ∈ r.members := by
    rw [hms]
    exact List.mem_append_right before (List.mem_cons_self ..)
  obtain ⟨m, hm, hresolve⟩ := (Schema.members_of_resolve hr).1 m' hm'
  obtain ⟨path, rfl, -⟩ := Member.exists_path_of_resolve hresolve
  obtain ⟨group, hgroup, hm⟩ := List.mem_flatMap.1 hm
  obtain ⟨number, hmember⟩ :=
    Schema.member_faults_of_faults (Config.faults_of_mem hvalid hs) hgroup hm
  obtain ⟨hparam, hresult⟩ := Member.nameFault?_of_faults hmember
  exact ⟨fun n hn => (nameFault?_eq_none_iff.1 (hparam n hn)).2,
    fun n hn => (nameFault?_eq_none_iff.1 (hresult n hn)).2⟩

/-- **Over a configuration without faults, a name can only collide with what its schema takes.** No
plan fails over a reserved parameter name. A plan fails over the name of a result exactly if a member
gives one that is the name of a parameter of the schema or of an earlier result; such a name is never
reserved. -/
theorem naming_failures_of_valid (hvalid : c.faults = []) (hs : s ∈ c.schemas) (g : Generator)
    (operation name : String) :
    ¬ g.FailsWith s (.reservedParamName operation name) ∧
      (g.FailsWith s (.resultNameConflict operation name) → Naming.isReserved name = false) ∧
      (g.FailsWith s (.resultNameConflict operation name) ↔
        ∃ r, s.resolve g.catalog = .ok r ∧ Conflict g.catalog r operation name) := by
  have hfree : g.FailsWith s (.resultNameConflict operation name) →
      Naming.isReserved name = false := by
    intro h
    obtain ⟨r, before, m, after, pms, st, hr, hms, -, hm⟩ := (failsWith_iff rfl).1 h
    obtain ⟨-, op, -, -, -, hgiven, -⟩ := member_eq_conflict_iff.1 hm
    exact (not_reserved_of_valid hvalid hs hr hms).2 name (resultName_of_given hgiven)
  refine ⟨?_, hfree, ?_, ?_⟩
  · intro h
    obtain ⟨r, before, m, after, pms, st, hr, hms, -, hm⟩ := (failsWith_iff rfl).1 h
    obtain ⟨hgiven, hreserved⟩ := reserved_of_member hm
    rw [(not_reserved_of_valid hvalid hs hr hms).1 name hgiven] at hreserved
    cases hreserved
  · intro h
    obtain ⟨r, before, m, after, pms, st, hr, hms, hwalk, hm⟩ := (failsWith_iff rfl).1 h
    obtain ⟨hcalls, op, hop, hfault, hbind, hgiven, htaken⟩ := member_eq_conflict_iff.1 hm
    have hoccupied := (mem_names_iff_occupied hwalk (hfree h)).1 htaken
    exact ⟨r, hr, Conflict.intro hms hwalk hcalls hop hfault hbind hgiven hoccupied⟩
  · rintro ⟨r, hr, hconflict⟩
    cases hconflict with
    | intro hms hwalk hcalls hop hfault hbind hgiven hoccupied =>
      have hname := (not_reserved_of_valid hvalid hs hr hms).2 name (resultName_of_given hgiven)
      have htaken := (mem_names_iff_occupied hwalk hname).2 hoccupied
      exact (failsWith_iff rfl).2 ⟨r, _, _, _, _, _, hr, hms, hwalk,
        member_eq_conflict_iff.2 ⟨hcalls, _, hop, hfault, hbind, hgiven, htaken⟩⟩

/-- A page that gets a user under a given name, and calls one more operation. -/
def Schema.pageWith (name given : String) (other : Member) : Schema :=
  { Schema.page name "GetUser" with
    groups := [⟨false, [⟨"GetUser", none, none, some given, false, false⟩, other]⟩] }

/-- One page names two results alike, the other a result like the parameter of the member after it. -/
theorem naming_failures_of_valid_page :
    let repeated := Schema.pageWith "UserPage" "user" ⟨"GetUser", none, none, some "user", false, false⟩
    let hidden := Schema.pageWith "HomePage" "id" ⟨"2Get", some "id", none, none, false, false⟩
    let c := pageConfig [repeated, hidden]
    let g := digitGenerator
    c.faults = [] ∧ repeated ∈ c.schemas ∧ hidden ∈ c.schemas ∧
      (∃ r, repeated.resolve g.catalog = .ok r ∧ Conflict g.catalog r "GetUser" "user") ∧
      ∃ r, hidden.resolve g.catalog = .ok r ∧ Conflict g.catalog r "GetUser" "id" := by
  intro repeated hidden c g
  have hvalid : c.faults = [] := by decide +kernel
  have hrepeated : repeated ∈ c.schemas := List.mem_cons_self ..
  have hhidden : hidden ∈ c.schemas := List.mem_cons_of_mem _ (List.mem_cons_self ..)
  have hfirst : g.plan repeated = .error ⟨"UserPage", .resultNameConflict "GetUser" "user"⟩ := by
    decide +kernel
  have hsecond : g.plan hidden = .error ⟨"HomePage", .resultNameConflict "GetUser" "id"⟩ := by
    decide +kernel
  exact ⟨hvalid, hrepeated, hhidden,
    (naming_failures_of_valid hvalid hrepeated g "GetUser" "user").2.2.1 ⟨_, hfirst, rfl⟩,
    (naming_failures_of_valid hvalid hhidden g "GetUser" "id").2.2.1 ⟨_, hsecond, rfl⟩⟩

end Orchestration
