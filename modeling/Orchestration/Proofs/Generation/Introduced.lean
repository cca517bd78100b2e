import Orchestration.Proofs.Generation.Clash
import Orchestration.Proofs.Generation.Frame
import Orchestration.Proofs.Naming.Lead
import Orchestration.Proofs.Plan.ResultNames

/-!
# The names that a method introduces

A generated method introduces its own name, those of its parameters and those of the results that it
binds. The ones that a schema gives are checked, and none of the others but the method's is ever a
keyword; but a name that is made of another may start with a digit, or be empty. `WellNamed` says when
all of them are identifiers and no keywords, in terms of what they are made of.
-/

namespace Orchestration

open Compile

variable {catalog : Catalog} {c : Config} {g : Generator} {s : Schema} {r : ResolvedSchema} {p : Plan}
  {m : Member} {op : OperationShape} {path : Option ParamPath}

/-- The names that the method of a plan introduces. -/
def Plan.introduced (p : Plan) : List String :=
  Naming.snakeCase p.name :: (p.params.keys ++ (boundMembers p.groups).map PlanMember.resultVar)

theorem Plan.forall_introduced_iff {P : String → Prop} :
    (∀ name ∈ p.introduced, P name) ↔ P (Naming.snakeCase p.name) ∧ (∀ k ∈ p.params.keys, P k) ∧
      ∀ pm ∈ boundMembers p.groups, P pm.resultVar := by
  rw [introduced, List.forall_mem_cons, List.forall_mem_append, List.forall_mem_map]

/-! ## Members of a resolved schema -/

/-- A shared path that is read is there exactly if one is given. -/
theorem Member.exists_path_of_resolve {m' : ResolvedMember} (h : m.resolve catalog = .ok m') :
    ∃ path, m' = m.withPath path ∧ (path = none ↔ m.sharedParam = none) := by
  obtain ⟨-, path, hpath, rfl⟩ := resolve_eq_ok_iff.1 h
  refine ⟨path, rfl, ?_⟩
  generalize m.sharedParam = text at hpath
  cases hpath <;> simp

theorem Generator.plan_eq_ok_iff :
    g.plan s = .ok p ↔ ∃ r, s.resolve g.catalog = .ok r ∧ r.compile g.catalog g.scope = .ok p := by
  unfold plan
  cases s.resolve g.catalog with
  | error e => simp
  | ok r => simp

/-! ## Parameters -/

/-- The name of a composite is an identifier exactly if that of its type leads with a letter. -/
theorem isIdentifier_compositeParamName (typeName : String) :
    Naming.isIdentifier (compositeParamName typeName) = Naming.leadsWithLetter typeName := by
  unfold compositeParamName
  dsimp only
  split
  · rename_i hreserved
    have hsnake := Naming.isIdentifier_of_isReserved hreserved
    rw [Naming.isIdentifier_snakeCase] at hsnake
    rw [Naming.isIdentifier_snakeCase_append typeName (by decide) (by decide +kernel), hsnake,
      Naming.leadsWithDigit_of_letter hsnake]
    rfl
  · exact Naming.isIdentifier_snakeCase typeName

theorem isIdentifier_defaultParamName (operation : String) :
    Naming.isIdentifier (defaultParamName operation) = !Naming.leadsWithDigit operation :=
  Naming.isIdentifier_snakeCase_append operation (by decide) (by decide +kernel)

/-- What makes the names that a member leaves to be made up identifiers. -/
structure Member.WellNamed (m : Member) (op : OperationShape) : Prop where
  /-- The type of a composite argument leads with a letter. -/
  composite : ∀ typeName fields, op.argument = .composite typeName fields →
    Naming.leadsWithLetter typeName = true
  /-- An operation after which a plain argument is named does not lead with a digit. -/
  plain : ∀ typeName, op.argument = .plain typeName → m.paramName = none → m.sharedParam = none →
    Naming.leadsWithDigit op.name = false
  /-- Nor does a type after which a result is named. -/
  result : op.result.isErrorOnly = false → m.resultMode = .bind → m.resultName = none →
    Naming.leadsWithDigit op.result.typeName = false

/-- Where the name of a parameter that a member brings in comes from. -/
theorem fieldName_cases {m : ResolvedMember} {q : Param} (h : broughtParam? m op = some q) :
    (∃ typeName fields, op.argument = .composite typeName fields ∧
      q.fieldName = compositeParamName typeName) ∨
    ∃ typeName, op.argument = .plain typeName ∧ (m.paramName = some q.fieldName ∨
      m.paramName = none ∧ m.sharedParam = none ∧ q.fieldName = defaultParamName op.name) := by
  have hop := fault_eq_none_of_brought h
  unfold broughtParam? at h
  rw [hop, Option.isSome_none, if_neg Bool.false_ne_true] at h
  cases hargument : op.argument with
  | none =>
    rw [hargument] at h
    cases h
  | composite typeName fields =>
    rw [hargument] at h
    rw [← Option.some.inj h]
    exact Or.inl ⟨typeName, fields, rfl, rfl⟩
  | plain typeName =>
    rw [hargument] at h
    cases hname : m.paramName with
    | some name =>
      rw [hname] at h
      cases h
      exact Or.inr ⟨typeName, rfl, Or.inl rfl⟩
    | none =>
      cases hshared : m.sharedParam with
      | some path =>
        rw [hname, hshared] at h
        cases h
      | none =>
        rw [hname, hshared] at h
        rw [← Option.some.inj h]
        exact Or.inr ⟨typeName, rfl, Or.inr ⟨rfl, rfl, rfl⟩⟩

theorem exists_brought_composite {m : ResolvedMember} {typeName : String} {fields : Fields}
    (hop : op.fault = none) (h : op.argument = .composite typeName fields) :
    ∃ q, broughtParam? m op = some q ∧ q.fieldName = compositeParamName typeName := by
  unfold broughtParam?
  rw [hop, Option.isSome_none, if_neg Bool.false_ne_true, h]
  exact ⟨_, rfl, rfl⟩

theorem exists_brought_plain {m : ResolvedMember} {typeName : String} (hop : op.fault = none)
    (h : op.argument = .plain typeName) (hname : m.paramName = none) (hshared : m.sharedParam = none) :
    ∃ q, broughtParam? m op = some q ∧ q.fieldName = defaultParamName op.name := by
  unfold broughtParam?
  rw [hop, Option.isSome_none, if_neg Bool.false_ne_true, h, hname, hshared]
  exact ⟨_, rfl, rfl⟩

/-! ## Results -/

/-- Where the name that a member claims for its result comes from. -/
theorem claimedName_cases {names : Naming.TakenNames} {m : ResolvedMember} {name : String}
    (h : claimedName? names m op = some name) :
    m.resultName = some name ∨ op.result.isErrorOnly = false ∧ m.resultMode = .bind ∧
      m.resultName = none ∧ name = names.derivedName (resultBase op) := by
  unfold claimedName? wantsResult at h
  split at h
  · rename_i hwants
    rw [Bool.and_eq_true, Bool.not_eq_true', decide_eq_true_eq] at hwants
    cases hname : m.resultName with
    | some given =>
      rw [hname] at h
      exact Or.inl h
    | none =>
      rw [hname] at h
      exact Or.inr ⟨hwants.1, hwants.2, rfl, (Option.some.inj h).symm⟩
  · cases h

theorem claimedName_derived {m : ResolvedMember} (names : Naming.TakenNames)
    (herror : op.result.isErrorOnly = false) (hmode : m.resultMode = .bind)
    (hname : m.resultName = none) :
    claimedName? names m op = some (names.derivedName (resultBase op)) := by
  unfold claimedName? wantsResult
  rw [herror, hmode, hname]
  rfl

/-- A claimed name is an identifier if it is one where it is bound; the marker of a dropped result is
one anyway. -/
theorem isIdentifier_of_claimed {names : Naming.TakenNames} {m : ResolvedMember} {name : String}
    (h : claimedName? names m op = some name) (hne : name ≠ "")
    (hbound : (planMember names m op).bindsResult = true →
      Naming.isIdentifier (planMember names m op).resultVar = true) :
    Naming.isIdentifier name = true := by
  have hvar := resultVar_planMember_of_some h
  by_cases hbinds : (planMember names m op).bindsResult = true
  · rw [← hvar]
    exact hbound hbinds
  · rw [PlanMember.bindsResult, hvar] at hbinds
    have hmarker : name = discardMarker := by simpa [hne] using hbinds
    rw [hmarker]
    rfl

/-! ## Plans -/

/-- What makes all names that the method of a schema introduces identifiers and no keywords. -/
structure Schema.WellNamed (catalog : Catalog) (s : Schema) : Prop where
  /-- The name of the schema leads with a letter, -/
  letter : Naming.leadsWithLetter s.name = true
  /-- and its snake form is no keyword. -/
  noKeyword : Naming.isKeyword (Naming.snakeCase s.name) = false
  /-- So it is for the names that members leave to be made up. -/
  members : ∀ m ∈ s.members, ∀ op, catalog.get? m.operation = some op → m.WellNamed op

section Plan

variable {scope : String} (hr : s.resolve catalog = .ok r) (hc : r.compile catalog scope = .ok p)

include hr hc

theorem name_of_plan : p.name = s.name := by
  obtain ⟨output, -, hr⟩ := bind_eq_ok_iff.1 (mapError_eq_ok_iff.1 hr)
  obtain ⟨groups, -, hr⟩ := bind_eq_ok_iff.1 hr
  obtain ⟨pgs, st, -, rfl⟩ := compile_eq_ok_iff_groups.1 hc
  rw [← pure_eq_ok_iff.1 hr]

theorem isIdentifier_of_mem_params
    (hgiven : ∀ m ∈ s.members, ∀ n, m.paramName = some n → Naming.isIdentifier n = true)
    (hnamed : ∀ m ∈ s.members, ∀ op, catalog.get? m.operation = some op → m.WellNamed op) :
    ∀ k ∈ p.params.keys, Naming.isIdentifier k = true := by
  intro k hk
  rw [params_of_compile hc, mem_keys_collected] at hk
  obtain ⟨q, hq, rfl⟩ := hk
  obtain ⟨m', hm', op, hop, hbrought⟩ := mem_broughtParams.1 hq
  obtain ⟨m, hm, hresolve⟩ := (Schema.members_of_resolve hr).1 m' hm'
  obtain ⟨path, rfl, hpath⟩ := Member.exists_path_of_resolve hresolve
  have hwell := hnamed m hm op hop
  rcases fieldName_cases hbrought with
    ⟨typeName, fields, hargument, hname⟩ | ⟨typeName, hargument, hname | ⟨hname, hshared, hdefault⟩⟩
  · rw [hname, isIdentifier_compositeParamName, hwell.composite typeName fields hargument]
  · exact hgiven m hm _ hname
  · rw [hdefault, isIdentifier_defaultParamName,
      hwell.plain typeName hargument hname (hpath.1 hshared)]
    rfl

theorem isIdentifier_of_mem_results
    (hgiven : ∀ m ∈ s.members, ∀ n, m.resultName = some n → Naming.isIdentifier n = true)
    (hnamed : ∀ m ∈ s.members, ∀ op, catalog.get? m.operation = some op → m.WellNamed op) :
    ∀ pm ∈ boundMembers p.groups, Naming.isIdentifier pm.resultVar = true := by
  intro pm hpm
  obtain ⟨hpm, hbound⟩ := List.mem_filter.1 hpm
  obtain ⟨before, m', after, op, hms, hop, -, rfl⟩ := (walk_of_compile hc).exists_of_mem hpm
  have hm' : m' ∈ r.members := by
    rw [hms]
    exact List.mem_append_right before (List.mem_cons_self ..)
  obtain ⟨m, hm, hresolve⟩ := (Schema.members_of_resolve hr).1 m' hm'
  obtain ⟨path, rfl, -⟩ := Member.exists_path_of_resolve hresolve
  cases hclaimed : claimedName? ((start catalog r).after catalog before).names (m.withPath path) op with
  | none =>
    rw [bindsResult_planMember_of_none hclaimed] at hbound
    cases hbound
  | some name =>
    rw [resultVar_planMember_of_some hclaimed]
    rcases claimedName_cases hclaimed with hname | ⟨herror, hmode, hname, rfl⟩
    · exact hgiven m hm name hname
    · rw [resultBase, Naming.isIdentifier_derivedName_resultName,
        (hnamed m hm op hop).result herror hmode hname]
      rfl

theorem wellNamed_of_introduced (hkeys : ∀ k ∈ p.params.keys, Naming.isIdentifier k = true)
    (hresults : ∀ pm ∈ boundMembers p.groups, Naming.isIdentifier pm.resultVar = true)
    (hm : m ∈ s.members) (hop : catalog.get? m.operation = some op) : m.WellNamed op := by
  obtain ⟨m', hm', hresolve⟩ := (Schema.members_of_resolve hr).2 m hm
  obtain ⟨path, rfl, hpath⟩ := Member.exists_path_of_resolve hresolve
  obtain ⟨before, after, hms⟩ := List.append_of_mem hm'
  have hwalk := walk_of_compile hc
  rw [hms] at hwalk
  obtain ⟨op', pms₁, pms₂, hop', hadm, -, hpms⟩ := hwalk.at
  obtain rfl : op' = op := Option.some.inj (hop'.symm.trans hop)
  have hbrought : ∀ q, broughtParam? (m.withPath path) op' = some q →
      Naming.isIdentifier q.fieldName = true := by
    intro q hq
    refine hkeys _ ?_
    rw [params_of_compile hc, mem_keys_collected]
    exact ⟨q, mem_broughtParams.2 ⟨_, hm', op', hop, hq⟩, rfl⟩
  constructor
  case composite =>
    intro typeName fields hargument
    obtain ⟨q, hq, hname⟩ :=
      exists_brought_composite (m := m.withPath path) hadm.analyzable hargument
    rw [← isIdentifier_compositeParamName, ← hname, hbrought q hq]
  case plain =>
    intro typeName hargument hname hshared
    obtain ⟨q, hq, hdefault⟩ :=
      exists_brought_plain (m := m.withPath path) hadm.analyzable hargument hname (hpath.2 hshared)
    have hidentifier := hbrought q hq
    rwa [hdefault, isIdentifier_defaultParamName, Bool.not_eq_true'] at hidentifier
  case result =>
    intro herror hmode hname
    have hclaimed := claimedName_derived (m := m.withPath path)
      ((start catalog r).after catalog before).names herror hmode hname
    have hpm : planMember ((start catalog r).after catalog before).names (m.withPath path) op' ∈
        p.members := by
      rw [hpms]
      exact List.mem_append_right pms₁ (List.mem_cons_self ..)
    have hidentifier := isIdentifier_of_claimed hclaimed (Naming.derivedName_ne_empty _ _)
      fun hbinds => hresults _ (List.mem_filter.2 ⟨hpm, hbinds⟩)
    rwa [resultBase, Naming.isIdentifier_derivedName_resultName, Bool.not_eq_true'] at hidentifier

end Plan

/-- No name of a parameter or a result is a keyword. -/
theorem isKeyword_of_introduced {scope : String} (hc : r.compile catalog scope = .ok p) :
    (∀ k ∈ p.params.keys, Naming.isKeyword k = false) ∧
      ∀ pm ∈ boundMembers p.groups, Naming.isKeyword pm.resultVar = false := by
  constructor
  · intro k hk
    rw [params_of_compile hc, mem_keys_collected] at hk
    obtain ⟨q, hq, rfl⟩ := hk
    have hreserved := (walk_of_compile hc).fieldName_not_reserved hq
    rw [Naming.isReserved, Bool.or_eq_false_iff, Bool.or_eq_false_iff] at hreserved
    exact hreserved.1.1
  · intro pm hpm
    rw [← Bool.not_eq_true, Naming.isKeyword, List.contains_iff_mem]
    exact (boundVar_not_taken hc hpm).2

/-- Over a configuration without faults, the names that a method introduces are identifiers and no
keywords exactly if what they are made of is well named. -/
theorem introduced_wellNamed_iff (hvalid : c.faults = []) (hs : s ∈ c.schemas)
    (h : g.plan s = .ok p) :
    (∀ name ∈ p.introduced, Naming.isIdentifier name = true ∧ Naming.isKeyword name = false) ↔
      s.WellNamed g.catalog := by
  obtain ⟨r, hr, hc⟩ := Generator.plan_eq_ok_iff.1 h
  have hname := name_of_plan hr hc
  obtain ⟨hkeys, hresults⟩ := isKeyword_of_introduced hc
  have hgiven : ∀ m ∈ s.members, (∀ n, m.paramName = some n → Naming.isIdentifier n = true) ∧
      ∀ n, m.resultName = some n → Naming.isIdentifier n = true := by
    intro m hm
    obtain ⟨group, hgroup, hm⟩ := List.mem_flatMap.1 hm
    obtain ⟨number, hmember⟩ :=
      Schema.member_faults_of_faults (Config.faults_of_mem hvalid hs) hgroup hm
    obtain ⟨hparam, hresult⟩ := Member.nameFault?_of_faults hmember
    exact ⟨fun n hn => (nameFault?_eq_none_iff.1 (hparam n hn)).1,
      fun n hn => (nameFault?_eq_none_iff.1 (hresult n hn)).1⟩
  rw [Plan.forall_introduced_iff, hname, Naming.isIdentifier_snakeCase]
  constructor
  · rintro ⟨⟨hletter, hkeyword⟩, hparams, hbound⟩
    refine ⟨hletter, hkeyword, fun m hm op hop => ?_⟩
    exact wellNamed_of_introduced hr hc (fun k hk => (hparams k hk).1)
      (fun pm hpm => (hbound pm hpm).1) hm hop
  · intro hwell
    have hparams := isIdentifier_of_mem_params hr hc (fun m hm => (hgiven m hm).1) hwell.members
    have hbound := isIdentifier_of_mem_results hr hc (fun m hm => (hgiven m hm).2) hwell.members
    exact ⟨⟨hwell.letter, hwell.noKeyword⟩, fun k hk => ⟨hparams k hk, hkeys k hk⟩,
      fun pm hpm => ⟨hbound pm hpm, hresults pm hpm⟩⟩

/-- A generator over pages, with an operation whose name leads with a digit. -/
def digitGenerator : Generator :=
  Generator.pageGenerator.over (pageDescriptor
    [("GetUser", ⟨["ctx"], ["User", "error"]⟩), ("2Get", ⟨["ctx", "i64"], ["User", "error"]⟩)])

theorem introduced_wellNamed_iff_page :
    let c := pageConfig [.page "UserPage" "GetUser"]
    let s := Schema.page "UserPage" "GetUser"
    c.faults = [] ∧ s ∈ c.schemas ∧ ∃ p, digitGenerator.plan s = .ok p ∧
      ((∀ name ∈ p.introduced, Naming.isIdentifier name = true ∧ Naming.isKeyword name = false) ↔
        s.WellNamed digitGenerator.catalog) := by
  intro c s
  have hvalid : c.faults = [] := by decide +kernel
  have hs : s ∈ c.schemas := List.mem_singleton_self s
  have hplan : (digitGenerator.plan s).toOption.isSome = true := by decide +kernel
  cases h : digitGenerator.plan s with
  | error e =>
    rw [h] at hplan
    cases hplan
  | ok p => exact ⟨hvalid, hs, p, rfl, introduced_wellNamed_iff hvalid hs h⟩

/-- The checks let a method through that is called like a keyword, and a parameter whose name starts
with a digit. -/
theorem introduced_keyword_and_digit :
    let c := pageConfig [.page "Match" "GetUser", .page "UserPage" "2Get"]
    c.faults = [] ∧
      (∃ p, digitGenerator.plan (.page "Match" "GetUser") = .ok p ∧
        "match" ∈ p.introduced ∧ Naming.isKeyword "match" = true) ∧
      ∃ p, digitGenerator.plan (.page "UserPage" "2Get") = .ok p ∧
        "2_get_arg" ∈ p.introduced ∧ Naming.isIdentifier "2_get_arg" = false :=
  ⟨by decide +kernel, exists_ok_of_any (by decide +kernel), exists_ok_of_any (by decide +kernel)⟩

end Orchestration
