import Orchestration.Plan.Output
import Orchestration.Proofs.Plan.Walk
import Orchestration.Render.MultiQuery

/-!
# Result names

The names that members claim during a walk are new and pairwise distinct, and every result that is
bound is bound to one of them. A result therefore never hides another one or a parameter. The names
of the body and the keywords are taken from the start, the handles of concurrent members are not.
What names a walk hands out is decided by the names that are asked for, and so is whether one of
them is a handle: `AsksNoHandle` says when none is.
-/

namespace Orchestration

open Naming (TakenNames)

variable {catalog : Catalog} {s : ResolvedSchema} {scope : String} {p : Plan}

namespace Compile

variable {st st' : Progress} {names : TakenNames} {m : ResolvedMember} {op : OperationShape}
  {ms : List ResolvedMember} {pms : List PlanMember}

/-! ## Claims are new -/

/-- No name is claimed twice during a walk, and none that was taken before it. -/
theorem Walk.claimedNames_new (h : Walk catalog st ms pms st') :
    (claimedNames catalog st.names ms).Nodup ∧
      ∀ name ∈ claimedNames catalog st.names ms, name ∉ st.names.names := by
  induction h with
  | nil => exact ⟨List.nodup_nil, fun _ h => nomatch h⟩
  | @cons st st' m op ms pms hop hadm _ ih =>
    obtain ⟨hnodup, hnew⟩ := ih
    simp only [claimedNames, hop, Option.bind_some]
    cases hc : claimedName? st.names m op with
    | none =>
      simp only [Progress.next, hc] at hnodup hnew
      exact ⟨hnodup, hnew⟩
    | some name =>
      simp only [Progress.next, hc] at hnodup hnew
      have hfree := claimedName?_notMem hadm.nameFree hc
      have hnot : ∀ x ∈ claimedNames catalog (st.names.insert name) ms,
          x ≠ name ∧ x ∉ st.names.names := by
        intro x hx
        have := hnew x hx
        simp only [Option.toList_some, List.foldl_cons, List.foldl_nil, TakenNames.mem_insert,
          not_or] at this
        exact this
      refine ⟨List.nodup_cons.mpr ⟨fun h => (hnot name h).1 rfl, hnodup⟩, ?_⟩
      intro x hx
      rcases List.mem_cons.mp hx with rfl | hx
      · exact hfree
      · exact (hnot x hx).2

/-- The results that are bound are bound to claimed names, in the order of the claims. -/
theorem Walk.boundVars_sublist (h : Walk catalog st ms pms st') :
    ((pms.filter PlanMember.bindsResult).map PlanMember.resultVar).Sublist
      (claimedNames catalog st.names ms) := by
  induction h with
  | nil => exact List.Sublist.slnil
  | @cons st st' m op ms pms hop _ _ ih =>
    simp only [claimedNames, hop, Option.bind_some]
    cases hc : claimedName? st.names m op with
    | none =>
      simp only [Progress.next, hc] at ih
      rw [List.filter_cons_of_neg (by rw [bindsResult_planMember_of_none hc]; decide)]
      exact ih
    | some name =>
      simp only [Progress.next, hc] at ih
      by_cases hb : (planMember st.names m op).bindsResult = true
      · rw [List.filter_cons_of_pos hb, List.map_cons, resultVar_planMember_of_some hc]
        exact ih.cons_cons name
      · rw [List.filter_cons_of_neg hb]
        exact ih.cons name

end Compile

/-- **Bound results have pairwise distinct names, and none has the name of a parameter.** -/
theorem boundVars_distinct (h : s.compile catalog scope = .ok p) :
    ((boundMembers p.groups).map PlanMember.resultVar).Nodup ∧
      ∀ pm ∈ boundMembers p.groups, pm.resultVar ∉ p.params.keys := by
  have hwalk := walk_of_compile h
  obtain ⟨hnodup, hnew⟩ := hwalk.claimedNames_new
  have hsub := hwalk.boundVars_sublist
  refine ⟨hsub.nodup hnodup, fun pm hpm hkey => ?_⟩
  have hclaimed := hsub.subset (List.mem_map_of_mem (f := PlanMember.resultVar) hpm)
  rw [params_of_compile h, mem_keys_collected] at hkey
  exact hnew _ hclaimed (Compile.mem_start_names.2 (Or.inl hkey))

theorem boundVars_distinct_report :
    ∃ p, reportSchema.compile reportCatalog "db" = .ok p ∧
      ((boundMembers p.groups).map PlanMember.resultVar).Nodup ∧
      ∀ pm ∈ boundMembers p.groups, pm.resultVar ∉ p.params.keys := by
  obtain ⟨p, h⟩ := reportSchema_compiles
  exact ⟨p, h, boundVars_distinct h⟩

/-! ## Claims of handles -/

namespace Compile

variable {st st' : Progress} {names : TakenNames} {m : ResolvedMember} {op : OperationShape}
  {ms : List ResolvedMember} {pms : List PlanMember} {asked claimed : String}

/-- The names that members ask for, in order. -/
def askedNames (catalog : Catalog) (ms : List ResolvedMember) : List String :=
  ms.filterMap fun m => (catalog.get? m.operation).bind (askedName? m)

theorem askedNames_cons (hop : catalog.get? m.operation = some op) :
    askedNames catalog (m :: ms) = (askedName? m op).toList ++ askedNames catalog ms := by
  unfold askedNames
  rw [List.filterMap_cons, hop, Option.bind_some]
  cases askedName? m op <;> rfl

/-- An answer is a handle if the name asked for is a free one, or is `task` and taken. -/
theorem Answer.isTaskHandle_iff (h : Answer names asked claimed) :
    Naming.isTaskHandle claimed.toList = true ↔
      (Naming.isTaskHandle asked.toList = true ∧ asked ∉ names.names) ∨
        (asked = "task" ∧ "task" ∈ names.names) := by
  cases h with
  | given hfree =>
    constructor
    · intro h
      exact Or.inl ⟨h, hfree⟩
    · rintro (⟨h, -⟩ | ⟨rfl, h⟩)
      · exact h
      · exact absurd h hfree
  | derived => exact TakenNames.isTaskHandle_derivedName_iff

theorem Answer.eq_task_iff (h : Answer names asked claimed) :
    claimed = "task" ↔ asked = "task" ∧ "task" ∉ names.names := by
  cases h with
  | given hfree =>
    constructor
    · rintro rfl
      exact ⟨rfl, hfree⟩
    · exact fun h => h.1
  | derived => exact TakenNames.derivedName_eq_task_iff

/-- Where no handle is taken and none is handed out, none is asked for, and `task` only while it is
free. -/
theorem Answer.asked_unhandled (h : Answer names asked claimed)
    (hnames : ∀ name ∈ names.names, Naming.isTaskHandle name.toList = false)
    (hclaimed : Naming.isTaskHandle claimed.toList = false) :
    Naming.isTaskHandle asked.toList = false ∧ (asked = "task" → "task" ∉ names.names) := by
  have hnot : ¬ Naming.isTaskHandle claimed.toList = true := by rw [hclaimed]; decide
  rw [h.isTaskHandle_iff, not_or, not_and, not_and] at hnot
  refine ⟨?_, hnot.2⟩
  rw [← Bool.not_eq_true]
  intro hasked
  refine hnot.1 hasked fun hmem => ?_
  rw [hnames asked hmem] at hasked
  cases hasked

/-- A walk that starts without handles hands none out exactly if none is asked for and `task` is
asked for only as long as it is free. -/
theorem Walk.claimedNames_unhandled_iff (h : Walk catalog st ms pms st')
    (hst : ∀ name ∈ st.names.names, Naming.isTaskHandle name.toList = false) :
    (∀ name ∈ claimedNames catalog st.names ms, Naming.isTaskHandle name.toList = false) ↔
      (∀ name ∈ askedNames catalog ms, Naming.isTaskHandle name.toList = false) ∧
        (askedNames catalog ms).count "task" ≤ if "task" ∈ st.names.names then 0 else 1 := by
  induction h with
  | nil => simp [claimedNames, askedNames]
  | @cons st st' m op ms pms hop hadm _ ih =>
    rcases claim_cases hadm.nameFree with
      ⟨hasked, hclaimed⟩ | ⟨asked, claimed, hasked, hclaimed, hanswer⟩
    · have hnames : (st.next m op).names = st.names := by
        simp only [Progress.next, hclaimed, Option.toList_none, List.foldl_nil]
      have hskip : askedNames catalog (m :: ms) = askedNames catalog ms := by
        rw [askedNames_cons hop, hasked, Option.toList_none, List.nil_append]
      rw [hnames] at ih
      simpa only [claimedNames, hop, Option.bind_some, hclaimed, hskip, Option.toList_none,
        List.nil_append, List.foldl_nil] using ih hst
    · have hnames : (st.next m op).names = st.names.insert claimed := by
        simp only [Progress.next, hclaimed, Option.toList_some, List.foldl_cons, List.foldl_nil]
      have hmore : askedNames catalog (m :: ms) = asked :: askedNames catalog ms := by
        rw [askedNames_cons hop, hasked, Option.toList_some, List.singleton_append]
      have hhandle := hanswer.isTaskHandle_iff
      have htask := hanswer.eq_task_iff
      simp only [claimedNames, hop, Option.bind_some, hclaimed, Option.toList_some,
        List.singleton_append, List.foldl_cons, List.foldl_nil, hmore, List.forall_mem_cons,
        List.count_cons]
      cases hc : Naming.isTaskHandle claimed.toList with
      | true =>
        -- a handle is handed out, so either it or a `task` that is taken is asked for
        refine iff_of_false (fun h => Bool.noConfusion h.1) ?_
        rintro ⟨⟨hno, -⟩, hcount⟩
        rcases hhandle.1 hc with ⟨hyes, -⟩ | ⟨rfl, htaken⟩
        · rw [hno] at hyes
          cases hyes
        · simp [htaken] at hcount
      | false =>
        obtain ⟨hno, hfree⟩ := hanswer.asked_unhandled hst hc
        have hnext : ∀ name ∈ (st.next m op).names.names,
            Naming.isTaskHandle name.toList = false := by
          rw [hnames]
          intro name hname
          rcases TakenNames.mem_insert.1 hname with rfl | hname
          · exact hc
          · exact hst name hname
        have ih := ih hnext
        rw [hnames] at ih
        by_cases he : asked = "task"
        · have hclaim : claimed = "task" := htask.2 ⟨he, hfree he⟩
          rw [hclaim] at ih
          have hlist : Naming.isTaskHandle ['t', 'a', 's', 'k'] = false := rfl
          simp [ih, hclaim, he, hfree he, hlist]
        · have hne : "task" ≠ claimed := fun hn => he (htask.1 hn.symm).1
          simp [ih, he, hne, hno]

theorem claimedName?_eq_some_iff {name : String} :
    claimedName? names m op = some name ↔ m.resultMode = .bind ∧
      (planMember names m op).isErrorOnly = false ∧ (planMember names m op).resultVar = name := by
  have herror : (planMember names m op).isErrorOnly = op.result.isErrorOnly := rfl
  rw [herror]
  constructor
  · intro h
    have hvar := resultVar_planMember_of_some h
    unfold claimedName? wantsResult at h
    split at h
    · rename_i hwants
      rw [Bool.and_eq_true, Bool.not_eq_true', decide_eq_true_eq] at hwants
      exact ⟨hwants.2, hwants.1, hvar⟩
    · cases h
  · rintro ⟨hmode, hresult, hvar⟩
    have hclaimed : claimedName? names m op =
        some (m.resultName.getD (names.derivedName (resultBase op))) := by
      simp [claimedName?, wantsResult, hmode, hresult]
    rw [hclaimed, ← hvar, resultVar_planMember_of_some hclaimed]

/-- The names that members claim are those that the results of bound members have. -/
theorem Walk.mem_claimedNames_iff {name : String} (h : Walk catalog st ms pms st') :
    name ∈ claimedNames catalog st.names ms ↔
      ∃ m pm, (m, pm) ∈ ms.zip pms ∧ m.resultMode = .bind ∧ pm.isErrorOnly = false ∧
        pm.resultVar = name := by
  induction h with
  | nil => simp [claimedNames]
  | @cons st st' m op ms pms hop _ _ ih =>
    simp only [claimedNames, hop, Option.bind_some, List.mem_append, Option.mem_toList]
    rw [claimedName?_eq_some_iff]
    constructor
    · rintro (hfirst | hrest)
      · exact ⟨m, _, List.mem_cons_self .., hfirst⟩
      · obtain ⟨m', pm', hmem, hclaims⟩ := ih.1 hrest
        exact ⟨m', pm', List.mem_cons_of_mem _ hmem, hclaims⟩
    · rintro ⟨m', pm', hmem, hclaims⟩
      rcases List.mem_cons.1 hmem with he | hmem
      · cases he
        exact Or.inl hclaims
      · exact Or.inr (ih.2 ⟨m', pm', hmem, hclaims⟩)

theorem Walk.exists_of_mem_claimedNames {name : String} (h : Walk catalog st ms pms st')
    (hname : name ∈ claimedNames catalog st.names ms) : ∃ pm ∈ pms, pm.resultVar = name := by
  obtain ⟨m, pm, hmem, -, -, hvar⟩ := h.mem_claimedNames_iff.1 hname
  exact ⟨pm, (List.of_mem_zip hmem).2, hvar⟩

end Compile

/-- What a schema asks for when none of its results is given a handle. -/
structure AsksNoHandle (catalog : Catalog) (s : ResolvedSchema) : Prop where
  /-- No member asks for a handle. -/
  notHandle : ∀ name ∈ Compile.askedNames catalog s.members,
    Naming.isTaskHandle name.toList = false
  /-- The name `task`, whose numbered forms are handles, is asked for at most once. -/
  taskOnce : (Compile.askedNames catalog s.members).count "task" ≤ 1
  /-- It is not asked for if a member brings in a parameter of this name. -/
  taskFree : "task" ∈ Compile.askedNames catalog s.members →
    ∀ p ∈ Compile.broughtParams catalog s.members, p.fieldName ≠ "task"

theorem asksNoHandle_iff :
    AsksNoHandle catalog s ↔
      (∀ name ∈ Compile.askedNames catalog s.members, Naming.isTaskHandle name.toList = false) ∧
        (Compile.askedNames catalog s.members).count "task" ≤
          if "task" ∈ (Compile.start catalog s).names.names then 0 else 1 := by
  have htask : "task" ∈ (Compile.start catalog s).names.names ↔
      ∃ p ∈ Compile.broughtParams catalog s.members, p.fieldName = "task" := by
    have hbody : "task" ∉ Naming.bodyNames := by decide
    have hkeyword : "task" ∉ Naming.keywords := by decide
    rw [Compile.mem_start_names]
    simp only [hbody, hkeyword, or_false]
  by_cases h : "task" ∈ (Compile.start catalog s).names.names
  · obtain ⟨p, hp, hname⟩ := htask.1 h
    rw [if_pos h, Nat.le_zero, List.count_eq_zero]
    constructor
    · intro ha
      exact ⟨ha.notHandle, fun hasked => ha.taskFree hasked p hp hname⟩
    · rintro ⟨hno, hnot⟩
      refine ⟨hno, ?_, fun hasked => absurd hasked hnot⟩
      rw [List.count_eq_zero.2 hnot]
      exact Nat.zero_le 1
  · rw [if_neg h]
    constructor
    · intro ha
      exact ⟨ha.notHandle, ha.taskOnce⟩
    · rintro ⟨hno, honce⟩
      exact ⟨hno, honce, fun _ p hp hname => h (htask.2 ⟨p, hp, hname⟩)⟩

theorem bindsResult_of_isTaskHandle {pm : PlanMember}
    (h : Naming.isTaskHandle pm.resultVar.toList = true) : pm.bindsResult = true := by
  unfold PlanMember.bindsResult
  simp only [Bool.and_eq_true, decide_eq_true_eq]
  constructor
  · intro he
    rw [he] at h
    cases h
  · intro he
    rw [he] at h
    cases h

theorem boundVar_not_taken (h : s.compile catalog scope = .ok p) {pm : PlanMember}
    (hpm : pm ∈ boundMembers p.groups) :
    pm.resultVar ∉ Naming.bodyNames ∧ pm.resultVar ∉ Naming.keywords := by
  have hwalk := walk_of_compile h
  have hclaimed := hwalk.boundVars_sublist.subset
    (List.mem_map_of_mem (f := PlanMember.resultVar) hpm)
  have hnew := hwalk.claimedNames_new.2 _ hclaimed
  rw [Compile.mem_start_names, not_or, not_or] at hnew
  exact hnew.2

/-- The only reserved names among bound results are handles. -/
theorem boundVar_reserved_iff (h : s.compile catalog scope = .ok p) {pm : PlanMember}
    (hpm : pm ∈ boundMembers p.groups) :
    Naming.isReserved pm.resultVar = true ↔ Naming.isTaskHandle pm.resultVar.toList = true := by
  obtain ⟨hbody, hkeyword⟩ := boundVar_not_taken h hpm
  rw [Naming.isReserved_iff]
  tauto

theorem start_unhandled (h : s.compile catalog scope = .ok p) :
    ∀ name ∈ (Compile.start catalog s).names.names, Naming.isTaskHandle name.toList = false := by
  intro name hname
  have htaken : ∀ x ∈ Naming.bodyNames ++ Naming.keywords,
      Naming.isTaskHandle x.toList = false := by decide
  rcases Compile.mem_start_names.1 hname with ⟨q, hq, rfl⟩ | hbody | hkeyword
  · have hnot := (walk_of_compile h).fieldName_not_reserved hq
    rw [← Bool.not_eq_true, Naming.isReserved_iff, not_or, not_or, Bool.not_eq_true] at hnot
    exact hnot.2.2
  · exact htaken name (List.mem_append_left _ hbody)
  · exact htaken name (List.mem_append_right _ hkeyword)

/-- No bound result is a handle exactly if none is asked for in one of the ways that lead to one. -/
theorem boundVars_unhandled_iff (h : s.compile catalog scope = .ok p) :
    (∀ pm ∈ boundMembers p.groups, Naming.isTaskHandle pm.resultVar.toList = false) ↔
      AsksNoHandle catalog s := by
  have hwalk := walk_of_compile h
  rw [asksNoHandle_iff, ← hwalk.claimedNames_unhandled_iff (start_unhandled h)]
  constructor
  · intro hnone name hname
    obtain ⟨pm, hpm, rfl⟩ := hwalk.exists_of_mem_claimedNames hname
    rw [← Bool.not_eq_true]
    intro hhandle
    have hbound : pm ∈ boundMembers p.groups :=
      List.mem_filter.mpr ⟨hpm, bindsResult_of_isTaskHandle hhandle⟩
    rw [hnone pm hbound] at hhandle
    cases hhandle
  · intro hnone pm hpm
    exact hnone _ (hwalk.boundVars_sublist.subset
      (List.mem_map_of_mem (f := PlanMember.resultVar) hpm))

theorem isTaskHandle_taskName (index : Nat) :
    Naming.isTaskHandle (Render.MultiQuery.taskName index).toList = true :=
  (Naming.isTaskHandle_numbered_iff "task" index).2 rfl

/-- **No bound result has a reserved name exactly if the schema asks for no handle.** The names of
the body and the keywords are never bound; where no handle is asked for, no statement that starts a
concurrent member binds the name of a result anew. -/
theorem boundVars_unreserved_iff (h : s.compile catalog scope = .ok p) :
    (∀ pm ∈ boundMembers p.groups,
        pm.resultVar ∉ Naming.bodyNames ∧ pm.resultVar ∉ Naming.keywords) ∧
      ((∀ pm ∈ boundMembers p.groups, Naming.isReserved pm.resultVar = false) ↔
        AsksNoHandle catalog s) ∧
      (AsksNoHandle catalog s → ∀ pm ∈ boundMembers p.groups, ∀ index,
        pm.resultVar ≠ Render.MultiQuery.taskName index) := by
  refine ⟨fun pm hpm => boundVar_not_taken h hpm, ?_, fun hnone pm hpm index he => ?_⟩
  · rw [← boundVars_unhandled_iff h]
    refine forall₂_congr fun pm hpm => ?_
    rw [← Bool.not_eq_true, boundVar_reserved_iff h hpm, Bool.not_eq_true]
  · have hfalse := (boundVars_unhandled_iff h).2 hnone pm hpm
    rw [he, isTaskHandle_taskName] at hfalse
    cases hfalse

theorem boundVars_unreserved_iff_report :
    ∃ p, reportSchema.compile reportCatalog "db" = .ok p ∧
      (∀ pm ∈ boundMembers p.groups,
        pm.resultVar ∉ Naming.bodyNames ∧ pm.resultVar ∉ Naming.keywords) ∧
      ((∀ pm ∈ boundMembers p.groups, Naming.isReserved pm.resultVar = false) ↔
        AsksNoHandle reportCatalog reportSchema) ∧
      (AsksNoHandle reportCatalog reportSchema → ∀ pm ∈ boundMembers p.groups, ∀ index,
        pm.resultVar ≠ Render.MultiQuery.taskName index) := by
  obtain ⟨p, h⟩ := reportSchema_compiles
  exact ⟨p, h, boundVars_unreserved_iff h⟩

/-- An operation whose result type is called like a handle, and one that only succeeds or fails. -/
def handleCatalog : Catalog :=
  { scope := "db"
    operations := Table.ofList
      [("GetTask", ⟨"GetTask", .none, .value .single "Task_2" ∅, none⟩),
       ("Touch", ⟨"Touch", .none, .errorOnly, none⟩)]
    types := ∅ }

/-- One result and then a group of three concurrent members, the last of which has the handle that
is the result's name. -/
def handleSchema : ResolvedSchema :=
  let touch : ResolvedMember := ⟨"Touch", none, none, none, .bind⟩
  { name := "Report"
    output := ⟨"Report", false, Table.ofList [("task_2", "Task_2")]⟩
    groups := [⟨false, [⟨"GetTask", none, none, none, .bind⟩]⟩, ⟨false, [touch, touch, touch]⟩]
    outFile := "report" }

/-- A bound result can have a reserved name: that of a handle which a later group starts anew. -/
theorem boundVars_reserved_handle :
    ∃ p, handleSchema.compile handleCatalog "db" = .ok p ∧
      ∃ pm ∈ boundMembers p.groups, Naming.isReserved pm.resultVar = true ∧
        ∃ g ∈ p.groups.drop 1, g.discipline = .concurrent ∧
          ∃ index < g.members.length, Render.MultiQuery.taskName index = pm.resultVar :=
  exists_plan_of_any (by decide +kernel)

end Orchestration
