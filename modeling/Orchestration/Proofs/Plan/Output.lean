import Orchestration.Proofs.Plan.ResultNames

/-!
# What fills the output

The fields of the output are filled in two passes, by name and then by type. What the first pass
gives to a field stays, and the second pass gives away every result at most once and none that the
first pass has used. So a field can share its source only with fields of the same snake form, and a
field stays empty only if every result of its type and shape fills another one.
-/

namespace Orchestration

variable {bound : List PlanMember} {fields : List (String × String)} {used : List String}
  {fs : List OutputField} {f g : OutputField} {m : PlanMember} {name typeExpr var : String}

/-! ## Results that fit a field -/

/-- The result is called like the field and has its shape. -/
structure PlanMember.FitsName (m : PlanMember) (name typeExpr : String) : Prop where
  var_eq : m.resultVar = Naming.snakeCase name
  shape_eq : m.resultIsCollection = TypeExpr.isCollection typeExpr

/-- The result has the field's bare type and its shape. -/
structure PlanMember.FitsType (m : PlanMember) (typeExpr : String) : Prop where
  type_eq : m.resultType = TypeExpr.bareName typeExpr
  shape_eq : m.resultIsCollection = TypeExpr.isCollection typeExpr

theorem sourceByName?_eq_some_iff :
    sourceByName? bound name typeExpr = some var ↔
      ∃ m ∈ bound, m.FitsName name typeExpr ∧ m.resultVar = var := by
  simp only [sourceByName?, Option.map_eq_some_iff]
  constructor
  · rintro ⟨m, hfind, rfl⟩
    have hfits := List.find?_some hfind
    simp only [Bool.and_eq_true, decide_eq_true_eq] at hfits
    exact ⟨m, List.mem_of_find?_eq_some hfind, ⟨hfits.1, hfits.2⟩, rfl⟩
  · rintro ⟨m, hm, hfits, rfl⟩
    have hsome : (bound.find? fun m => decide (m.resultVar = Naming.snakeCase name) &&
        decide (m.resultIsCollection = TypeExpr.isCollection typeExpr)).isSome = true := by
      rw [List.find?_isSome]
      exact ⟨m, hm, by simp [hfits.var_eq, hfits.shape_eq]⟩
    obtain ⟨m', hfind⟩ := Option.isSome_iff_exists.1 hsome
    have hfits' := List.find?_some hfind
    simp only [Bool.and_eq_true, decide_eq_true_eq] at hfits'
    exact ⟨m', hfind, hfits'.1.trans hfits.var_eq.symm⟩

theorem sourceByType?_eq_some (h : sourceByType? bound used typeExpr = some var) :
    var ∉ used ∧ ∃ m ∈ bound, m.FitsType typeExpr ∧ m.resultVar = var := by
  simp only [sourceByType?, Option.map_eq_some_iff] at h
  obtain ⟨m, hfind, rfl⟩ := h
  have hfits := List.find?_some hfind
  simp only [Bool.and_eq_true, decide_eq_true_eq, Bool.not_eq_true', List.contains_eq_mem,
    decide_eq_false_iff_not] at hfits
  obtain ⟨⟨hfree, htype⟩, hshape⟩ := hfits
  exact ⟨hfree, m, List.mem_of_find?_eq_some hfind, ⟨htype, hshape⟩, rfl⟩

/-- If nothing is left for a field, all that would fit it is used. -/
theorem mem_used_of_sourceByType?_eq_none (h : sourceByType? bound used typeExpr = none)
    (hm : m ∈ bound) (hfits : m.FitsType typeExpr) : m.resultVar ∈ used := by
  simp only [sourceByType?, Option.map_eq_none_iff, List.find?_eq_none] at h
  have hnot := h m hm
  simpa [hfits.type_eq, hfits.shape_eq] using hnot

/-! ## Filling by type -/

/-- One pass over the fields: each stays as it is, or is filled with a result that is new. -/
inductive FilledByType (bound : List PlanMember) :
    List String → List OutputField → List OutputField → Prop where
  | nil (used : List String) : FilledByType bound used [] []
  /-- A field stays if it is filled or nothing that fits it is left. -/
  | keep {used : List String} {f : OutputField} {fs out : List OutputField}
      (nothing : f.source = none → ∀ m ∈ bound, m.FitsType f.typeName → m.resultVar ∈ used)
      (rest : FilledByType bound used fs out) : FilledByType bound used (f :: fs) (f :: out)
  | fill {used : List String} {f : OutputField} {fs out : List OutputField} {m : PlanMember}
      (empty : f.source = none) (mem : m ∈ bound) (fits : m.FitsType f.typeName)
      (new : m.resultVar ∉ used) (rest : FilledByType bound (m.resultVar :: used) fs out) :
      FilledByType bound used (f :: fs) ({ f with source := some m.resultVar } :: out)

theorem filledByType (bound : List PlanMember) (used : List String) (fs : List OutputField) :
    FilledByType bound used fs (fillByType bound used fs) := by
  fun_induction fillByType bound used fs with
  | case1 used => exact FilledByType.nil used
  | case2 used f rest var hsome ih =>
    refine FilledByType.keep (fun hnone => ?_) ih
    rw [hsome] at hnone
    cases hnone
  | case3 used f rest _ hnothing ih =>
    exact FilledByType.keep (fun _ m hm hfits =>
      mem_used_of_sourceByType?_eq_none hnothing hm hfits) ih
  | case4 used f rest hempty var hsome ih =>
    obtain ⟨hnew, m, hm, hfits, rfl⟩ := sourceByType?_eq_some hsome
    exact FilledByType.fill hempty hm hfits hnew ih

/-- The results that fill fields, in the order of the fields. -/
def outputSources (fs : List OutputField) : List String :=
  fs.filterMap OutputField.source

theorem mem_outputSources : var ∈ outputSources fs ↔ ∃ f ∈ fs, f.source = some var :=
  List.mem_filterMap

theorem mem_outputSources_cons (f : OutputField) (h : var ∈ outputSources fs) :
    var ∈ outputSources (f :: fs) := by
  obtain ⟨g, hg, hs⟩ := mem_outputSources.1 h
  exact mem_outputSources.2 ⟨g, List.mem_cons_of_mem _ hg, hs⟩

theorem count_outputSources_cons (f : OutputField) (fs : List OutputField) (var : String) :
    (outputSources (f :: fs)).count var =
      (outputSources fs).count var + if f.source = some var then 1 else 0 := by
  unfold outputSources
  rw [List.filterMap_cons]
  cases hs : f.source with
  | none => simp
  | some v => simp [List.count_cons]

namespace FilledByType

variable {out : List OutputField}

theorem map_eq (h : FilledByType bound used fs out) :
    out.map (fun f => (f.name, f.typeName)) = fs.map fun f => (f.name, f.typeName) := by
  induction h with
  | nil => rfl
  | keep _ _ ih => rw [List.map_cons, ih, List.map_cons]
  | fill _ _ _ _ _ ih => rw [List.map_cons, ih, List.map_cons]

/-- A field that was filled before stays as it is. -/
theorem mem_of_source (h : FilledByType bound used fs out) (hf : f ∈ fs)
    (hs : f.source = some var) : f ∈ out := by
  induction h with
  | nil => exact hf
  | keep _ _ ih =>
    rcases List.mem_cons.mp hf with rfl | hf
    · exact List.mem_cons_self
    · exact List.mem_cons_of_mem _ (ih hf)
  | fill hempty _ _ _ _ ih =>
    rcases List.mem_cons.mp hf with rfl | hf
    · rw [hempty] at hs
      cases hs
    · exact List.mem_cons_of_mem _ (ih hf)

/-- A field comes out as it was, or empty before and now filled with a new result of its type. -/
theorem mem_cases (h : FilledByType bound used fs out) (hg : g ∈ out) :
    g ∈ fs ∨ ({ g with source := none } ∈ fs ∧ ∃ m ∈ bound, m.FitsType g.typeName ∧
      m.resultVar ∉ used ∧ g.source = some m.resultVar) := by
  induction h with
  | nil => cases hg
  | keep _ _ ih =>
    rcases List.mem_cons.mp hg with rfl | hg
    · exact Or.inl List.mem_cons_self
    · rcases ih hg with hold | ⟨hold, hnew⟩
      · exact Or.inl (List.mem_cons_of_mem _ hold)
      · exact Or.inr ⟨List.mem_cons_of_mem _ hold, hnew⟩
  | @fill used f fs out m hempty hm hfits hnew _ ih =>
    rcases List.mem_cons.mp hg with rfl | hg
    · have hf : ({ f with source := none } : OutputField) = f := by rw [← hempty]
      exact Or.inr ⟨by rw [hf]; exact List.mem_cons_self, m, hm, hfits, hnew, rfl⟩
    · rcases ih hg with hold | ⟨hold, m', hm', hfits', hnew', hs⟩
      · exact Or.inl (List.mem_cons_of_mem _ hold)
      · exact Or.inr ⟨List.mem_cons_of_mem _ hold, m', hm', hfits',
          fun hmem => hnew' (List.mem_cons_of_mem _ hmem), hs⟩

/-- What is used fills as many fields afterwards as before. -/
theorem count_of_mem_used (h : FilledByType bound used fs out) (hvar : var ∈ used) :
    (outputSources out).count var = (outputSources fs).count var := by
  induction h with
  | nil => rfl
  | keep _ _ ih => rw [count_outputSources_cons, count_outputSources_cons, ih hvar]
  | @fill used f fs out m hempty _ _ hnew _ ih =>
    have hne : m.resultVar ≠ var := fun he => hnew (he ▸ hvar)
    rw [count_outputSources_cons, count_outputSources_cons, ih (List.mem_cons_of_mem _ hvar), hempty]
    simp [hne]

/-- What is new is given away at most once. -/
theorem count_le_one (h : FilledByType bound used fs out) (hold : var ∉ outputSources fs) :
    (outputSources out).count var ≤ 1 := by
  induction h with
  | nil => exact Nat.zero_le 1
  | @keep used f fs out _ _ ih =>
    have hf : f.source ≠ some var := fun hs => hold (mem_outputSources.2 ⟨f, List.mem_cons_self, hs⟩)
    have hfs : var ∉ outputSources fs := fun hmem => hold (mem_outputSources_cons f hmem)
    rw [count_outputSources_cons, if_neg hf]
    exact ih hfs
  | @fill used f fs out m hempty _ _ hnew hrest ih =>
    have hfs : var ∉ outputSources fs := fun hmem => hold (mem_outputSources_cons f hmem)
    rw [count_outputSources_cons]
    by_cases he : m.resultVar = var
    · -- given away here, so it is used from here on
      have hcount := hrest.count_of_mem_used (List.mem_cons_self : m.resultVar ∈ _)
      rw [he, List.count_eq_zero.2 hfs] at hcount
      rw [hcount]
      split <;> omega
    · have hne : (some m.resultVar : Option String) ≠ some var := by simpa using he
      rw [if_neg hne]
      exact ih hfs

/-- A field stays empty only if what fits it was used before or fills another one. -/
theorem mem_of_empty (h : FilledByType bound used fs out) (hg : g ∈ out) (hs : g.source = none)
    (hm : m ∈ bound) (hfits : m.FitsType g.typeName) :
    m.resultVar ∈ used ∨ m.resultVar ∈ outputSources out := by
  induction h with
  | nil => cases hg
  | keep hnothing _ ih =>
    rcases List.mem_cons.mp hg with rfl | hg
    · exact Or.inl (hnothing hs m hm hfits)
    · rcases ih hg with hused | hmem
      · exact Or.inl hused
      · exact Or.inr (mem_outputSources_cons _ hmem)
  | @fill used f fs out m' _ _ _ _ _ ih =>
    rcases List.mem_cons.mp hg with rfl | hg
    · cases hs
    · rcases ih hg with hused | hmem
      · rcases List.mem_cons.mp hused with he | hused
        · exact Or.inr (mem_outputSources.2 ⟨_, List.mem_cons_self, by rw [he]⟩)
        · exact Or.inl hused
      · exact Or.inr (mem_outputSources_cons _ hmem)

end FilledByType

/-! ## Both passes -/

theorem mem_fillByName :
    f ∈ fillByName bound fields ↔
      (f.name, f.typeName) ∈ fields ∧ f.source = sourceByName? bound f.name f.typeName := by
  simp only [fillByName, List.mem_map, Prod.exists]
  constructor
  · rintro ⟨name, typeExpr, hmem, rfl⟩
    exact ⟨hmem, rfl⟩
  · rintro ⟨hmem, hs⟩
    exact ⟨f.name, f.typeName, hmem, by rw [← hs]⟩

theorem source_of_mem_fillByName (hf : f ∈ fillByName bound fields) (hs : f.source = some var) :
    ∃ m ∈ bound, m.FitsName f.name f.typeName ∧ m.resultVar = var := by
  rw [(mem_fillByName.1 hf).2] at hs
  exact sourceByName?_eq_some_iff.1 hs

/-- A result that fills one field only fills no other. -/
theorem source_ne_of_count {before after : List OutputField}
    (h : (outputSources (before ++ f :: after)).count var ≤ 1) (hs : f.source = some var) :
    ∀ g ∈ before ++ after, g.source ≠ some var := by
  intro g hg hgs
  have hsplit : outputSources (before ++ f :: after) =
      outputSources before ++ outputSources (f :: after) :=
    List.filterMap_append
  rw [hsplit, List.count_append, count_outputSources_cons, if_pos hs] at h
  rcases List.mem_append.mp hg with hg | hg
  · have hpos := List.count_pos_iff.2 (mem_outputSources.2 ⟨g, hg, hgs⟩)
    omega
  · have hpos := List.count_pos_iff.2 (mem_outputSources.2 ⟨g, hg, hgs⟩)
    omega

/-- How fields are filled with results. -/
structure Assembled (bound : List PlanMember) (fields : List (String × String))
    (out : List OutputField) : Prop where
  /-- The fields keep their names, types and order. -/
  sameFields : out.map (fun f => (f.name, f.typeName)) = fields
  /-- What fills a field is a bound result of its shape that has its name or its bare type. -/
  sound : ∀ f ∈ out, ∀ var, f.source = some var →
    ∃ m ∈ bound, m.resultVar = var ∧ (m.FitsName f.name f.typeName ∨ m.FitsType f.typeName)
  /-- A result that fits a field by name fills it, whatever the other fields are. -/
  named : ∀ f ∈ out, ∀ m ∈ bound, m.FitsName f.name f.typeName → f.source = some m.resultVar
  /-- What fills a field that no result fits by name fills no other field. -/
  exclusive : ∀ before f after, out = before ++ f :: after →
    (∀ m ∈ bound, ¬ m.FitsName f.name f.typeName) →
      ∀ var, f.source = some var → ∀ g ∈ before ++ after, g.source ≠ some var
  /-- If a field stays empty, every result that fits it by type fills another one. -/
  maximal : ∀ before f after, out = before ++ f :: after → f.source = none →
    ∀ m ∈ bound, m.FitsType f.typeName → ∃ g ∈ before ++ after, g.source = some m.resultVar

/-- **The output is assembled by name first, then by type without using a result twice.** -/
theorem assembleOutput_assembled (output : OutputShape) (groups : List PlanGroup) :
    Assembled (boundMembers groups) output.fields.entries
      (assembleOutput output.fields.entries groups) := by
  set bound := boundMembers groups
  set named := fillByName bound output.fields.entries with hnamed
  obtain ⟨out, hout, h⟩ : ∃ out, assembleOutput output.fields.entries groups = out ∧
      FilledByType bound (outputSources named) named out :=
    ⟨_, rfl, filledByType bound (outputSources named) named⟩
  rw [hout]
  refine ⟨?_, ?_, ?_, ?_, ?_⟩
  · rw [h.map_eq, hnamed, fillByName, List.map_map]
    exact List.map_id _
  · intro f hf var hs
    rcases h.mem_cases hf with hold | ⟨-, m, hm, hfits, -, hvar⟩
    · obtain ⟨m, hm, hfits, hvar⟩ := source_of_mem_fillByName hold hs
      exact ⟨m, hm, hvar, Or.inl hfits⟩
    · rw [hvar] at hs
      exact ⟨m, hm, Option.some.inj hs, Or.inr hfits⟩
  · intro f hf m hm hfits
    have hsource : sourceByName? bound f.name f.typeName = some m.resultVar :=
      sourceByName?_eq_some_iff.2 ⟨m, hm, hfits, rfl⟩
    rcases h.mem_cases hf with hold | ⟨hold, -⟩
    · rw [(mem_fillByName.1 hold).2, hsource]
    · -- the field would have been empty after the first pass, which found `m` for it
      have hempty := (mem_fillByName.1 hold).2
      rw [hsource] at hempty
      cases hempty
  · rintro before f after rfl hunnamed var hs
    have hf : f ∈ before ++ f :: after := List.mem_append_right _ List.mem_cons_self
    have hnew : var ∉ outputSources named := by
      rcases h.mem_cases hf with hold | ⟨-, m, -, -, hnew, hvar⟩
      · obtain ⟨m, hm, hfits, -⟩ := source_of_mem_fillByName hold hs
        exact absurd hfits (hunnamed m hm)
      · rw [hs] at hvar
        rwa [Option.some.inj hvar]
    exact source_ne_of_count (h.count_le_one hnew) hs
  · rintro before f after rfl hs m hm hfits
    have hf : f ∈ before ++ f :: after := List.mem_append_right _ List.mem_cons_self
    have hmem : m.resultVar ∈ outputSources (before ++ f :: after) := by
      rcases h.mem_of_empty hf hs hm hfits with hused | hmem
      · obtain ⟨g, hg, hgs⟩ := mem_outputSources.1 hused
        exact mem_outputSources.2 ⟨g, h.mem_of_source hg hgs, hgs⟩
      · exact hmem
    obtain ⟨g, hg, hgs⟩ := mem_outputSources.1 hmem
    rw [List.mem_append, List.mem_cons] at hg
    rcases hg with hg | rfl | hg
    · exact ⟨g, List.mem_append_left _ hg, hgs⟩
    · rw [hs] at hgs
      cases hgs
    · exact ⟨g, List.mem_append_right _ hg, hgs⟩

/-! ## Results that fill one field each -/

/-- Filling by type makes no two fields share a result that did not share one before. -/
theorem FilledByType.nodup_iff {out : List OutputField}
    (h : FilledByType bound (outputSources fs) fs out) :
    (outputSources out).Nodup ↔ (outputSources fs).Nodup := by
  rw [List.nodup_iff_count_le_one, List.nodup_iff_count_le_one]
  refine forall_congr' fun var => ?_
  by_cases hvar : var ∈ outputSources fs
  · rw [h.count_of_mem_used hvar]
  · rw [List.count_eq_zero.2 hvar]
    exact iff_of_true (h.count_le_one hvar) (Nat.zero_le 1)

theorem outputSources_fillByName_nodup_iff (hbound : (bound.map PlanMember.resultVar).Nodup) :
    (outputSources (fillByName bound fields)).Nodup ↔
      fields.Pairwise fun f g => ∀ m ∈ bound, m.FitsName f.1 f.2 → ¬ m.FitsName g.1 g.2 := by
  have hmap : outputSources (fillByName bound fields) =
      fields.filterMap fun f => sourceByName? bound f.1 f.2 := by
    unfold outputSources fillByName
    rw [List.filterMap_map]
    rfl
  rw [hmap, List.Nodup, List.pairwise_filterMap]
  refine iff_of_eq (congrArg (fun R => List.Pairwise R fields) ?_)
  funext f g
  refine propext ⟨?_, ?_⟩
  · intro h m hm hf hg
    have hsource := fun {f : String × String} (hfits : m.FitsName f.1 f.2) =>
      sourceByName?_eq_some_iff.2 ⟨m, hm, hfits, rfl⟩
    exact h m.resultVar (hsource hf) m.resultVar (hsource hg) rfl
  · rintro h var hf _ hg rfl
    obtain ⟨m, hm, hfm, hvar⟩ := sourceByName?_eq_some_iff.1 hf
    obtain ⟨m', hm', hgm, hvar'⟩ := sourceByName?_eq_some_iff.1 hg
    have he : m = m' := List.inj_on_of_nodup_map hbound hm hm' (hvar.trans hvar'.symm)
    exact h m hm hfm (he ▸ hgm)

theorem outputFields_of_compile {catalog : Catalog} {s : ResolvedSchema} {scope : String} {p : Plan}
    (h : s.compile catalog scope = .ok p) :
    p.outputFields = assembleOutput s.output.fields.entries p.groups := by
  obtain ⟨groups, st, -, rfl⟩ := compile_eq_ok_iff_groups.1 h
  rfl

theorem boundVars_nodup {catalog : Catalog} {s : ResolvedSchema} {scope : String} {p : Plan}
    (h : s.compile catalog scope = .ok p) :
    ((boundMembers p.groups).map PlanMember.resultVar).Nodup :=
  (walk_of_compile h).boundVars_sublist.nodup (walk_of_compile h).claimedNames_new.1

/-- A bound result is found by its name. -/
theorem eq_of_resultVar_eq {catalog : Catalog} {s : ResolvedSchema} {scope : String} {p : Plan}
    {pm pm' : PlanMember} (h : s.compile catalog scope = .ok p) (hpm : pm ∈ boundMembers p.groups)
    (hpm' : pm' ∈ boundMembers p.groups) (he : pm.resultVar = pm'.resultVar) : pm = pm' :=
  List.inj_on_of_nodup_map (boundVars_nodup h) hpm hpm' he

/-- **The results that fill the output of a plan are distinct exactly if no result fits two fields
by name.** Only the snake forms of names are compared, so the names of two fields may differ and
still be those of one result. -/
theorem outputSources_nodup_iff {catalog : Catalog} {s : ResolvedSchema} {scope : String} {p : Plan}
    (h : s.compile catalog scope = .ok p) :
    (outputSources p.outputFields).Nodup ↔
      s.output.fields.entries.Pairwise fun f g =>
        ∀ m ∈ boundMembers p.groups, m.FitsName f.1 f.2 → ¬ m.FitsName g.1 g.2 := by
  have hwalk := walk_of_compile h
  have hbound : ((boundMembers p.groups).map PlanMember.resultVar).Nodup :=
    hwalk.boundVars_sublist.nodup hwalk.claimedNames_new.1
  have hfields : p.outputFields = assembleOutput s.output.fields.entries p.groups := by
    obtain ⟨groups, st, -, rfl⟩ := compile_eq_ok_iff_groups.1 h
    rfl
  rw [← outputSources_fillByName_nodup_iff hbound, hfields]
  exact (filledByType _ _ _).nodup_iff

theorem outputSources_nodup_iff_report :
    ∃ p, reportSchema.compile reportCatalog "db" = .ok p ∧
      ((outputSources p.outputFields).Nodup ↔
        reportSchema.output.fields.entries.Pairwise fun f g =>
          ∀ m ∈ boundMembers p.groups, m.FitsName f.1 f.2 → ¬ m.FitsName g.1 g.2) := by
  obtain ⟨p, h⟩ := reportSchema_compiles
  exact ⟨p, h, outputSources_nodup_iff h⟩

/-- An operation that gives a profile. -/
def profileCatalog : Catalog :=
  { scope := "db"
    operations := Table.ofList
      [("GetUserProfile", ⟨"GetUserProfile", .none, .value .single "UserProfile" ∅, none⟩)]
    types := ∅ }

/-- One result, and an output with two fields that have its name in snake form. -/
def profileSchema : ResolvedSchema :=
  { name := "GetPage"
    output := ⟨"Page", false,
      Table.ofList [("user_profile", "UserProfile"), ("userProfile", "UserProfile")]⟩
    groups := [⟨false, [⟨"GetUserProfile", none, none, none, .bind⟩]⟩]
    outFile := "get_page" }

/-- Two fields can be filled with one result, which the new operation then gives away twice. -/
theorem outputSources_repeated :
    ∃ p, profileSchema.compile profileCatalog "db" = .ok p ∧
      ∃ f ∈ p.outputFields, ∃ g ∈ p.outputFields, f.name ≠ g.name ∧
        f.source = some "user_profile" ∧ g.source = some "user_profile" :=
  exists_plan_of_any (by decide +kernel)

end Orchestration
