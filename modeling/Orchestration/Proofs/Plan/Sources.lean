import Orchestration.Proofs.Plan.Output
import Orchestration.Proofs.Schema.Output
import Orchestration.Proofs.TypeExpr.Surface

/-!
# Where a field of the output is filled from

A field is filled by the result that is called like it, and else by the first result of its type that
is left: one that is called like no field and fills none of the fields before. In both passes a result
only fills a field of its own shape. The shape of a field is a question of its text, and the text shows
every collection but for those that are optional. So a collection fills a collection, but a field whose
collection is optional is filled by a single result.
-/

namespace Orchestration

variable {catalog : Catalog} {s : ResolvedSchema} {scope : String} {p : Plan}
  {bound : List PlanMember} {used : List String} {fs before after : List OutputField}
  {f : OutputField} {pm : PlanMember} {typeExpr var : String}

/-! ## Filling by type, field by field -/

theorem sourceByType?_eq_some_iff :
    sourceByType? bound used typeExpr = some var ↔
      ∃ earlier pm later, bound = earlier ++ pm :: later ∧ pm.resultVar = var ∧
        pm.FitsType typeExpr ∧ pm.resultVar ∉ used ∧
          ∀ pm' ∈ earlier, pm'.FitsType typeExpr → pm'.resultVar ∈ used := by
  have hfits (pm : PlanMember) :
      (!used.contains pm.resultVar && pm.resultType = TypeExpr.bareName typeExpr &&
        pm.resultIsCollection = TypeExpr.isCollection typeExpr) = true ↔
      pm.FitsType typeExpr ∧ pm.resultVar ∉ used := by
    simp only [Bool.and_eq_true, decide_eq_true_eq, Bool.not_eq_true', List.contains_eq_mem,
      decide_eq_false_iff_not]
    constructor
    · rintro ⟨⟨hnew, htype⟩, hshape⟩
      exact ⟨⟨htype, hshape⟩, hnew⟩
    · rintro ⟨⟨htype, hshape⟩, hnew⟩
      exact ⟨⟨hnew, htype⟩, hshape⟩
  simp only [sourceByType?, Option.map_eq_some_iff, List.find?_eq_some_iff_append, hfits]
  constructor
  · rintro ⟨pm, ⟨⟨hpm, hnew⟩, earlier, later, he, hearlier⟩, hvar⟩
    refine ⟨earlier, pm, later, he, hvar, hpm, hnew, fun pm' hpm' hfits' => ?_⟩
    by_contra hnew'
    have hnot := hearlier pm' hpm'
    rw [Bool.not_eq_true', ← Bool.not_eq_true, hfits pm'] at hnot
    exact hnot ⟨hfits', hnew'⟩
  · rintro ⟨earlier, pm, later, he, hvar, hpm, hnew, hearlier⟩
    refine ⟨pm, ⟨⟨hpm, hnew⟩, earlier, later, he, fun pm' hpm' => ?_⟩, hvar⟩
    rw [Bool.not_eq_true', ← Bool.not_eq_true, hfits pm']
    rintro ⟨hfits', hnew'⟩
    exact hnew' (hearlier pm' hpm' hfits')

theorem mem_outputSources_cons_iff :
    var ∈ outputSources (f :: fs) ↔ f.source = some var ∨ var ∈ outputSources fs := by
  rw [mem_outputSources, mem_outputSources, List.exists_mem_cons_iff]

/-- The first field keeps what fills it or gets what is left, which is used from here on. -/
theorem fillByType_cons (bound : List PlanMember) (fs : List OutputField)
    (hused : ∀ var, f.source = some var → var ∈ used) :
    ∃ used', fillByType bound used (f :: fs) =
        { f with source := f.source.or (sourceByType? bound used f.typeName) } ::
          fillByType bound used' fs ∧
      ∀ var, var ∈ used' ↔
        var ∈ used ∨ f.source.or (sourceByType? bound used f.typeName) = some var := by
  obtain ⟨name, typeName, source⟩ := f
  rw [fillByType]
  cases source with
  | some filled =>
    refine ⟨used, rfl, fun var => ?_⟩
    rw [Option.some_or, or_iff_left_of_imp (hused var)]
  | none =>
    simp only [Option.none_or]
    cases sourceByType? bound used typeName with
    | none => exact ⟨used, rfl, fun var => by simp⟩
    | some new =>
      refine ⟨new :: used, rfl, fun var => ?_⟩
      rw [List.mem_cons, Option.some.injEq, eq_comm (a := var), or_comm]

/-- A field keeps what fills it or gets what the fields before it have left. -/
theorem fillByType_split (hused : ∀ var ∈ outputSources fs, var ∈ used)
    (h : fillByType bound used fs = before ++ f :: after) :
    ∃ f₀ ∈ fs, f₀.name = f.name ∧ f₀.typeName = f.typeName ∧
      ∃ used', f.source = f₀.source.or (sourceByType? bound used' f.typeName) ∧
        ∀ var, var ∈ used' ↔ var ∈ used ∨ var ∈ outputSources before := by
  induction fs generalizing used before with
  | nil => exact absurd h.symm (by simp [fillByType])
  | cons g rest ih =>
    have hg : ∀ var, g.source = some var → var ∈ used := fun var hs =>
      hused var (mem_outputSources_cons_iff.2 (Or.inl hs))
    obtain ⟨used', hfill, hmem⟩ := fillByType_cons bound rest hg
    rw [hfill] at h
    obtain ⟨rfl, he⟩ | ⟨before, rfl, he⟩ := List.cons_eq_append_iff.1 h
    · obtain ⟨rfl, -⟩ := List.cons.inj he
      exact ⟨g, List.mem_cons_self, rfl, rfl, used, rfl, by simp [outputSources]⟩
    · have hrest : ∀ var ∈ outputSources rest, var ∈ used' := fun var hvar =>
        (hmem var).2 (Or.inl (hused var (mem_outputSources_cons g hvar)))
      obtain ⟨f₀, hf₀, hname, htype, used₁, hsource, hmem₁⟩ := ih hrest he
      refine ⟨f₀, List.mem_cons_of_mem _ hf₀, hname, htype, used₁, hsource, fun var => ?_⟩
      rw [hmem₁, hmem, mem_outputSources_cons_iff, or_assoc]

/-! ## What is left for a field -/

/-- The result is left after some of the fields: it fits no field by name and fills none of these. -/
structure PlanMember.LeftAfter (pm : PlanMember) (fs before : List OutputField) : Prop where
  unnamed : ∀ g ∈ fs, ¬ pm.FitsName g.name g.typeName
  unused : pm.resultVar ∉ outputSources before

/-- The results that the first pass uses are those that fit a field by name. -/
theorem mem_outputSources_fillByName (fields : List (String × String))
    (hbound : (bound.map PlanMember.resultVar).Nodup) (hpm : pm ∈ bound) :
    pm.resultVar ∈ outputSources (fillByName bound fields) ↔
      ∃ g ∈ fillByName bound fields, pm.FitsName g.name g.typeName := by
  rw [mem_outputSources]
  refine exists_congr fun g => and_congr_right fun hg => ?_
  constructor
  · intro hs
    obtain ⟨pm', hpm', hfits, hvar⟩ := source_of_mem_fillByName hg hs
    obtain rfl : pm' = pm := List.inj_on_of_nodup_map hbound hpm' hpm hvar
    exact hfits
  · intro hfits
    rw [(mem_fillByName.1 hg).2]
    exact sourceByName?_eq_some_iff.2 ⟨pm, hpm, hfits, rfl⟩

theorem FilledByType.exists_fitsName_iff {out : List OutputField}
    (h : FilledByType bound used fs out) :
    (∃ g ∈ out, pm.FitsName g.name g.typeName) ↔ ∃ g ∈ fs, pm.FitsName g.name g.typeName := by
  have hmap (gs : List OutputField) : (∃ g ∈ gs, pm.FitsName g.name g.typeName) ↔
      ∃ x ∈ gs.map fun g => (g.name, g.typeName), pm.FitsName x.1 x.2 := by simp
  rw [hmap, hmap, h.map_eq]

/-- A field is filled by name, and if nothing fits it so, with the first result that is left. -/
theorem exists_source_eq (h : s.compile catalog scope = .ok p)
    (hout : p.outputFields = before ++ f :: after) :
    ∃ used, f.source = (sourceByName? (boundMembers p.groups) f.name f.typeName).or
        (sourceByType? (boundMembers p.groups) used f.typeName) ∧
      ∀ pm ∈ boundMembers p.groups,
        pm.resultVar ∈ used ↔ ¬ pm.LeftAfter p.outputFields before := by
  have hfill := outputFields_of_compile h
  unfold assembleOutput at hfill
  set bound := boundMembers p.groups
  set named := fillByName bound s.output.fields.entries
  have hfilled : FilledByType bound (outputSources named) named p.outputFields :=
    hfill ▸ filledByType bound (outputSources named) named
  obtain ⟨f₀, hf₀, hname, htype, used, hsource, hmem⟩ :=
    fillByType_split (fun var hvar => hvar) (hfill.symm.trans hout)
  refine ⟨used, ?_, fun pm hpm => ?_⟩
  · rw [hsource, (mem_fillByName.1 hf₀).2, hname, htype]
  · rw [hmem, mem_outputSources_fillByName _ (boundVars_nodup h) hpm, ← hfilled.exists_fitsName_iff]
    constructor
    · rintro (⟨g, hg, hfits⟩ | hbefore) hleft
      · exact hleft.unnamed g hg hfits
      · exact hleft.unused hbefore
    · intro hnot
      by_contra hno
      exact hnot ⟨fun g hg hfits => hno (Or.inl ⟨g, hg, hfits⟩), fun hbefore => hno (Or.inr hbefore)⟩

/-- A result that fits a field by name fills it. -/
theorem source_of_fitsName (h : s.compile catalog scope = .ok p) (hf : f ∈ p.outputFields)
    (hpm : pm ∈ boundMembers p.groups) (hfits : pm.FitsName f.name f.typeName) :
    f.source = some pm.resultVar := by
  obtain ⟨before, after, hout⟩ := List.append_of_mem hf
  obtain ⟨used, hsource, -⟩ := exists_source_eq h hout
  rw [hsource, sourceByName?_eq_some_iff.2 ⟨pm, hpm, hfits, rfl⟩, Option.some_or]

/-! ## Shapes -/

/-- The result that fills a field has the shape that the text of the field's type shows. -/
theorem shape_of_source (h : s.compile catalog scope = .ok p) (hf : f ∈ p.outputFields)
    (hpm : pm ∈ boundMembers p.groups) (hs : f.source = some pm.resultVar) :
    pm.resultIsCollection = TypeExpr.isCollection f.typeName := by
  obtain ⟨before, after, hout⟩ := List.append_of_mem hf
  obtain ⟨used, hsource, -⟩ := exists_source_eq h hout
  rw [hsource, Option.or_eq_some_iff] at hs
  rcases hs with hname | ⟨-, htype⟩
  · obtain ⟨pm', hpm', hfits, hvar⟩ := sourceByName?_eq_some_iff.1 hname
    obtain rfl := eq_of_resultVar_eq h hpm' hpm hvar
    exact hfits.shape_eq
  · obtain ⟨-, pm', hpm', hfits, hvar⟩ := sourceByType?_eq_some htype
    obtain rfl := eq_of_resultVar_eq h hpm' hpm hvar
    exact hfits.shape_eq

/-- **What fills a field is a collection exactly if the field is one that is not optional.** A result
that is called like the field fills it exactly if the two agree in this. -/
theorem source_collection_iff {d : Descriptor} {s : Schema}
    (h : ∃ r, s.resolve (.ofDescriptor d) = .ok r ∧ r.compile (.ofDescriptor d) scope = .ok p)
    (hf : f ∈ p.outputFields)
    (hknown : ∀ text, TypeExpr.parse (Catalog.ofDescriptor d).types f.typeName ≠ .unknown text)
    (hpm : pm ∈ boundMembers p.groups) :
    (f.source = some pm.resultVar → (pm.resultIsCollection = true ↔
      (TypeExpr.parse (Catalog.ofDescriptor d).types f.typeName).IsCollection ∧
        ¬ TypeExpr.IsOptional f.typeName)) ∧
    (pm.resultVar = Naming.snakeCase f.name →
      (f.source = some pm.resultVar ↔ (pm.resultIsCollection = true ↔
        (TypeExpr.parse (Catalog.ofDescriptor d).types f.typeName).IsCollection ∧
          ¬ TypeExpr.IsOptional f.typeName))) := by
  obtain ⟨r, -, hc⟩ := h
  rw [← TypeExpr.isCollection_of_known hknown, ← Bool.eq_iff_iff]
  refine ⟨shape_of_source hc hf hpm, fun hname => ⟨shape_of_source hc hf hpm, fun hshape => ?_⟩⟩
  exact source_of_fitsName hc hf hpm ⟨hname, hshape⟩

/-- The only member of the feed brings its result. -/
def feedSchema (operation : String) : Schema :=
  ⟨"GetFeed", some "Feed", [⟨false, [⟨operation, none, none, none, false, false⟩]⟩], none⟩

/-- A feed whose plan passes a test has a plan that does. -/
theorem exists_feed_of_any (posts operation : String) {Q : Plan → Prop} [DecidablePred Q]
    (h : ((feedSchema operation).resolve (.ofDescriptor (feedDescriptor posts)) >>= fun r =>
      r.compile (.ofDescriptor (feedDescriptor posts)) "db").toOption.any
        (fun p => decide (Q p)) = true) :
    ∃ p, (∃ r, (feedSchema operation).resolve (.ofDescriptor (feedDescriptor posts)) = .ok r ∧
      r.compile (.ofDescriptor (feedDescriptor posts)) "db" = .ok p) ∧ Q p := by
  obtain ⟨p, hp, hq⟩ := exists_ok_of_any h
  exact ⟨p, bind_eq_ok_iff.1 hp, hq⟩

theorem source_collection_iff_feed :
    let d := feedDescriptor "& [\u3000Post ]"
    ∃ p, (∃ r, (feedSchema "ListPosts").resolve (.ofDescriptor d) = .ok r ∧
        r.compile (.ofDescriptor d) "db" = .ok p) ∧
      ∃ f ∈ p.outputFields, ∃ pm ∈ boundMembers p.groups, f.source = some pm.resultVar ∧
        pm.resultIsCollection = true ∧
          (TypeExpr.parse (Catalog.ofDescriptor d).types f.typeName).IsCollection ∧
            ¬ TypeExpr.IsOptional f.typeName := by
  intro d
  obtain ⟨p, hp, f, hf, pm, hpm, hs, hname, htype, hlist⟩ :=
    exists_feed_of_any "& [\u3000Post ]" "ListPosts"
      (Q := fun p => ∃ f ∈ p.outputFields, ∃ pm ∈ boundMembers p.groups,
        f.source = some pm.resultVar ∧ pm.resultVar = Naming.snakeCase f.name ∧
          f.typeName = "& [\u3000Post ]" ∧ pm.resultIsCollection = true)
      (by decide +kernel)
  have hread : TypeExpr.parse (Catalog.ofDescriptor d).types f.typeName =
      .ref (.list (.struct "Post" (Table.ofList [("id", "i64")]))) := by
    rw [htype]
    decide +kernel
  obtain ⟨hfilled, hnamed⟩ := source_collection_iff hp hf (by rw [hread]; nofun) hpm
  have hagree := hfilled hs
  exact ⟨p, hp, f, hf, pm, hpm, (hnamed hname).2 hagree, hlist, hagree.1 hlist⟩

/-- A single result can fill a collection, if that is optional. -/
theorem source_single_of_optional :
    let d := feedDescriptor "Option<[Post]>"
    ∃ p, (∃ r, (feedSchema "GetPost").resolve (.ofDescriptor d) = .ok r ∧
        r.compile (.ofDescriptor d) "db" = .ok p) ∧
      ∃ f ∈ p.outputFields, ∃ pm ∈ boundMembers p.groups, f.source = some pm.resultVar ∧
        pm.resultIsCollection = false ∧
          (TypeExpr.parse (Catalog.ofDescriptor d).types f.typeName).IsCollection := by
  intro d
  obtain ⟨p, hp, f, hf, pm, hpm, hs, htype, hsingle⟩ :=
    exists_feed_of_any "Option<[Post]>" "GetPost"
      (Q := fun p => ∃ f ∈ p.outputFields, ∃ pm ∈ boundMembers p.groups,
        f.source = some pm.resultVar ∧ f.typeName = "Option<[Post]>" ∧ pm.resultIsCollection = false)
      (by decide +kernel)
  have hread : TypeExpr.parse (Catalog.ofDescriptor d).types "Option<[Post]>" =
      .ref (.list (.struct "Post" (Table.ofList [("id", "i64")]))) := by decide +kernel
  refine ⟨p, hp, f, hf, pm, hpm, hs, hsingle, ?_⟩
  rw [htype, hread]
  exact ⟨_, rfl⟩

end Orchestration
