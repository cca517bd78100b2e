import Orchestration.Proofs.Plan.Sources

/-!
# Given names in the output

The name of a field is compared in snake form, and the name given for a result as it stands. So a name
that is given in snake form fills the field. One that is spelled like the field may not: then the
field is left to be filled by type, and the result is taken like that of any other member, which is the
first one left of the type and the shape of the field.
-/

namespace Orchestration

variable {catalog : Catalog} {s : ResolvedSchema} {scope : String} {p : Plan}
  {before after : List OutputField} {f : OutputField} {pm : PlanMember}

/-! ## The first result left -/

/-- The result is the first one left that has the type and the shape of a field. -/
structure PlanMember.FirstLeft (pm : PlanMember) (bound : List PlanMember)
    (fs before : List OutputField) (typeExpr : String) : Prop where
  fits : pm.FitsType typeExpr
  left : pm.LeftAfter fs before
  first : ∃ earlier later, bound = earlier ++ pm :: later ∧
    ∀ pm' ∈ earlier, pm'.FitsType typeExpr → ¬ pm'.LeftAfter fs before

/-- A field that no result fits by name is filled with the first result left for it. -/
theorem source_iff_firstLeft (h : s.compile catalog scope = .ok p)
    (hout : p.outputFields = before ++ f :: after) (hpm : pm ∈ boundMembers p.groups)
    (hunnamed : ∀ pm' ∈ boundMembers p.groups, ¬ pm'.FitsName f.name f.typeName) :
    f.source = some pm.resultVar ↔
      pm.FirstLeft (boundMembers p.groups) p.outputFields before f.typeName := by
  obtain ⟨used, hsource, hused⟩ := exists_source_eq h hout
  have hnone : sourceByName? (boundMembers p.groups) f.name f.typeName = none := by
    rw [Option.eq_none_iff_forall_ne_some]
    intro var hvar
    obtain ⟨pm', hpm', hfits, -⟩ := sourceByName?_eq_some_iff.1 hvar
    exact hunnamed pm' hpm' hfits
  rw [hsource, hnone, Option.none_or, sourceByType?_eq_some_iff]
  have hearlier {earlier later : List PlanMember} {pm' : PlanMember}
      (he : boundMembers p.groups = earlier ++ pm' :: later) (x : PlanMember) (hx : x ∈ earlier) :
      x.resultVar ∈ used ↔ ¬ x.LeftAfter p.outputFields before :=
    hused x (by rw [he]; exact List.mem_append_left _ hx)
  constructor
  · rintro ⟨earlier, pm', later, he, hvar, hfits, hnew, hfirst⟩
    have hpm' : pm' ∈ boundMembers p.groups := by
      rw [he]
      exact List.mem_append_right _ List.mem_cons_self
    obtain rfl := eq_of_resultVar_eq h hpm' hpm hvar
    rw [hused pm' hpm, not_not] at hnew
    exact ⟨hfits, hnew, earlier, later, he, fun x hx hfits' =>
      (hearlier he x hx).1 (hfirst x hx hfits')⟩
  · rintro ⟨hfits, hleft, earlier, later, he, hfirst⟩
    refine ⟨earlier, pm, later, he, rfl, hfits, ?_, fun x hx hfits' =>
      (hearlier he x hx).2 (hfirst x hx hfits')⟩
    rw [hused pm hpm, not_not]
    exact hleft

/-! ## Given names -/

namespace Compile

variable {st st' : Progress} {names : Naming.TakenNames} {m : ResolvedMember} {op : OperationShape}
  {ms : List ResolvedMember} {pms : List PlanMember} {name : String}

theorem Walk.exists_of_mem_zip (h : Walk catalog st ms pms st') (hm : (m, pm) ∈ ms.zip pms) :
    ∃ names op, pm = planMember names m op := by
  induction h with
  | nil => cases hm
  | cons _ _ _ ih =>
    rcases List.mem_cons.1 hm with he | hm
    · cases he
      exact ⟨_, _, rfl⟩
    · exact ih hm

/-- What is bound under a given name has that name as it stands. -/
theorem resultVar_of_given (hname : m.resultName = some name)
    (hbinds : (planMember names m op).bindsResult = true) :
    (planMember names m op).resultVar = name := by
  cases hc : claimedName? names m op with
  | none =>
    rw [bindsResult_planMember_of_none hc] at hbinds
    cases hbinds
  | some claimed =>
    rw [resultVar_planMember_of_some hc]
    unfold claimedName? at hc
    split at hc
    · rw [hname, Option.getD_some] at hc
      exact (Option.some.inj hc).symm
    · cases hc

end Compile

variable {m : ResolvedMember} {name : String}

/-- **A given name fills the field whose snake form it is.** If it is spelled like a field, and no other
result has the snake form of the field, it fills the field exactly if the field is its own snake form
or the result is the first one left for the field. -/
theorem explicitName_source (h : s.compile catalog scope = .ok p)
    (hm : (m, pm) ∈ s.members.zip p.members) (hname : m.resultName = some name)
    (hbinds : pm.bindsResult = true) (hout : p.outputFields = before ++ f :: after)
    (hshape : pm.resultIsCollection = TypeExpr.isCollection f.typeName) :
    pm.resultVar = name ∧
      (name = Naming.snakeCase f.name → f.source = some name) ∧
      (name = f.name →
        (∀ pm' ∈ boundMembers p.groups,
          pm'.resultVar ≠ name → pm'.resultVar ≠ Naming.snakeCase f.name) →
        (f.source = some name ↔ Naming.snakeCase f.name = f.name ∨
          pm.FirstLeft (boundMembers p.groups) p.outputFields before f.typeName)) := by
  have hvar : pm.resultVar = name := by
    obtain ⟨names, op, rfl⟩ := (walk_of_compile h).exists_of_mem_zip hm
    exact Compile.resultVar_of_given hname hbinds
  have hpm : pm ∈ boundMembers p.groups :=
    List.mem_filter.2 ⟨(List.of_mem_zip hm).2, hbinds⟩
  have hnamed : name = Naming.snakeCase f.name → f.source = some name := by
    intro hsnake
    rw [← hvar]
    have hf : f ∈ p.outputFields := by
      rw [hout]
      exact List.mem_append_right _ List.mem_cons_self
    exact source_of_fitsName h hf hpm ⟨hvar.trans hsnake, hshape⟩
  refine ⟨hvar, hnamed, fun hfield hother => ?_⟩
  by_cases hsnake : Naming.snakeCase f.name = f.name
  · exact iff_of_true (hnamed (hfield.trans hsnake.symm)) (Or.inl hsnake)
  · have hunnamed : ∀ pm' ∈ boundMembers p.groups, ¬ pm'.FitsName f.name f.typeName := by
      intro pm' hpm' hfits
      by_cases he : pm'.resultVar = name
      · exact hsnake (hfits.var_eq.symm.trans (he.trans hfield))
      · exact hother pm' hpm' he hfits.var_eq
    rw [or_iff_right hsnake, ← hvar]
    exact source_iff_firstLeft h hout hpm hunnamed

/-- An operation that gives a user. -/
def pairCatalog : Catalog :=
  { scope := "db"
    operations := Table.ofList [("GetUser", ⟨"GetUser", .none, .value .single "User" ∅, none⟩)]
    types := ∅ }

/-- Two users with the given names, and an output with two fields that are not in snake form. -/
def pairSchema (first second : String) : ResolvedSchema :=
  { name := "GetPair"
    output := ⟨"Pair", false, Table.ofList [("userA", "User"), ("userB", "User")]⟩
    groups := [⟨false, [⟨"GetUser", none, none, some first, .bind⟩,
      ⟨"GetUser", none, none, some second, .bind⟩]⟩]
    outFile := "get_pair" }

theorem explicitName_source_pair :
    ∃ p, (pairSchema "userB" "user_a").compile pairCatalog "db" = .ok p ∧
      ∃ pm pm' f g, boundMembers p.groups = [pm, pm'] ∧ p.outputFields = [f, g] ∧
        f.name = "userA" ∧ pm'.resultVar = "user_a" ∧ f.source = some "user_a" ∧
        g.name = "userB" ∧ pm.resultVar = "userB" ∧ g.source = some "userB" ∧
        pm.FirstLeft [pm, pm'] [f, g] [f] g.typeName := by
  let pm : PlanMember := ⟨"GetUser", "userB", "User", false, false, .none⟩
  let pm' : PlanMember := ⟨"GetUser", "user_a", "User", false, false, .none⟩
  let f : OutputField := ⟨"userA", "User", some "user_a"⟩
  let g : OutputField := ⟨"userB", "User", some "userB"⟩
  obtain ⟨p, hp, hmembers, hbound, hout⟩ : ∃ p,
      (pairSchema "userB" "user_a").compile pairCatalog "db" = .ok p ∧
        p.members = [pm, pm'] ∧ boundMembers p.groups = [pm, pm'] ∧ p.outputFields = [f, g] :=
    exists_plan_of_any (by decide +kernel)
  have hfirst : p.outputFields = [] ++ f :: [g] := hout
  have hsecond : p.outputFields = [f] ++ g :: [] := hout
  have hshape : false = TypeExpr.isCollection "User" := by decide
  let m : ResolvedMember := ⟨"GetUser", none, none, some "userB", .bind⟩
  let m' : ResolvedMember := ⟨"GetUser", none, none, some "user_a", .bind⟩
  have hzip : (pairSchema "userB" "user_a").members.zip p.members = [(m, pm), (m', pm')] := by
    rw [hmembers]
    rfl
  have hm : (m, pm) ∈ (pairSchema "userB" "user_a").members.zip p.members := by simp [hzip]
  have hm' : (m', pm') ∈ (pairSchema "userB" "user_a").members.zip p.members := by simp [hzip]
  obtain ⟨hvar, hsnake, -⟩ := explicitName_source hp hm' rfl rfl hfirst hshape
  obtain ⟨hvar', -, hleft⟩ := explicitName_source hp hm rfl rfl hsecond hshape
  have hother : ∀ x ∈ boundMembers p.groups,
      x.resultVar ≠ "userB" → x.resultVar ≠ Naming.snakeCase g.name := by
    rw [hbound]
    decide
  have hiff := hleft rfl hother
  rw [or_iff_right (by decide), hbound, hout] at hiff
  exact ⟨p, hp, pm, pm', f, g, hbound, hout, rfl, hvar, hsnake (by decide), rfl, hvar', rfl,
    hiff.1 rfl⟩

/-- Two users can end up in each other's fields, though each is named like its own. -/
theorem explicitName_swapped :
    ∃ p, (pairSchema "userB" "userA").compile pairCatalog "db" = .ok p ∧
      ∃ x ∈ (pairSchema "userB" "userA").members.zip p.members, ∃ f ∈ p.outputFields,
        x.1.resultName = some f.name ∧ x.2.bindsResult = true ∧
        x.2.resultIsCollection = TypeExpr.isCollection f.typeName ∧
        (∀ pm ∈ boundMembers p.groups, pm ≠ x.2 → pm.resultVar ≠ Naming.snakeCase f.name) ∧
        f.name = "userA" ∧ f.source = some "userB" :=
  exists_plan_of_any (by decide +kernel)

end Orchestration
