import Orchestration.Proofs.Catalog.Agreement
import Orchestration.Schema.Resolved

/-!
# Output types

The output of a schema is found by taking the references and the white space off the front of its
expression and looking up what is left. Where that is a type path, the expression is read as the
composite of this name, or as a reference to it that is written with `&`. Every expression that is read
so names an output, if the composite has fields and is not called like a built-in type.
-/

namespace Orchestration

open Text Naming TypeExpr

variable {types : TypeTable} {cs trail name expr : List Char} {fields : Fields} {T e : String}
  {isRef : Bool}

/-! ## What is read as a composite -/

namespace TypeExpr

theorem leaf_eq_struct_iff {name : String} :
    leaf types name = .struct T fields ↔
      name = T ∧ T ∉ contextNames ∧ T ∉ errorNames ∧ types.get? T = some fields := by
  unfold leaf lookUp
  constructor
  · intro h
    split at h
    · cases h
    split at h
    · cases h
    split at h
    · rename_i hcontext herror _ _ hget
      cases h
      exact ⟨rfl, hcontext, herror, hget⟩
    · cases h
  · rintro ⟨rfl, hcontext, herror, hget⟩
    unfold contextNames at hcontext
    unfold errorNames at herror
    rw [if_neg hcontext, if_neg herror, hget]

/-- What is read as a composite is its name. -/
theorem parse_eq_struct_iff :
    parse types e = .struct T fields ↔ trim e.toList = T.toList ∧ IsPath T.toList ∧
      T ∉ contextNames ∧ T ∉ errorNames ∧ types.get? T = some fields := by
  constructor
  · intro h
    have hknown : ∀ text, parse types e ≠ .unknown text := by
      rw [h]
      nofun
    obtain ⟨t, ht⟩ := exists_derives hknown
    have hread : t.denote types = .struct T fields := ht.read_eq.symm.trans h
    cases t with
    | path name =>
      obtain ⟨hname, htrim⟩ := ht.trim_eq
      obtain ⟨rfl, hleaf⟩ := leaf_eq_struct_iff.1 hread
      rw [String.toList_ofList]
      exact ⟨htrim, hname, hleaf⟩
    | reference t => cases hread
    | enclosed b t => cases b <;> cases hread
  · rintro ⟨htrim, hpath, hleaf⟩
    obtain ⟨lead, trail, hlead, htrail, he⟩ := exists_trim e.toList
    have ht := Derives.path hlead hpath htrail
    rw [← htrim, ← he] at ht
    have hread : parse types e = leaf types (String.ofList (trim e.toList)) := ht.read_eq
    rw [hread, htrim, String.ofList_toList]
    exact leaf_eq_struct_iff.2 ⟨rfl, hleaf⟩

theorem Derives.trim_reference (h : Derives (.reference (.path name)) cs) :
    ∃ between, IsBlankRun between ∧ trim cs = '&' :: (between ++ name) := by
  cases h with
  | @reference _ lead _ hlead h =>
    cases h with
    | @path between _ trail hbetween hname htrail =>
      refine ⟨between, hbetween, ?_⟩
      have hcore : trim (lead ++ '&' :: (between ++ name) ++ trail) = '&' :: (between ++ name) := by
        refine trim_of_ends hlead htrail (List.cons_ne_nil _ _) ?_ ?_
        · intro c hc
          cases hc
          decide
        · intro c hc
          rw [← List.cons_append, List.getLast?_append_of_ne_nil _ hname.ne_nil] at hc
          exact hname.isBlank_eq_false (List.mem_of_getLast? hc)
      rw [← hcore]
      simp only [List.append_assoc, List.cons_append]

/-- What is read as a reference to a composite and written with `&` is its name behind the mark, with
white space between the two. -/
theorem parse_eq_ref_struct_iff :
    parse types e = .ref (.struct T fields) ∧ (trim e.toList).head? = some '&' ↔
      (∃ between, IsBlankRun between ∧ trim e.toList = '&' :: (between ++ T.toList)) ∧
        IsPath T.toList ∧ T ∉ contextNames ∧ T ∉ errorNames ∧ types.get? T = some fields := by
  constructor
  · rintro ⟨h, hmark⟩
    have hknown : ∀ text, parse types e ≠ .unknown text := by
      rw [h]
      nofun
    obtain ⟨t, ht⟩ := exists_derives hknown
    have hread : t.denote types = .ref (.struct T fields) := ht.read_eq.symm.trans h
    cases t with
    | path name =>
      obtain ⟨hname, htrim⟩ := ht.trim_eq
      rw [htrim] at hmark
      exact absurd (List.mem_of_mem_head? hmark) (hname.notMem rfl (by decide))
    | reference t =>
      have hinner : t.denote types = .struct T fields := TypeShape.ref.inj hread
      cases t with
      | path name =>
        obtain ⟨rfl, hleaf⟩ := leaf_eq_struct_iff.1 hinner
        obtain ⟨inner, hderives, -⟩ := ht.trim_eq
        rw [String.toList_ofList]
        exact ⟨ht.trim_reference, hderives.trim_eq.1, hleaf⟩
      | reference t => cases hinner
      | enclosed b t => cases b <;> cases hinner
    | enclosed b t =>
      obtain ⟨inner, -, htrim⟩ := ht.trim_eq
      rw [htrim] at hmark
      cases b <;> cases hmark
  · rintro ⟨⟨between, hbetween, htrim⟩, hpath, hleaf⟩
    obtain ⟨lead, trail, hlead, htrail, he⟩ := exists_trim e.toList
    have ht := Derives.reference hlead (Derives.path hbetween hpath htrail)
    have htext : e.toList = lead ++ '&' :: (between ++ T.toList ++ trail) := by
      rw [he, htrim]
      simp only [List.append_assoc, List.cons_append]
    rw [← htext] at ht
    have hread : parse types e = .ref (leaf types (String.ofList T.toList)) := ht.read_eq
    rw [hread, htrim, String.ofList_toList, leaf_eq_struct_iff.2 ⟨rfl, hleaf⟩]
    exact ⟨rfl, rfl⟩

end TypeExpr

namespace Schema

/-! ## References in front of a path -/

theorem isReferenceMark_of_isBlankRun (h : IsBlankRun cs) : ∀ c ∈ cs, isReferenceMark c = true := by
  intro c hc
  rw [isReferenceMark, h c hc, Bool.or_true]

theorem isReferenceMark_of_isPath (h : IsPath name) {c : Char} (hc : c ∈ name) :
    isReferenceMark c = false := by
  have hmark : c ≠ '&' := fun he => h.notMem (c := '&') rfl (by decide) (he ▸ hc)
  rw [isReferenceMark, h.isBlank_eq_false hc, decide_eq_false hmark, Bool.or_false]

/-- Nothing is taken off a path. -/
theorem marks_of_isPath (h : IsPath name) :
    name.takeWhile isReferenceMark = [] ∧ name.dropWhile isReferenceMark = name := by
  obtain ⟨c, rest, rfl⟩ := List.exists_cons_of_ne_nil h.ne_nil
  have hc := isReferenceMark_of_isPath h (List.mem_cons_self (a := c) (l := rest))
  exact ⟨List.takeWhile_cons_of_neg (by simp [hc]), List.dropWhile_cons_of_neg (by simp [hc])⟩

theorem marks_of_reference (h : IsPath name) (htrail : IsBlankRun trail) :
    ('&' :: (trail ++ name)).takeWhile isReferenceMark = '&' :: trail ∧
      ('&' :: (trail ++ name)).dropWhile isReferenceMark = name := by
  have hmarks : ∀ c ∈ '&' :: trail, isReferenceMark c = true :=
    List.forall_mem_cons.2 ⟨by decide, isReferenceMark_of_isBlankRun htrail⟩
  obtain ⟨htake, hdrop⟩ := marks_of_isPath h
  rw [← List.cons_append, List.takeWhile_append_of_pos hmarks, List.dropWhile_append_of_pos hmarks,
    htake, hdrop, List.append_nil]
  exact ⟨rfl, rfl⟩

/-- With one reference at most in front, an expression that starts with no white space is what is left
of it, or `&` and white space stand before that. -/
theorem marks_cases (hfirst : ∀ c, expr.head? = some c → isBlank c = false)
    (hcount : (expr.takeWhile isReferenceMark).count '&' ≤ 1) :
    ((expr.takeWhile isReferenceMark).count '&' = 0 ∧ expr = expr.dropWhile isReferenceMark) ∨
      (expr.takeWhile isReferenceMark).count '&' = 1 ∧
        ∃ between, IsBlankRun between ∧
          expr = '&' :: (between ++ expr.dropWhile isReferenceMark) := by
  cases expr with
  | nil => exact Or.inl ⟨rfl, rfl⟩
  | cons c rest =>
    by_cases hmark : isReferenceMark c = true
    · have hc : c = '&' := by simpa [isReferenceMark, hfirst c rfl] using hmark
      subst hc
      rw [List.takeWhile_cons_of_pos hmark, List.count_cons_self] at hcount ⊢
      have hnone : '&' ∉ rest.takeWhile isReferenceMark := List.count_eq_zero.1 (by omega)
      refine Or.inr ⟨by omega, rest.takeWhile isReferenceMark, ?_, ?_⟩
      · intro c hc
        have hne : c ≠ '&' := fun he => hnone (he ▸ hc)
        have hmark := List.all_eq_true.1 List.all_takeWhile c hc
        simpa [isReferenceMark, hne] using hmark
      · rw [List.dropWhile_cons_of_pos hmark, List.takeWhile_append_dropWhile]
    · rw [List.takeWhile_cons_of_neg hmark, List.dropWhile_cons_of_neg hmark]
      exact Or.inl ⟨rfl, rfl⟩

/-! ## Finding an output -/

theorem isNeverComposite_of_isPath (h : IsPath name) :
    isNeverComposite name = scalarTypes.contains (String.ofList name) := by
  have hopening {opening : List Char} (hmem : '[' ∈ opening ∨ '<' ∈ opening) :
      opening.isPrefixOf name = false := by
    rw [← Bool.not_eq_true, List.isPrefixOf_iff_prefix]
    intro hstart
    rcases hmem with hmem | hmem
    · exact h.notMem rfl (by decide) (hstart.subset hmem)
    · exact h.notMem rfl (by decide) (hstart.subset hmem)
  rw [isNeverComposite, hopening (by decide), hopening (by decide), hopening (by decide)]
  rfl

theorem outputOf_eq_ok_iff :
    outputOf types expr = .ok ⟨T, isRef, fields⟩ ↔
      (expr.takeWhile isReferenceMark).count '&' ≤ 1 ∧
        isNeverComposite (expr.dropWhile isReferenceMark) = false ∧
        expr.dropWhile isReferenceMark = T.toList ∧ types.get? T = some fields ∧
        fields.isEmpty = false ∧ isRef = ((expr.takeWhile isReferenceMark).count '&' == 1) := by
  unfold outputOf
  dsimp only
  by_cases hdepth : 1 < (expr.takeWhile isReferenceMark).count '&'
  · rw [if_pos hdepth]
    exact iff_of_false nofun fun h => absurd h.1 (by omega)
  rw [if_neg hdepth]
  cases hnever : isNeverComposite (expr.dropWhile isReferenceMark) with
  | true => exact iff_of_false nofun fun h => Bool.noConfusion h.2.1
  | false =>
    rw [if_neg Bool.false_ne_true]
    constructor
    · intro h
      split at h
      · cases h
      split at h
      · cases h
      · rename_i _ hget hfields
        cases h
        exact ⟨by omega, rfl, String.toList_ofList.symm, hget, by simpa using hfields, rfl⟩
    · rintro ⟨-, -, hname, hget, hfields, rfl⟩
      rw [hname, String.ofList_toList, hget]
      dsimp only
      rw [hfields, if_neg Bool.false_ne_true]

theorem resolveOutput_of_given (hne : trim e.toList ≠ []) :
    resolveOutput types (some e) = outputOf types (trim e.toList) := by
  unfold resolveOutput
  rw [Option.getD_some]
  split
  · next hnil => exact absurd hnil hne
  · rfl

/-- What an output is read from, if its name is a type path: either the name itself, or `&` and white
space before it. -/
theorem resolveOutput_eq_ok_iff (hne : trim e.toList ≠ []) (hpath : IsPath T.toList) :
    resolveOutput types (some e) = .ok ⟨T, isRef, fields⟩ ↔
      T ∉ scalarTypes ∧ types.get? T = some fields ∧ fields.isEmpty = false ∧
        ((isRef = false ∧ trim e.toList = T.toList) ∨
          isRef = true ∧ ∃ between, IsBlankRun between ∧
            trim e.toList = '&' :: (between ++ T.toList)) := by
  rw [resolveOutput_of_given hne, outputOf_eq_ok_iff]
  have hnever := isNeverComposite_of_isPath hpath
  rw [String.ofList_toList] at hnever
  constructor
  · rintro ⟨hcount, hcomposite, hname, hget, hfields, rfl⟩
    rw [hname, hnever] at hcomposite
    refine ⟨by simpa using hcomposite, hget, hfields, ?_⟩
    rcases marks_cases (fun _ => isBlank_of_head?_trim) hcount with
      ⟨hzero, he⟩ | ⟨hone, between, hbetween, he⟩
    · rw [hzero]
      exact Or.inl ⟨rfl, he.trans hname⟩
    · rw [hone]
      rw [hname] at he
      exact Or.inr ⟨rfl, between, hbetween, he⟩
  · rintro ⟨hscalar, hget, hfields, ⟨rfl, he⟩ | ⟨rfl, between, hbetween, he⟩⟩
    · obtain ⟨htake, hdrop⟩ := marks_of_isPath hpath
      rw [he, htake, hdrop, hnever]
      exact ⟨Nat.zero_le _, by simpa using hscalar, rfl, hget, hfields, rfl⟩
    · obtain ⟨htake, hdrop⟩ := marks_of_reference hpath hbetween
      have hnone : between.count '&' = 0 := by
        refine List.count_eq_zero.2 fun hmem => ?_
        exact absurd (hbetween '&' hmem) (by decide)
      rw [he, htake, hdrop, hnever, List.count_cons_self, hnone]
      exact ⟨Nat.le_refl _, by simpa using hscalar, rfl, hget, hfields, rfl⟩

/-- The fields of an output are those of the composite, in the order of the descriptor. -/
theorem entries_of_resolveOutput {d : Descriptor} {output : Option String}
    (h : resolveOutput (Catalog.ofDescriptor d).types output = .ok ⟨T, isRef, fields⟩) :
    ∃ declared, d.types.get? T = some declared ∧
      fields.entries = declared.entries.map fun f => (f.1, trimmed f.2) := by
  have hget : (Registry.typesOf d.types).get? T = some fields := by
    unfold resolveOutput at h
    split at h
    · cases h
    · exact (outputOf_eq_ok_iff.1 h).2.2.2.1
  rw [Registry.get?_typesOf, Option.map_eq_some_iff] at hget
  obtain ⟨declared, hdeclared, rfl⟩ := hget
  exact ⟨declared, hdeclared, rfl⟩

end Schema

/-- **An output is resolved as its expression is read.** A composite that is called by a type path is
found exactly if the expression is read as this composite, or as a reference to it whose text starts
with `&`, and the composite has a field and no built-in name. The output is then a reference in the
second case only, and has the fields that the descriptor declares, in their order. -/
theorem output_resolved_iff {d : Descriptor} {s : Schema} (he : s.output = some e)
    (hne : trim e.toList ≠ []) :
    ((Schema.resolveOutput (Catalog.ofDescriptor d).types s.output = .ok ⟨T, isRef, fields⟩ ∧
        IsPath T.toList ∧ T ∉ contextNames ∧ T ∉ errorNames) ↔
      (Catalog.ofDescriptor d).types.get? T = some fields ∧ fields.isEmpty = false ∧
        T ∉ Schema.scalarTypes ∧
        ((isRef = false ∧ parse (Catalog.ofDescriptor d).types e = .struct T fields) ∨
          isRef = true ∧ parse (Catalog.ofDescriptor d).types e = .ref (.struct T fields) ∧
            (trim e.toList).head? = some '&')) ∧
    (Schema.resolveOutput (Catalog.ofDescriptor d).types s.output = .ok ⟨T, isRef, fields⟩ →
      ∃ declared, d.types.get? T = some declared ∧
        fields.entries = declared.entries.map fun f => (f.1, trimmed f.2)) := by
  refine ⟨?_, Schema.entries_of_resolveOutput⟩
  rw [he, parse_eq_struct_iff, parse_eq_ref_struct_iff]
  constructor
  · rintro ⟨hok, hpath, hcontext, herror⟩
    obtain ⟨hscalar, hget, hfields, hcases⟩ := (Schema.resolveOutput_eq_ok_iff hne hpath).1 hok
    refine ⟨hget, hfields, hscalar, ?_⟩
    rcases hcases with ⟨href, htrim⟩ | ⟨href, htrim⟩
    · exact Or.inl ⟨href, htrim, hpath, hcontext, herror, hget⟩
    · exact Or.inr ⟨href, htrim, hpath, hcontext, herror, hget⟩
  · rintro ⟨hget, hfields, hscalar, ⟨href, htrim, hpath, hcontext, herror, -⟩ |
      ⟨href, htrim, hpath, hcontext, herror, -⟩⟩
    · exact ⟨(Schema.resolveOutput_eq_ok_iff hne hpath).2
        ⟨hscalar, hget, hfields, Or.inl ⟨href, htrim⟩⟩, hpath, hcontext, herror⟩
    · exact ⟨(Schema.resolveOutput_eq_ok_iff hne hpath).2
        ⟨hscalar, hget, hfields, Or.inr ⟨href, htrim⟩⟩, hpath, hcontext, herror⟩

/-- A descriptor of posts and of feeds, whose posts are of the given type. -/
def feedDescriptor (posts : String) : Descriptor :=
  { scope := "db"
    types := Table.ofList
      [("Post", Table.ofList [("id", "i64")]),
       ("Feed", Table.ofList [("title", " String "), ("posts", posts)])]
    operations := Table.ofList
      [("GetPost", ⟨["ctx"], ["Post", "error"]⟩), ("ListPosts", ⟨["ctx"], ["[Post]", "error"]⟩)] }

theorem output_resolved_iff_feed :
    let types := (Catalog.ofDescriptor (feedDescriptor "[Post]")).types
    let e := " &\u3000Feed "
    ∃ fields, Schema.resolveOutput types (some e) = .ok ⟨"Feed", true, fields⟩ ∧
      parse types e = .ref (.struct "Feed" fields) ∧
      ∃ declared, (feedDescriptor "[Post]").types.get? "Feed" = some declared ∧
        fields.entries = declared.entries.map fun f => (f.1, trimmed f.2) := by
  intro types e
  let s : Schema := ⟨"GetFeed", some e, [], none⟩
  let fields : Fields := Table.ofList [("title", "String"), ("posts", "[Post]")]
  have hread : parse types e = .ref (.struct "Feed" fields) := by decide +kernel
  have hne : trim e.toList ≠ [] := by decide
  have hok : Schema.resolveOutput types s.output = .ok ⟨"Feed", true, fields⟩ :=
    ((output_resolved_iff rfl hne).1.2 ⟨by decide, by decide, by decide,
      Or.inr ⟨rfl, hread, by decide⟩⟩).1
  exact ⟨fields, hok, hread, (output_resolved_iff (s := s) rfl hne).2 hok⟩

end Orchestration
