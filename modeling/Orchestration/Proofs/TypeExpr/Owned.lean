import Orchestration.Proofs.TypeExpr.Canonical

/-!
# Owned types

Generated code holds its parameters as owned values. The type of such a value is found by recursion over
the shape: references are left out, a collection is a vector, and of the leaves only `str` has another
owned type. The text of the owned type is made from the printed form of the shape, by taking marks off;
the two agree, and no mark is left.
-/

namespace Orchestration

/-- The owned type of a shape, as generated code writes it. -/
def TypeShape.ownedType : TypeShape → String
  | ref inner => inner.ownedType
  | list element => "Vec<" ++ element.ownedType ++ ">"
  | leaf => if leaf.baseName = "str" then "String" else leaf.baseName

namespace TypeExpr

open Text Naming

variable {types : TypeTable} {cs name inner : List Char} {t : Tree} {c : Char} {expr : String}

/-- Whether a type is written without the marks of references and collections. -/
def Unmarked (type : String) : Prop :=
  ∀ c ∈ type.toList, c ≠ '&' ∧ c ≠ '['

/-! ## Taking marks off -/

theorem ownedText_of_leaf (h : peelPrinted (trim cs) = none) :
    ownedText cs = if trim cs = "str".toList then "String".toList else trim cs := by
  rw [ownedText]
  split
  · rfl
  · next hpeel => cases h.symm.trans hpeel
  · next hpeel => cases h.symm.trans hpeel

theorem ownedText_of_reference (h : trim cs = '&' :: inner) : ownedText cs = ownedText inner := by
  have hpeel : peelPrinted (trim cs) = some (.ref, inner) := by
    rw [h]
    rfl
  rw [ownedText]
  split
  · next hnone => cases hpeel.symm.trans hnone
  · next hsome =>
    cases hpeel.symm.trans hsome
    rfl
  · next hsome => cases hpeel.symm.trans hsome

theorem ownedText_of_square (h : trim cs = Bracket.square.enclose inner) :
    ownedText cs = "Vec<".toList ++ ownedText inner ++ ['>'] := by
  have hpeel : peelPrinted (trim cs) = some (.list, inner) := by
    have hreference : after? ['&'] (Bracket.square.enclose inner) = none := rfl
    have hinside : between? ['['] ']' (Bracket.square.enclose inner) = some inner :=
      between?_eq_some_iff.2 rfl
    simp only [h, peelPrinted, hreference, hinside, Option.map_some]
  rw [ownedText]
  split
  · next hnone => cases hpeel.symm.trans hnone
  · next hsome => cases hpeel.symm.trans hsome
  · next hsome =>
    cases hpeel.symm.trans hsome
    rfl

theorem peelPrinted_of_isPath (h : IsPath cs) : peelPrinted cs = none := by
  have hreference : after? ['&'] cs = none := by
    rw [Option.eq_none_iff_forall_ne_some]
    rintro rest hrest
    refine h.notMem (c := '&') rfl (by decide) ?_
    rw [after?_eq_some_iff.1 hrest]
    exact List.mem_cons_self ..
  have hsquare : between? ['['] ']' cs = none := by
    rw [Option.eq_none_iff_forall_ne_some]
    rintro rest hrest
    refine h.notMem (c := '[') rfl (by decide) ?_
    rw [between?_eq_some_iff.1 hrest]
    exact List.mem_cons_self ..
  simp only [peelPrinted, hreference, hsquare, Option.map_none]

/-! ## Owned types of printed shapes -/

theorem Derives.trim_text (h : Derives t cs) : Text.trim t.text = t.text :=
  trim_eq_self fun _ => h.notBlank_of_mem_text

theorem Derives.ownedText_reference (h : Derives t cs) :
    ownedText ('&' :: t.text) = ownedText t.text :=
  ownedText_of_reference (Derives.reference .nil h).trim_text

theorem Derives.ownedText_square (h : Derives t cs) :
    ownedText (Bracket.square.enclose t.text) = "Vec<".toList ++ ownedText t.text ++ ['>'] :=
  ownedText_of_square (Derives.enclosed .square .nil h .nil).trim_text

theorem toList_ownedType_leaf (types : TypeTable) (name : List Char) :
    (leaf types (String.ofList name)).ownedType.toList =
      if canonicalName name = "str".toList then "String".toList else canonicalName name := by
  have howned : (leaf types (String.ofList name)).ownedType =
      if (leaf types (String.ofList name)).baseName = "str" then "String"
      else (leaf types (String.ofList name)).baseName := by
    unfold leaf lookUp
    split
    · rfl
    split
    · rfl
    split <;> rfl
  have hdisplay : (leaf types (String.ofList name)).display = String.ofList (canonicalName name) := by
    rw [← display_leaf types name, String.ofList_toList]
  simp only [howned, baseName_leaf_eq_display, hdisplay, apply_ite String.toList, ← String.toList_inj,
    String.toList_ofList]

theorem toList_ownedType_list (element : TypeShape) :
    (TypeShape.list element).ownedType.toList =
      "Vec<".toList ++ element.ownedType.toList ++ ['>'] := by
  rw [TypeShape.ownedType, String.toList_append, String.toList_append]
  rfl

/-- The text made from the printed form of a shape is its owned type. -/
theorem Derives.ownedText_eq (types : TypeTable) (h : Derives t cs) :
    ownedText t.canonical.text = (t.denote types).ownedType.toList := by
  induction h with
  | @path lead name trail _ hname _ =>
    have hpath := isPath_canonicalName hname
    have htrim : Text.trim (canonicalName name) = canonicalName name := (derives_path hpath).trim_text
    have hleaf : peelPrinted (Text.trim (canonicalName name)) = none := by
      rw [htrim]
      exact peelPrinted_of_isPath hpath
    exact (ownedText_of_leaf hleaf).trans (by rw [htrim, Tree.denote, toList_ownedType_leaf])
  | @reference t lead cs _ h ih => exact h.canonical.ownedText_reference.trans ih
  | @enclosed t lead cs trail b _ h _ ih =>
    have hlist : ownedText (Bracket.square.enclose t.canonical.text) =
        (TypeShape.list (t.denote types)).ownedType.toList := by
      rw [h.canonical.ownedText_square, ih, toList_ownedType_list]
    cases b with
    | square => exact hlist
    | vec => exact hlist
    | option => exact h.canonical.ownedText_reference.trans ih

/-- The owned type of what is printed is that of the shape. -/
theorem owned_display (hknown : ∀ text, parse types expr ≠ .unknown text) :
    owned (parse types expr).display = (parse types expr).ownedType := by
  obtain ⟨t, ht⟩ := exists_derives hknown
  have hread : parse types expr = t.denote types := ht.read_eq
  rw [owned, hread, display_denote, ht.ownedText_eq types, String.ofList_toList]

/-! ## No marks -/

theorem Unmarked.list {shape : TypeShape} (h : Unmarked shape.ownedType) :
    Unmarked (TypeShape.list shape).ownedType := by
  have hvec : ∀ c ∈ "Vec<".toList, c ≠ '&' ∧ c ≠ '[' := by simp
  unfold Unmarked
  rw [toList_ownedType_list]
  intro c hc
  rcases List.mem_append.1 hc with hc | hc
  · rcases List.mem_append.1 hc with hc | hc
    · exact hvec c hc
    · exact h c hc
  · rw [List.mem_singleton.1 hc]
    decide

theorem Derives.unmarked_ownedType (types : TypeTable) (h : Derives t cs) :
    Unmarked (t.denote types).ownedType := by
  induction h with
  | path _ hname _ =>
    have hpath := isPath_canonicalName hname
    unfold Unmarked
    rw [Tree.denote, toList_ownedType_leaf]
    split
    · simp
    · intro c hc
      constructor <;> rintro rfl
      · exact hpath.notMem rfl (by decide) hc
      · exact hpath.notMem rfl (by decide) hc
  | reference _ _ ih => exact ih
  | enclosed b _ _ _ ih =>
    cases b with
    | square => exact ih.list
    | vec => exact ih.list
    | option => exact ih

/-- The owned type of what denotes something is unmarked. -/
theorem unmarked_ownedType (hknown : ∀ text, parse types expr ≠ .unknown text) :
    Unmarked (parse types expr).ownedType := by
  obtain ⟨t, ht⟩ := exists_derives hknown
  have hread : parse types expr = t.denote types := ht.read_eq
  rw [hread]
  exact ht.unmarked_ownedType types

example : owned "[&[&&str]]" = "Vec<Vec<String>>" := by decide +kernel

end TypeExpr

end Orchestration
