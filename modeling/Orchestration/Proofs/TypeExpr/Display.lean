import Orchestration.Proofs.TypeExpr.Surface

/-!
# Reading what is printed

The printed form of what a text denotes denotes the same, and so do its innermost names: a leaf is
printed as a path that names it, and references and collections are printed with marks that are read
as such.
-/

namespace Orchestration.TypeExpr

open Text Naming

variable {types : TypeTable} {cs name : List Char} {t : Tree} {expr : String}

/-- A leaf is printed as a path that denotes it. -/
theorem leaf_display (types : TypeTable) (hname : IsPath name) :
    IsPath (leaf types (String.ofList name)).display.toList ∧
      leaf types (leaf types (String.ofList name)).display = leaf types (String.ofList name) := by
  have hctx : IsPath "ctx".toList := isModulePath_iff.1 (by decide)
  have herror : IsPath "error".toList := isModulePath_iff.1 (by decide)
  by_cases hcontext : leaf types (String.ofList name) = .context
  · rw [hcontext]
    exact ⟨hctx, rfl⟩
  by_cases hslot : leaf types (String.ofList name) = .error
  · rw [hslot]
    exact ⟨herror, rfl⟩
  have hdisplay : (leaf types (String.ofList name)).display = String.ofList name := by
    unfold leaf lookUp at *
    split
    · next h => exact absurd (if_pos h) hcontext
    · next hnot =>
      rw [if_neg hnot] at hslot
      split
      · next h => exact absurd (if_pos h) hslot
      · split <;> rfl
  rw [hdisplay, String.toList_ofList]
  exact ⟨hname, rfl⟩

theorem baseName_leaf_eq_display (types : TypeTable) (name : String) :
    (leaf types name).baseName = (leaf types name).display := by
  unfold leaf lookUp
  split
  · rfl
  split
  · rfl
  split <;> rfl

theorem derives_path (hname : IsPath name) : Derives (.path name) name := by
  have h := Derives.path .nil hname .nil
  rwa [List.nil_append, List.append_nil] at h

theorem derives_ref {shape : TypeShape} (h : Derives t shape.display.toList) :
    Derives (.reference t) (TypeShape.ref shape).display.toList := by
  have hprinted : (TypeShape.ref shape).display.toList = [] ++ '&' :: shape.display.toList := by
    simp [TypeShape.display]
  rw [hprinted]
  exact .reference .nil h

theorem derives_list {shape : TypeShape} (h : Derives t shape.display.toList) :
    Derives (.enclosed .square t) (TypeShape.list shape).display.toList := by
  have hprinted : (TypeShape.list shape).display.toList =
      [] ++ Bracket.square.enclose shape.display.toList ++ [] := by
    simp [TypeShape.display, Bracket.enclose, Bracket.opening, Bracket.closing]
  rw [hprinted]
  exact .enclosed .square .nil h .nil

/-- What is printed is derived, by a tree with the same meaning. -/
theorem Derives.exists_display (types : TypeTable) (h : Derives t cs) :
    ∃ t', Derives t' (t.denote types).display.toList ∧ t'.denote types = t.denote types := by
  induction h with
  | path _ hname _ =>
    obtain ⟨hpath, hleaf⟩ := leaf_display types hname
    refine ⟨.path _, derives_path hpath, ?_⟩
    rw [Tree.denote, String.ofList_toList]
    exact hleaf
  | reference _ _ ih =>
    obtain ⟨t', ht', hdenote⟩ := ih
    exact ⟨.reference t', derives_ref ht', congrArg TypeShape.ref hdenote⟩
  | enclosed b _ _ _ ih =>
    obtain ⟨t', ht', hdenote⟩ := ih
    cases b with
    | square => exact ⟨_, derives_list ht', congrArg TypeShape.list hdenote⟩
    | vec => exact ⟨_, derives_list ht', congrArg TypeShape.list hdenote⟩
    | option => exact ⟨_, derives_ref ht', congrArg TypeShape.ref hdenote⟩

theorem Derives.isPath_name (h : Derives t cs) : IsPath t.name := by
  induction h with
  | path _ hname _ => exact hname
  | reference _ _ ih => exact ih
  | enclosed _ _ _ _ ih => exact ih

theorem parse_display (hknown : ∀ text, parse types expr ≠ .unknown text) :
    parse types (parse types expr).display = parse types expr := by
  obtain ⟨t, ht⟩ := exists_derives hknown
  have hread : parse types expr = t.denote types := ht.read_eq
  obtain ⟨t', ht', hdenote⟩ := ht.exists_display types
  rw [hread]
  exact ht'.read_eq.trans hdenote

/-- The innermost name denotes what is innermost. -/
theorem parse_baseName (hknown : ∀ text, parse types expr ≠ .unknown text) :
    parse types (parse types expr).baseName = (parse types expr).innermost := by
  obtain ⟨t, ht⟩ := exists_derives hknown
  have hread : parse types expr = t.denote types := ht.read_eq
  obtain ⟨hinner, hbase⟩ := innermost_denote types t
  obtain ⟨hpath, hleaf⟩ := leaf_display types ht.isPath_name
  rw [hread, hinner, hbase, baseName_leaf_eq_display]
  refine (derives_path hpath).read_eq.trans ?_
  rw [Tree.denote, String.ofList_toList]
  exact hleaf

theorem baseName_innermost (shape : TypeShape) : shape.innermost.baseName = shape.baseName := by
  induction shape with
  | ref inner ih => exact ih
  | list element ih => exact ih
  | _ => rfl

end Orchestration.TypeExpr
