import Orchestration.Proofs.TypeExpr.Grammar
import Orchestration.TypeExpr.Surface

/-!
# What the text of a type tells

Whether a type is a collection and what its innermost name is are read off its text. The innermost
name is that of the shape, whatever stands around it. The test for a collection looks behind
references for one of the two brackets of collections, so it sees the collections of the shape but for
those inside an `Option< >`, which the reader takes for a reference.
-/

namespace Orchestration

/-- The shape that references lead to. -/
def TypeShape.dereferenced : TypeShape → TypeShape
  | ref inner => inner.dereferenced
  | shape => shape

/-- Whether a shape is a collection, references to it aside. -/
def TypeShape.IsCollection (shape : TypeShape) : Prop :=
  ∃ element, shape.dereferenced = .list element

namespace TypeExpr

open Text Naming

variable {types : TypeTable} {cs core lead trail inner : List Char} {t : Tree} {w : Wrapper}
  {expr : String}

/-! ## Parts of a tree -/

/-- The path inside all references and brackets. -/
def Tree.name : Tree → List Char
  | path name => name
  | reference inner => inner.name
  | enclosed _ inner => inner.name

/-- The first bracket behind references. -/
def Tree.bracket? : Tree → Option Bracket
  | path _ => none
  | reference inner => inner.bracket?
  | enclosed b _ => some b

/-- Whether an expression is, behind references, an `Option< >`. -/
def IsOptional (expr : String) : Prop :=
  ∃ t, Derives t expr.toList ∧ t.bracket? = some .option

theorem isOptional_iff (h : Derives t expr.toList) : IsOptional expr ↔ t.bracket? = some .option := by
  constructor
  · rintro ⟨t', h', hoption⟩
    rwa [h.tree_unique h']
  · exact fun hoption => ⟨t, h, hoption⟩

/-! ## The innermost name -/

theorem bareText_of_peel_none (hpeel : peel (trim cs) = none) : bareText cs = trim cs := by
  rw [bareText]
  split
  · rfl
  · next h =>
    rw [hpeel] at h
    cases h

theorem bareText_of_peel_some (hpeel : peel (trim cs) = some (w, inner)) :
    bareText cs = bareText inner := by
  rw [bareText]
  split
  · next h =>
    rw [hpeel] at h
    cases h
  · next h =>
    rw [hpeel] at h
    cases h
    rfl

/-- The innermost text of what is derived is the path of its tree. -/
theorem Derives.bareText_eq (h : Derives t cs) : bareText cs = t.name := by
  induction t generalizing cs with
  | path name =>
    obtain ⟨hname, htrim⟩ := h.trim_eq
    have hpeel : peel (trim cs) = none := by
      rw [htrim]
      exact peel_of_isPath hname
    rw [bareText_of_peel_none hpeel, htrim]
    rfl
  | reference t ih =>
    obtain ⟨inner, hinner, htrim⟩ := h.trim_eq
    rw [bareText_of_peel_some (peel_eq_some_iff.2 (Or.inl ⟨rfl, htrim⟩)), ih hinner]
    rfl
  | enclosed b t ih =>
    obtain ⟨inner, hinner, htrim⟩ := h.trim_eq
    rw [bareText_of_peel_some (peel_eq_some_iff.2 (Or.inr ⟨b, rfl, htrim⟩)), ih hinner]
    rfl

theorem innermost_denote (types : TypeTable) (t : Tree) :
    (t.denote types).innermost = leaf types (String.ofList t.name) ∧
      (t.denote types).baseName = (leaf types (String.ofList t.name)).baseName := by
  induction t with
  | path name =>
    refine ⟨?_, rfl⟩
    unfold Tree.denote Tree.name leaf lookUp
    split
    · rfl
    split
    · rfl
    split <;> rfl
  | reference t ih => exact ih
  | enclosed b t ih => cases b <;> exact ih

theorem baseName_leaf {name : String} (hcontext : leaf types name ≠ .context)
    (herror : leaf types name ≠ .error) : (leaf types name).baseName = name := by
  unfold leaf lookUp at *
  split
  · next h => exact absurd (if_pos h) hcontext
  · next hnot =>
    rw [if_neg hnot] at herror
    split
    · next h => exact absurd (if_pos h) herror
    · split <;> rfl

/-- The innermost name in the text of what denotes something is that of the shape, unless this is the
context or the error slot, which have one name for several spellings. -/
theorem bareName_of_known (hknown : ∀ text, parse types expr ≠ .unknown text)
    (hcontext : (parse types expr).innermost ≠ .context)
    (herror : (parse types expr).innermost ≠ .error) :
    bareName expr = (parse types expr).baseName := by
  obtain ⟨t, ht⟩ := exists_derives hknown
  have hread : parse types expr = t.denote types := ht.read_eq
  obtain ⟨hinner, hbase⟩ := innermost_denote types t
  rw [hread, hinner] at hcontext herror
  rw [bareName, ht.bareText_eq, hread, hbase, baseName_leaf hcontext herror]

/-! ## Taking wrappers off, one after another -/

/-- Taking wrappers off in some number of rounds until none is left, with the white space around each
of them. -/
inductive Unwraps : Nat → List Char → List Char → Prop where
  /-- Neither a reference nor a bracket stands around the text. -/
  | done {cs : List Char} (noReference : ∀ inner, trim cs ≠ '&' :: inner)
      (noBracket : ∀ (b : Bracket) inner, trim cs ≠ b.enclose inner) : Unwraps 0 cs (trim cs)
  /-- A reference is taken off. -/
  | reference {rounds : Nat} {cs inner core : List Char} (mark : trim cs = '&' :: inner)
      (rest : Unwraps rounds inner core) : Unwraps (rounds + 1) cs core
  /-- A bracket is taken off. -/
  | bracket {rounds : Nat} {cs inner core : List Char} (b : Bracket)
      (brackets : trim cs = b.enclose inner) (rest : Unwraps rounds inner core) :
      Unwraps (rounds + 1) cs core

theorem Unwraps.unique {n n' : Nat} {core' : List Char} (h : Unwraps n cs core)
    (h' : Unwraps n' cs core') : n = n' ∧ core = core' := by
  induction h generalizing n' core' with
  | done hreference hbracket =>
    cases h' with
    | done => exact ⟨rfl, rfl⟩
    | reference hmark => exact absurd hmark (hreference _)
    | bracket b hbrackets => exact absurd hbrackets (hbracket b _)
  | reference hmark _ ih =>
    cases h' with
    | done hreference => exact absurd hmark (hreference _)
    | reference hmark' hrest =>
      obtain rfl := List.tail_eq_of_cons_eq (hmark.symm.trans hmark')
      obtain ⟨rfl, rfl⟩ := ih hrest
      exact ⟨rfl, rfl⟩
    | bracket b hbrackets => exact absurd (hbrackets.symm.trans hmark) (enclose_ne_reference b)
  | bracket b hbrackets _ ih =>
    cases h' with
    | done _ hbracket => exact absurd hbrackets (hbracket b _)
    | reference hmark => exact absurd (hbrackets.symm.trans hmark) (enclose_ne_reference b)
    | bracket b' hbrackets' hrest =>
      obtain ⟨-, rfl⟩ := enclose_inj (hbrackets.symm.trans hbrackets')
      obtain ⟨rfl, rfl⟩ := ih hrest
      exact ⟨rfl, rfl⟩

/-- Taking wrappers off ends on every text: each round leaves fewer characters. -/
theorem exists_unwraps (cs : List Char) : ∃ rounds ≤ cs.length, Unwraps rounds cs (bareText cs) := by
  induction cs using bareText.induct with
  | case1 cs hpeel =>
    refine ⟨0, Nat.zero_le _, ?_⟩
    rw [bareText_of_peel_none hpeel]
    constructor
    · intro inner hmark
      rw [peel_eq_some_iff.2 (Or.inl ⟨rfl, hmark⟩)] at hpeel
      cases hpeel
    · intro b inner hbrackets
      rw [peel_eq_some_iff.2 (Or.inr ⟨b, rfl, hbrackets⟩)] at hpeel
      cases hpeel
  | case2 cs w inner hpeel ih =>
    obtain ⟨rounds, hle, hrest⟩ := ih
    have hshorter := peel_length_lt hpeel
    have htrim := trim_length_le cs
    refine ⟨rounds + 1, by omega, ?_⟩
    rw [bareText_of_peel_some hpeel]
    rcases peel_eq_some_iff.1 hpeel with ⟨-, hmark⟩ | ⟨b, -, hbrackets⟩
    · exact .reference hmark hrest
    · exact .bracket b hbrackets hrest

/-! ## The test for a collection -/

theorem dropMarks_append (hlead : IsBlankRun lead) :
    (lead ++ cs).dropWhile (fun c => c = '&' || isBlank c) =
      cs.dropWhile fun c => c = '&' || isBlank c := by
  refine List.dropWhile_append_of_pos fun c hc => ?_
  rw [hlead c hc, Bool.or_true]

theorem dropMarks_of_isPath {name : List Char} (h : IsPath name) :
    (name ++ trail).dropWhile (fun c => c = '&' || isBlank c) = name ++ trail := by
  obtain ⟨c, rest, rfl⟩ := List.exists_cons_of_ne_nil h.ne_nil
  have hblank := h.isBlank_eq_false (List.mem_cons_self (a := c) (l := rest))
  have hmark : c ≠ '&' := fun he => h.notMem (c := '&') rfl (by decide) (he ▸ List.mem_cons_self)
  exact List.dropWhile_cons_of_neg (by simp [hmark, hblank])

theorem dropMarks_of_enclose (b : Bracket) :
    (b.enclose inner ++ trail).dropWhile (fun c => c = '&' || isBlank c) =
      b.enclose inner ++ trail := by
  cases b <;> rfl

/-- Behind references stands a path, or the first bracket of the tree. -/
theorem Derives.dropMarks_eq (h : Derives t cs) :
    match t.bracket? with
    | none => ∃ name trail, IsPath name ∧ IsBlankRun trail ∧
        cs.dropWhile (fun c => c = '&' || isBlank c) = name ++ trail
    | some b => ∃ rest, cs.dropWhile (fun c => c = '&' || isBlank c) = b.opening ++ rest := by
  induction h with
  | @path lead name trail hlead hname htrail =>
    refine ⟨name, trail, hname, htrail, ?_⟩
    rw [List.append_assoc, dropMarks_append hlead, dropMarks_of_isPath hname]
  | @reference t lead cs hlead _ ih =>
    have hdrop : (lead ++ '&' :: cs).dropWhile (fun c => c = '&' || isBlank c) =
        cs.dropWhile fun c => c = '&' || isBlank c := by
      rw [dropMarks_append hlead, List.dropWhile_cons_of_pos (by decide)]
    rw [hdrop]
    exact ih
  | @enclosed t lead cs trail b hlead _ _ =>
    refine ⟨cs ++ [b.closing] ++ trail, ?_⟩
    rw [List.append_assoc, dropMarks_append hlead, dropMarks_of_enclose, Bracket.enclose]
    simp only [List.append_assoc]

theorem Derives.trim (h : Derives t cs) : Derives t (trim cs) := by
  cases t with
  | path name =>
    obtain ⟨hname, htrim⟩ := h.trim_eq
    rw [htrim]
    have hderives := Derives.path .nil hname .nil
    rwa [List.nil_append, List.append_nil] at hderives
  | reference t =>
    obtain ⟨inner, hinner, htrim⟩ := h.trim_eq
    have hderives := Derives.reference .nil hinner
    rwa [List.nil_append, ← htrim] at hderives
  | enclosed b t =>
    obtain ⟨inner, hinner, htrim⟩ := h.trim_eq
    have hderives := Derives.enclosed b .nil hinner .nil
    rwa [List.nil_append, List.append_nil, ← htrim] at hderives

/-- The test finds the brackets of collections, and no others. -/
theorem Derives.isCollection_iff (h : Derives t expr.toList) :
    isCollection expr = true ↔ t.bracket? = some .square ∨ t.bracket? = some .vec := by
  have hdrop := h.trim.dropMarks_eq
  unfold isCollection isCollectionText
  rw [Bool.or_eq_true, List.isPrefixOf_iff_prefix, List.isPrefixOf_iff_prefix]
  cases hbracket : t.bracket? with
  | none =>
    rw [hbracket] at hdrop
    obtain ⟨name, trail, hname, htrail, he⟩ := hdrop
    have hnot {c : Char} (hrest : isIdentifierRest c = false) (hne : c ≠ ':')
        (hblank : isBlank c = false) : c ∉ name ++ trail := by
      rw [List.mem_append, not_or]
      refine ⟨hname.notMem hrest hne, fun hc => ?_⟩
      rw [htrail c hc] at hblank
      cases hblank
    rw [he]
    refine iff_of_false ?_ (by simp)
    rintro (hsquare | hvec)
    · exact hnot rfl (by decide) rfl (hsquare.subset (List.mem_singleton_self '['))
    · exact hnot rfl (by decide) rfl (hvec.subset (by decide : '<' ∈ "Vec<".toList))
  | some b =>
    rw [hbracket] at hdrop
    obtain ⟨rest, he⟩ := hdrop
    rw [he]
    cases b with
    | square => exact iff_of_true (Or.inl (List.prefix_append _ _)) (Or.inl rfl)
    | vec => exact iff_of_true (Or.inr (List.prefix_append _ _)) (Or.inr rfl)
    | option =>
      refine iff_of_false ?_ (by simp)
      rintro (⟨rest', he'⟩ | ⟨rest', he'⟩) <;> cases he'

/-- A shape is a collection, with no `Option< >` around it, exactly if its tree has the brackets of one
behind references. -/
theorem isCollection_denote_iff (types : TypeTable) (t : Tree) :
    (t.denote types).IsCollection ∧ t.bracket? ≠ some .option ↔
      t.bracket? = some .square ∨ t.bracket? = some .vec := by
  induction t with
  | path name =>
    refine iff_of_false ?_ (by simp [Tree.bracket?])
    rintro ⟨⟨element, he⟩, -⟩
    unfold Tree.denote leaf lookUp at he
    split at he
    · cases he
    split at he
    · cases he
    split at he <;> cases he
  | reference t ih => exact ih
  | enclosed b t ih =>
    cases b with
    | square => exact iff_of_true ⟨⟨_, rfl⟩, by simp [Tree.bracket?]⟩ (Or.inl rfl)
    | vec => exact iff_of_true ⟨⟨_, rfl⟩, by simp [Tree.bracket?]⟩ (Or.inr rfl)
    | option => exact iff_of_false (fun h => h.2 rfl) (by simp [Tree.bracket?])

/-- The test sees a collection exactly if the shape is one and does not stand in an `Option< >`. -/
theorem isCollection_of_known (hknown : ∀ text, parse types expr ≠ .unknown text) :
    isCollection expr = true ↔ (parse types expr).IsCollection ∧ ¬ IsOptional expr := by
  obtain ⟨t, ht⟩ := exists_derives hknown
  have hread : parse types expr = t.denote types := ht.read_eq
  rw [ht.isCollection_iff, isOptional_iff ht, hread, ← isCollection_denote_iff types t]

end TypeExpr

end Orchestration
