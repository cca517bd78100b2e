import Orchestration.Proofs.Naming.ModulePath
import Orchestration.Proofs.Text.Blank
import Orchestration.TypeExpr.Parser

/-!
# The grammar of type expressions

The grammar says which texts are type expressions and which tree a text has; the reader works by
trimming and by taking the outermost wrapper off. What a derivation puts around an expression is what
the reader takes off, so the two agree on every text, and every text has one tree at most.
-/

namespace Orchestration

/-- Whether no unknown part occurs in a shape. -/
def TypeShape.IsKnown : TypeShape → Prop
  | ref inner => inner.IsKnown
  | list element => element.IsKnown
  | unknown _ => False
  | _ => True

namespace TypeExpr

open Text Naming

/-! ## The grammar -/

/-- The brackets that an expression can stand in. -/
inductive Bracket where
  /-- `[ ]`. -/
  | square
  /-- `Vec< >`. -/
  | vec
  /-- `Option< >`. -/
  | option
deriving Repr, DecidableEq

namespace Bracket

/-- How a bracket opens. -/
def opening : Bracket → List Char
  | square => ['[']
  | vec => ['V', 'e', 'c', '<']
  | option => ['O', 'p', 't', 'i', 'o', 'n', '<']

/-- How a bracket closes. -/
def closing : Bracket → Char
  | square => ']'
  | vec => '>'
  | option => '>'

/-- A text in a bracket. -/
def enclose (b : Bracket) (cs : List Char) : List Char :=
  b.opening ++ cs ++ [b.closing]

/-- What a bracket means: an optional value is a reference, the other two are collections. -/
def wrapper : Bracket → Wrapper
  | square => .list
  | vec => .list
  | option => .ref

end Bracket

/-- The derivation trees of type expressions. -/
inductive Tree where
  /-- A path. -/
  | path (name : List Char)
  /-- `&` before an expression. -/
  | reference (inner : Tree)
  /-- An expression in brackets. -/
  | enclosed (bracket : Bracket) (inner : Tree)
deriving Repr, DecidableEq

/-- The grammar: a text is derived with a tree. -/
inductive Derives : Tree → List Char → Prop where
  /-- A path between white space. -/
  | path {lead name trail : List Char} (hlead : IsBlankRun lead) (hname : IsPath name)
    (htrail : IsBlankRun trail) :
    Derives (.path name) (lead ++ name ++ trail)
  /-- A reference, after white space. -/
  | reference {t : Tree} {lead cs : List Char} (hlead : IsBlankRun lead) (h : Derives t cs) :
    Derives (.reference t) (lead ++ '&' :: cs)
  /-- A bracket between white space. -/
  | enclosed {t : Tree} {lead cs trail : List Char} (b : Bracket) (hlead : IsBlankRun lead)
    (h : Derives t cs) (htrail : IsBlankRun trail) :
    Derives (.enclosed b t) (lead ++ b.enclose cs ++ trail)

/-- What a path denotes: the invocation context or the error slot if it is spelled so, else a composite
if the table has it, else a plain value. -/
def leaf (types : TypeTable) (name : String) : TypeShape :=
  if name ∈ ["ctx", "context", "Context"] then .context
  else if name ∈ ["error", "Error"] then .error
  else lookUp types name

/-- What a tree denotes. -/
def Tree.denote (types : TypeTable) : Tree → TypeShape
  | path name => leaf types (String.ofList name)
  | reference inner => .ref (inner.denote types)
  | enclosed b inner => b.wrapper.apply (inner.denote types)

/-! ## Wrappers -/

variable {types : TypeTable} {cs inner inner' lead trail opening rest : List Char} {closing : Char}
  {b b' : Bracket} {t t' : Tree} {w : Wrapper}

theorem after?_eq_some_iff : after? lead cs = some rest ↔ cs = lead ++ rest := by
  unfold after?
  constructor
  · intro h
    split at h
    · next hp =>
      obtain ⟨tail, rfl⟩ := List.isPrefixOf_iff_prefix.1 hp
      rw [List.drop_left] at h
      rw [Option.some.inj h]
    · cases h
  · rintro rfl
    rw [if_pos (List.isPrefixOf_iff_prefix.2 (List.prefix_append _ _)), List.drop_left]

theorem between?_eq_some_iff :
    between? opening closing cs = some inner ↔ cs = opening ++ inner ++ [closing] := by
  unfold between?
  constructor
  · intro h
    split at h
    · cases h
    · next rest hrest =>
      split at h
      · next hlast =>
        obtain ⟨front, rfl⟩ := List.getLast?_eq_some_iff.1 hlast
        rw [List.dropLast_concat] at h
        rw [after?_eq_some_iff.1 hrest, Option.some.inj h, List.append_assoc]
      · cases h
  · rintro rfl
    have hafter : after? opening (opening ++ inner ++ [closing]) = some (inner ++ [closing]) :=
      after?_eq_some_iff.2 (List.append_assoc ..)
    rw [hafter]
    dsimp only
    rw [List.getLast?_concat, if_pos rfl, List.dropLast_concat]

/-- No two brackets open alike, and none opens like a reference. -/
theorem peel_enclose (b : Bracket) (inner : List Char) :
    peel (b.enclose inner) = some (b.wrapper, inner) := by
  have hreference : after? ['&'] (b.enclose inner) = none := by cases b <;> rfl
  have hinside : between? b.opening b.closing (b.enclose inner) = some inner :=
    between?_eq_some_iff.2 rfl
  cases b with
  | square =>
    have hsquare : between? ['['] ']' (Bracket.square.enclose inner) = some inner := hinside
    simp only [peel, hreference, hsquare, Bracket.wrapper]
  | vec =>
    have hsquare : between? ['['] ']' (Bracket.vec.enclose inner) = none := rfl
    have hvec : between? "Vec<".toList '>' (Bracket.vec.enclose inner) = some inner := hinside
    simp only [peel, hreference, hsquare, hvec, Bracket.wrapper]
  | option =>
    have hsquare : between? ['['] ']' (Bracket.option.enclose inner) = none := rfl
    have hvec : between? "Vec<".toList '>' (Bracket.option.enclose inner) = none := rfl
    have hoption : between? "Option<".toList '>' (Bracket.option.enclose inner) = some inner :=
      hinside
    simp only [peel, hreference, hsquare, hvec, hoption, Bracket.wrapper]

/-- The reader takes off a reference or a bracket. -/
theorem peel_eq_some_iff :
    peel cs = some (w, inner) ↔
      (w = .ref ∧ cs = '&' :: inner) ∨ ∃ b : Bracket, w = b.wrapper ∧ cs = b.enclose inner := by
  constructor
  · intro h
    unfold peel at h
    split at h
    · next hi =>
      cases h
      exact Or.inl ⟨rfl, after?_eq_some_iff.1 hi⟩
    right
    split at h
    · next hi =>
      cases h
      exact ⟨.square, rfl, between?_eq_some_iff.1 hi⟩
    split at h
    · next hi =>
      cases h
      exact ⟨.vec, rfl, between?_eq_some_iff.1 hi⟩
    split at h
    · next hi =>
      cases h
      exact ⟨.option, rfl, between?_eq_some_iff.1 hi⟩
    · cases h
  · rintro (⟨rfl, rfl⟩ | ⟨b, rfl, rfl⟩)
    · rfl
    · exact peel_enclose b inner

theorem enclose_inj (h : b.enclose inner = b'.enclose inner') :
    b = b' ∧ inner = inner' := by
  have hbracket : b = b' := by
    have hfirst := congrArg List.head? h
    revert hfirst
    cases b <;> cases b' <;> simp [Bracket.enclose, Bracket.opening]
  obtain rfl := hbracket
  have hpeel := congrArg peel h
  rw [peel_enclose, peel_enclose] at hpeel
  cases hpeel
  exact ⟨rfl, rfl⟩

theorem enclose_ne_reference (b : Bracket) : b.enclose inner ≠ '&' :: rest := by
  cases b <;> nofun

/-- A path stands in no wrapper. -/
theorem peel_of_isPath (h : IsPath cs) : peel cs = none := by
  rw [Option.eq_none_iff_forall_ne_some]
  rintro ⟨w, inner⟩ hpeel
  have hnot : ∀ c ∈ cs, c ≠ '&' ∧ c ≠ '[' ∧ c ≠ '<' := by
    intro c hc
    rcases h.of_mem hc with hrest | rfl
    · refine ⟨?_, ?_, ?_⟩ <;> rintro rfl <;> cases hrest
    · decide
  rcases peel_eq_some_iff.1 hpeel with ⟨-, rfl⟩ | ⟨b, -, rfl⟩
  · exact (hnot '&' (List.mem_cons_self ..)).1 rfl
  · cases b with
    | square => exact (hnot '[' (by simp [Bracket.enclose, Bracket.opening])).2.1 rfl
    | vec => exact (hnot '<' (by simp [Bracket.enclose, Bracket.opening])).2.2 rfl
    | option => exact (hnot '<' (by simp [Bracket.enclose, Bracket.opening])).2.2 rfl

/-! ## Derivations and white space -/

theorem isBlank_of_enclose {c : Char} :
    ((b.enclose inner).head? = some c → isBlank c = false) ∧
      ((b.enclose inner).getLast? = some c → isBlank c = false) := by
  constructor
  · intro hc
    cases b <;> cases hc <;> decide
  · intro hc
    rw [Bracket.enclose, List.getLast?_concat] at hc
    cases b <;> cases hc <;> decide

theorem enclose_ne_nil (b : Bracket) : b.enclose inner ≠ [] := by
  cases b <;> nofun

theorem Derives.append (h : Derives t cs) (htrail : IsBlankRun trail) : Derives t (cs ++ trail) := by
  induction h with
  | path hlead hname htrail' =>
    rw [List.append_assoc]
    exact .path hlead hname (htrail'.append htrail)
  | reference hlead _ ih =>
    rw [List.append_assoc]
    exact .reference hlead ih
  | enclosed b hlead h htrail' =>
    rw [List.append_assoc]
    exact .enclosed b hlead h (htrail'.append htrail)

theorem Derives.trimRight (h : Derives t cs) : Derives t (trimRight cs) := by
  induction h with
  | @path lead name trail hlead hname htrail =>
    have hself : Text.trimRight name = name :=
      trimRight_eq_self fun c hc => hname.isBlank_eq_false (List.mem_of_getLast? hc)
    have hkeep : Text.trimRight (lead ++ name) = lead ++ name := by
      rw [trimRight_prepend (by rw [hself]; exact hname.ne_nil), hself]
    rw [trimRight_append htrail, hkeep, ← List.append_nil (lead ++ name)]
    exact .path hlead hname .nil
  | @reference t lead cs hlead _ ih =>
    have hself : Text.trimRight ('&' :: cs) = '&' :: Text.trimRight cs := trimRight_cons (by decide)
    rw [trimRight_prepend (by rw [hself]; exact List.cons_ne_nil _ _), hself]
    exact .reference hlead ih
  | @enclosed t lead cs trail b hlead h htrail =>
    have hself : Text.trimRight (b.enclose cs) = b.enclose cs :=
      trimRight_eq_self fun _ => isBlank_of_enclose.2
    have hkeep : Text.trimRight (lead ++ b.enclose cs) = lead ++ b.enclose cs := by
      rw [trimRight_prepend (by rw [hself]; exact enclose_ne_nil b), hself]
    rw [trimRight_append htrail, hkeep, ← List.append_nil (lead ++ b.enclose cs)]
    exact .enclosed b hlead h .nil

/-- What is left of a derived text without the white space around it starts, and ends, with the
outermost part of the tree. -/
theorem Derives.trim_eq (h : Derives t cs) :
    match t with
    | .path name => IsPath name ∧ trim cs = name
    | .reference t => ∃ inner, Derives t inner ∧ trim cs = '&' :: inner
    | .enclosed b t => ∃ inner, Derives t inner ∧ trim cs = b.enclose inner := by
  cases h with
  | path hlead hname htrail =>
    refine ⟨hname, trim_of_ends hlead htrail hname.ne_nil ?_ ?_⟩
    · exact fun c hc => hname.isBlank_eq_false (List.mem_of_head? hc)
    · exact fun c hc => hname.isBlank_eq_false (List.mem_of_getLast? hc)
  | @reference t lead cs hlead h =>
    -- white space at the end belongs to the expression behind the reference
    have hreference : isBlank '&' = false := by decide
    refine ⟨Text.trimRight cs, h.trimRight, ?_⟩
    rw [trim, trimLeft_append hlead, trimLeft_cons hreference, trimRight_cons hreference]
  | enclosed b hlead h htrail =>
    exact ⟨_, h, trim_of_ends hlead htrail (enclose_ne_nil b) (fun _ => isBlank_of_enclose.1)
      (fun _ => isBlank_of_enclose.2)⟩

/-- A text has one tree at most. -/
theorem Derives.tree_unique (h : Derives t cs) (h' : Derives t' cs) : t = t' := by
  induction t generalizing cs t' with
  | path name =>
    obtain ⟨hname, htrim⟩ := h.trim_eq
    have hpeel := peel_of_isPath hname
    cases t' with
    | path name' =>
      obtain ⟨-, htrim'⟩ := h'.trim_eq
      rw [← htrim, htrim']
    | reference t' =>
      obtain ⟨inner, -, htrim'⟩ := h'.trim_eq
      rw [← htrim, htrim'] at hpeel
      cases hpeel
    | enclosed b t' =>
      obtain ⟨inner, -, htrim'⟩ := h'.trim_eq
      rw [← htrim, htrim', peel_enclose] at hpeel
      cases hpeel
  | reference t ih =>
    obtain ⟨inner, hinner, htrim⟩ := h.trim_eq
    cases t' with
    | path name' =>
      obtain ⟨hname', htrim'⟩ := h'.trim_eq
      have hpeel := peel_of_isPath hname'
      rw [← htrim', htrim] at hpeel
      cases hpeel
    | reference t' =>
      obtain ⟨inner', hinner', htrim'⟩ := h'.trim_eq
      obtain rfl : inner = inner' := List.tail_eq_of_cons_eq (htrim.symm.trans htrim')
      rw [ih hinner hinner']
    | enclosed b t' =>
      obtain ⟨inner', -, htrim'⟩ := h'.trim_eq
      exact absurd (htrim'.symm.trans htrim) (enclose_ne_reference b)
  | enclosed b t ih =>
    obtain ⟨inner, hinner, htrim⟩ := h.trim_eq
    cases t' with
    | path name' =>
      obtain ⟨hname', htrim'⟩ := h'.trim_eq
      have hpeel := peel_of_isPath hname'
      rw [← htrim', htrim, peel_enclose] at hpeel
      cases hpeel
    | reference t' =>
      obtain ⟨inner', -, htrim'⟩ := h'.trim_eq
      exact absurd (htrim.symm.trans htrim') (enclose_ne_reference b)
    | enclosed b' t' =>
      obtain ⟨inner', hinner', htrim'⟩ := h'.trim_eq
      obtain ⟨rfl, rfl⟩ := enclose_inj (htrim.symm.trans htrim')
      rw [ih hinner hinner']

/-! ## Reading -/

theorem read_of_peel_none (hpeel : peel (trim cs) = none) :
    read types cs = readLeaf types (trim cs) := by
  rw [read]
  split
  · rfl
  · next h =>
    rw [hpeel] at h
    cases h

theorem read_of_peel_some (hpeel : peel (trim cs) = some (w, inner)) :
    read types cs = match read types inner with
      | .unknown _ => .unknown (String.ofList (trim cs))
      | shape => w.apply shape := by
  rw [read]
  split
  · next h =>
    rw [hpeel] at h
    cases h
  · next h =>
    rw [hpeel] at h
    cases h
    rfl

theorem readLeaf_of_isPath (h : IsPath cs) : readLeaf types cs = leaf types (String.ofList cs) := by
  unfold readLeaf leaf contextNames errorNames
  simp only [List.contains_iff_mem, isModulePath_iff.2 h, if_true]

theorem isPath_of_readLeaf (h : ∀ text, readLeaf types cs ≠ .unknown text) : IsPath cs := by
  have hname (names : List String) (hnames : names.all (fun n => isModulePath n.toList) = true)
      (hmem : String.ofList cs ∈ names) : IsPath cs := by
    -- the fixed spellings are identifiers
    have hpath := List.all_eq_true.1 hnames _ hmem
    rwa [String.toList_ofList, isModulePath_iff] at hpath
  unfold readLeaf at h
  simp only [List.contains_iff_mem] at h
  by_cases hcontext : String.ofList cs ∈ contextNames
  · exact hname contextNames (by decide) hcontext
  rw [if_neg hcontext] at h
  by_cases herror : String.ofList cs ∈ errorNames
  · exact hname errorNames (by decide) herror
  rw [if_neg herror] at h
  by_cases hpath : isModulePath cs = true
  · exact isModulePath_iff.1 hpath
  · rw [if_neg hpath] at h
    exact absurd rfl (h _)

theorem isKnown_apply (w : Wrapper) (shape : TypeShape) :
    (w.apply shape).IsKnown ↔ shape.IsKnown := by
  cases w <;> rfl

theorem isKnown_denote (types : TypeTable) (t : Tree) : (t.denote types).IsKnown := by
  induction t with
  | path name =>
    unfold Tree.denote leaf lookUp
    split
    · trivial
    split
    · trivial
    split <;> trivial
  | reference t ih => exact ih
  | enclosed b t ih => exact (isKnown_apply _ _).2 ih

theorem read_of_wrapped (hpeel : peel (trim cs) = some (w, inner))
    (hread : read types inner = t.denote types) : read types cs = w.apply (t.denote types) := by
  have hknown := isKnown_denote types t
  rw [read_of_peel_some hpeel, hread]
  split
  · next hunknown =>
    rw [hunknown] at hknown
    exact hknown.elim
  · rfl

/-- What is derived is read as its tree. -/
theorem Derives.read_eq (h : Derives t cs) : read types cs = t.denote types := by
  induction t generalizing cs with
  | path name =>
    obtain ⟨hname, htrim⟩ := h.trim_eq
    have hpeel : peel (trim cs) = none := by
      rw [htrim]
      exact peel_of_isPath hname
    rw [read_of_peel_none hpeel, htrim]
    exact readLeaf_of_isPath hname
  | reference t ih =>
    obtain ⟨inner, hinner, htrim⟩ := h.trim_eq
    exact read_of_wrapped (peel_eq_some_iff.2 (Or.inl ⟨rfl, htrim⟩)) (ih hinner)
  | enclosed b t ih =>
    obtain ⟨inner, hinner, htrim⟩ := h.trim_eq
    exact read_of_wrapped (peel_eq_some_iff.2 (Or.inr ⟨b, rfl, htrim⟩)) (ih hinner)

/-- What is read as something known is derived. -/
theorem exists_derives (h : ∀ text, read types cs ≠ .unknown text) : ∃ t, Derives t cs := by
  induction cs using read.induct types with
  | case1 cs hpeel =>
    rw [read_of_peel_none hpeel] at h
    obtain ⟨lead, trail, hlead, htrail, he⟩ := exists_trim cs
    refine ⟨.path (trim cs), ?_⟩
    have hderives := Derives.path hlead (isPath_of_readLeaf h) htrail
    rwa [← he] at hderives
  | case2 cs w inner hpeel text hread _ =>
    rw [read_of_peel_some hpeel, hread] at h
    exact absurd rfl (h _)
  | case3 cs w inner hpeel hread ih =>
    obtain ⟨t, ht⟩ := ih hread
    obtain ⟨lead, trail, hlead, htrail, he⟩ := exists_trim cs
    rcases peel_eq_some_iff.1 hpeel with ⟨-, htrim⟩ | ⟨b, -, htrim⟩
    · refine ⟨.reference t, ?_⟩
      have hderives := (Derives.reference hlead ht).append htrail
      rwa [← htrim, ← he] at hderives
    · refine ⟨.enclosed b t, ?_⟩
      have hderives := Derives.enclosed b hlead ht htrail
      rwa [← htrim, ← he] at hderives

/-- An unknown shape holds the whole text. -/
theorem text_eq_of_read {text : String} (h : read types cs = .unknown text) :
    text = String.ofList (trim cs) := by
  cases hpeel : peel (trim cs) with
  | none =>
    rw [read_of_peel_none hpeel] at h
    unfold readLeaf lookUp at h
    dsimp only at h
    split at h
    · cases h
    split at h
    · cases h
    split at h
    · split at h <;> cases h
    · exact (TypeShape.unknown.inj h).symm
  | some part =>
    obtain ⟨w, inner⟩ := part
    rw [read_of_peel_some hpeel] at h
    split at h
    · exact (TypeShape.unknown.inj h).symm
    · cases w <;> cases h

/-- **The reader follows the grammar.** A text denotes something known exactly if it can be derived.
Then it has one tree and denotes what this tree does, without any unknown part in it; any other text
denotes an unknown shape that holds the text, trimmed. -/
theorem parse_follows_grammar (types : TypeTable) (expr : String) :
    ((∀ text, parse types expr ≠ .unknown text) ↔ ∃ t, Derives t expr.toList) ∧
      (∀ t, Derives t expr.toList →
        parse types expr = t.denote types ∧ (parse types expr).IsKnown ∧
          ∀ t', Derives t' expr.toList → t' = t) ∧
      ((¬ ∃ t, Derives t expr.toList) → parse types expr = .unknown (trimmed expr)) := by
  have hread : ∀ t, Derives t expr.toList → parse types expr = t.denote types :=
    fun t h => h.read_eq
  have hknown : ∀ t, Derives t expr.toList → (parse types expr).IsKnown := by
    intro t h
    rw [hread t h]
    exact isKnown_denote types t
  refine ⟨⟨exists_derives, ?_⟩, ?_, ?_⟩
  · rintro ⟨t, h⟩ text hunknown
    have := hknown t h
    rwa [hunknown] at this
  · exact fun t h => ⟨hread t h, hknown t h, fun t' h' => h'.tree_unique h⟩
  · intro hnone
    by_cases hunknown : ∃ text, parse types expr = .unknown text
    · obtain ⟨text, he⟩ := hunknown
      rw [he, text_eq_of_read he, trimmed]
    · exact absurd (exists_derives (not_exists.1 hunknown)) hnone

example : parse ∅ " Vec< &ctx >" = .list (.ref .context) := by decide +kernel

example : parse ∅ " Vec<[&]> " = .unknown "Vec<[&]>" := by decide +kernel

end TypeExpr

end Orchestration
