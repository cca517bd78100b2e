import Orchestration.Generation.Artifact
import Orchestration.Proofs.Text.Segments
import Mathlib.Data.List.Infix

/-!
# Taking paths apart and putting them together

The pieces of a path and the text they make are the same thing said twice. A name that is put behind a
directory is the last step of the path, and the directory that the path then lies in is the one the
name was put behind, without the slashes and dots that stood at its end.
-/

namespace Orchestration

theorem Text.split_append_slash (s t : String) :
    split '/' (s ++ "/" ++ t) = split '/' s ++ split '/' t :=
  split_append rfl s t

namespace Path

variable {rooted : Bool} {back before : List String} {s name : String} {p q dir : Path}

/-! ## Pieces of a path -/

theorem split_of_isRooted (h : p.isRooted = true) :
    Text.split '/' p.text = "" :: (Text.split '/' p.text).tail := by
  unfold isRooted at h
  rw [decide_eq_true_eq] at h
  cases hs : p.text.toList with
  | nil =>
    rw [hs] at h
    cases h
  | cons c cs =>
    rw [hs] at h
    cases h
    rw [Text.split, hs, Text.segments, if_pos rfl]
    rfl

theorem pieces_of_isRooted (h : p.isRooted = true) : Text.split '/' p.text = "" :: p.pieces := by
  rw [split_of_isRooted h, pieces, if_pos h]

theorem pieces_of_not_isRooted (h : p.isRooted = false) : p.pieces = Text.split '/' p.text := by
  rw [pieces, h, if_neg Bool.false_ne_true]

/-- The steps of a path are its pieces that are not empty. -/
theorem steps_eq (p : Path) : p.steps = p.pieces.filter fun s => s ≠ "" := by
  cases h : p.isRooted with
  | true => simp [steps, pieces_of_isRooted h]
  | false => rw [steps, pieces_of_not_isRooted h]

theorem notMem_of_mem_pieces (h : s ∈ p.pieces) : '/' ∉ s.toList := by
  apply Text.notMem_of_mem_split (t := p.text)
  cases hrooted : p.isRooted with
  | true =>
    rw [pieces_of_isRooted hrooted]
    exact List.mem_cons_of_mem _ h
  | false => rwa [← pieces_of_not_isRooted hrooted]

/-- Pieces, the last one first, that are those of a path. -/
structure Clean (rooted : Bool) (back : List String) : Prop where
  slashless : ∀ s ∈ back, '/' ∉ s.toList
  /-- A path that does not start at the root starts with a step, unless it is empty. -/
  started : rooted = false → back.getLast? = some "" → back = [""]

theorem clean_pieces (p : Path) : Clean p.isRooted p.pieces.reverse := by
  constructor
  case slashless => exact fun s hs => notMem_of_mem_pieces (List.mem_reverse.1 hs)
  case started =>
    intro h hfirst
    rw [List.getLast?_reverse] at hfirst
    have hsplit := pieces_of_not_isRooted h
    -- A text whose first piece is empty starts with a slash or is empty.
    cases hs : p.text.toList with
    | nil => rw [hsplit, Text.split, hs]; rfl
    | cons c cs =>
      have hc : c ≠ '/' := by
        rintro rfl
        simp [isRooted, hs] at h
      rw [hsplit, Text.split, hs, Text.segments, if_neg hc] at hfirst
      cases hrest : Text.segments '/' cs with
      | nil => exact absurd hrest (Text.segments_ne_nil '/' cs)
      | cons first rest => simp [hrest] at hfirst

theorem Clean.of_suffix (h : Clean rooted back) (hsuffix : before <:+ back) :
    Clean rooted before := by
  constructor
  case slashless => exact fun s hs => h.slashless s (hsuffix.subset hs)
  case started =>
    intro hrooted hlast
    obtain ⟨front, rfl⟩ := hsuffix
    have hne : before ≠ [] := by
      rintro rfl
      cases hlast
    have hlast' : (front ++ before).getLast? = some "" := by
      rw [List.getLast?_append_of_ne_nil _ hne, hlast]
    have hall := h.started hrooted hlast'
    cases front with
    | nil => exact hall
    | cons x front =>
      rw [List.cons_append] at hall
      obtain ⟨-, hnil⟩ := List.cons_eq_cons.1 hall
      exact absurd (List.append_eq_nil_iff.1 hnil).2 hne

theorem isRooted_ofPieces (h : Clean rooted back) : (ofPieces rooted back).isRooted = rooted := by
  cases rooted with
  | true => simp [isRooted, ofPieces]
  | false =>
    have htext : (ofPieces false back).text = "/".intercalate back.reverse := by
      simp [ofPieces]
    rw [isRooted, htext, decide_eq_false_iff_not]
    intro hhead
    cases hpieces : back.reverse with
    | nil =>
      rw [hpieces] at hhead
      cases hhead
    | cons s rest =>
      have hs : '/' ∉ s.toList := by
        apply h.slashless s
        rw [← List.mem_reverse, hpieces]
        exact List.mem_cons_self ..
      have hlast : back.getLast? = some s := by
        rw [← List.head?_reverse, hpieces]
        rfl
      cases hchars : s.toList with
      | nil =>
        obtain rfl := String.toList_eq_nil_iff.1 hchars
        rw [h.started rfl hlast] at hhead
        cases hhead
      | cons c cs =>
        rw [hpieces] at hhead
        have hc : (("/".intercalate (s :: rest)).toList).head? = some c := by
          cases rest with
          | nil => rw [String.intercalate_singleton, hchars]; rfl
          | cons t rest => rw [String.intercalate_cons_cons]; simp [hchars]
        rw [hc] at hhead
        cases hhead
        exact hs (hchars ▸ List.mem_cons_self ..)

theorem text_ofPieces_cons (rooted : Bool) (s : String) (before : List String) :
    (ofPieces rooted (s :: before)).text =
      (if before = [] then (if rooted then "/" else "")
        else (ofPieces rooted before).text ++ "/") ++ s := by
  unfold ofPieces
  dsimp only
  rw [List.reverse_cons]
  by_cases hbefore : before = []
  · rw [if_pos hbefore, hbefore, List.reverse_nil, List.nil_append, String.intercalate_singleton]
  · have hne : before.reverse ≠ [] := fun h => hbefore (List.reverse_eq_nil_iff.1 h)
    rw [if_neg hbefore, String.intercalate_append_of_ne_nil hne (List.cons_ne_nil s []),
      String.intercalate_singleton]
    simp only [String.append_assoc]

theorem text_ofPieces_ne_empty (hstep : isStep rooted s before = true) :
    (ofPieces rooted (s :: before)).text ≠ "" := by
  have hs : s ≠ "" := by
    rintro rfl
    simp [isStep] at hstep
  rw [text_ofPieces_cons]
  intro h
  have hlist := congrArg String.toList h
  rw [String.toList_append] at hlist
  exact hs (String.toList_eq_nil_iff.1 (List.append_eq_nil_iff.1 hlist).2)

theorem pieces_ofPieces (h : Clean rooted back) (hne : back ≠ []) :
    (ofPieces rooted back).pieces = back.reverse := by
  have hne' : back.reverse ≠ [] := fun hnil => hne (List.reverse_eq_nil_iff.1 hnil)
  have hsplit : Text.split '/' ("/".intercalate back.reverse) = back.reverse :=
    Text.split_intercalate rfl hne' fun s hs => h.slashless s (List.mem_reverse.1 hs)
  have hrooted := isRooted_ofPieces h
  cases rooted with
  | true =>
    have htext : (ofPieces true back).text = "" ++ "/" ++ "/".intercalate back.reverse := by
      simp [ofPieces]
    rw [pieces, hrooted, if_pos rfl, htext, Text.split_append_slash, hsplit]
    rfl
  | false =>
    have htext : (ofPieces false back).text = "/".intercalate back.reverse := by
      simp [ofPieces]
    rw [pieces_of_not_isRooted hrooted, htext, hsplit]

/-! ## Directories above -/

/-- A path with the last of its pieces removed again and again, but for those that say nothing. -/
def chain (rooted : Bool) : List String → List Path
  | [] => [ofPieces rooted []]
  | s :: before =>
    if isStep rooted s before then ofPieces rooted (s :: before) :: chain rooted before
    else chain rooted before

theorem chain_eq (rooted : Bool) (back : List String) :
    chain rooted back = ofPieces rooted (dropIdle rooted back) :: above rooted back := by
  induction back with
  | nil => rfl
  | cons s before ih =>
    rw [chain, dropIdle, above]
    by_cases hs : isStep rooted s before = true
    · rw [if_pos hs, if_pos hs, if_pos hs, ih]
    · rw [if_neg hs, if_neg hs, if_neg hs, ih]

theorem dropIdle_suffix (rooted : Bool) (back : List String) : dropIdle rooted back <:+ back := by
  induction back with
  | nil => exact List.suffix_rfl
  | cons s before ih =>
    rw [dropIdle]
    by_cases hs : isStep rooted s before = true
    · rw [if_pos hs]
    · rw [if_neg hs]
      exact ih.trans (List.suffix_cons s before)

theorem suffix_dropIdle (h : s :: before <:+ back) (hstep : isStep rooted s before = true) :
    s :: before <:+ dropIdle rooted back := by
  induction back with
  | nil => exact absurd (List.suffix_nil.1 h) (List.cons_ne_nil s before)
  | cons x rest ih =>
    rw [dropIdle]
    by_cases hx : isStep rooted x rest = true
    · rw [if_pos hx]
      exact h
    · rw [if_neg hx]
      rcases List.suffix_cons_iff.1 h with heq | hrest
      · obtain ⟨rfl, rfl⟩ := List.cons_eq_cons.1 heq
        exact absurd hstep hx
      · exact ih hrest

theorem above_dropIdle (rooted : Bool) (back : List String) :
    above rooted (dropIdle rooted back) = above rooted back := by
  induction back with
  | nil => rfl
  | cons s before ih =>
    rw [dropIdle, above]
    by_cases hs : isStep rooted s before = true
    · rw [if_pos hs, if_pos hs, above, if_pos hs]
    · rw [if_neg hs, if_neg hs, ih]

/-- The path without the slashes and dots at its end. -/
def bare (p : Path) : Path :=
  ofPieces p.isRooted (dropIdle p.isRooted p.pieces.reverse)

theorem clean_bare (p : Path) :
    Clean p.isRooted (dropIdle p.isRooted p.pieces.reverse) :=
  (clean_pieces p).of_suffix (dropIdle_suffix _ _)

theorem isRooted_bare (p : Path) : p.bare.isRooted = p.isRooted :=
  isRooted_ofPieces (clean_bare p)

theorem ancestors_ofPieces (h : Clean rooted back) :
    (ofPieces rooted back).ancestors = above rooted back := by
  rw [ancestors, isRooted_ofPieces h]
  by_cases hne : back = []
  · subst hne
    cases rooted <;> rfl
  · rw [pieces_ofPieces h hne, List.reverse_reverse]

/-- The directories above a bare path go on where the path itself stands. -/
theorem bare_ancestors (p : Path) :
    p.bare :: p.bare.ancestors = chain p.isRooted p.pieces.reverse := by
  rw [chain_eq, bare, ancestors_ofPieces (clean_bare p), above_dropIdle]

theorem cons_ancestors_of_head? {dir : Path} (h : Clean rooted back)
    (hdir : (above rooted back).head? = some dir) :
    dir :: dir.ancestors = above rooted back := by
  induction back with
  | nil => cases hdir
  | cons s before ih =>
    have hbefore := h.of_suffix (List.suffix_cons s before)
    rw [above] at hdir ⊢
    by_cases hs : isStep rooted s before = true
    · rw [if_pos hs] at hdir ⊢
      obtain rfl := Option.some.inj hdir
      rw [ancestors_ofPieces (hbefore.of_suffix (dropIdle_suffix rooted before)), above_dropIdle]
    · rw [if_neg hs] at hdir ⊢
      exact ih hbefore hdir

/-- The directories above a path are the one that it lies in and those above that. -/
theorem cons_ancestors_of_parent? {dir : Path} (h : p.parent? = some dir) :
    dir :: dir.ancestors = p.ancestors :=
  cons_ancestors_of_head? (clean_pieces p) h

/-! ## A name behind a directory -/

theorem isRooted_of_notMem {text : String} (h : '/' ∉ text.toList) :
    (⟨text⟩ : Path).isRooted = false := by
  rw [isRooted, decide_eq_false_iff_not]
  intro hhead
  exact h (List.mem_of_mem_head? hhead)

theorem isRooted_append {text more : String} (h : text ≠ "") :
    (⟨text ++ more⟩ : Path).isRooted = (⟨text⟩ : Path).isRooted := by
  have hne : text.toList ≠ [] := fun hnil => h (String.toList_eq_nil_iff.1 hnil)
  unfold isRooted
  rw [String.toList_append, List.head?_append_of_ne_nil _ hne]

/-- What is put behind a path ends its text. -/
theorem getLast?_text_join {more : String} {c : Char} (p : Path) (h : more.toList.getLast? = some c) :
    (p.join more).text.toList.getLast? = some c := by
  have hne : more.toList ≠ [] := by
    intro hnil
    rw [hnil] at h
    cases h
  unfold join
  split
  · exact h
  · split
    · rw [String.toList_append, List.getLast?_append_of_ne_nil _ hne, h]
    · rw [String.toList_append, List.getLast?_append_of_ne_nil _ hne, h]

/-- The last step of a path ends as its text does. -/
theorem getLast?_steps {c : Char} (h : p.text.toList.getLast? = some c) (hc : c ≠ '/') :
    ∃ s, p.steps.getLast? = some s ∧ s.toList.getLast? = some c := by
  obtain ⟨last, hlast, hends⟩ := Text.getLast?_segments h hc
  have hsplit : (Text.split '/' p.text).getLast? = some (String.ofList last) := by
    rw [Text.split, List.getLast?_map, hlast, Option.map_some]
  have hne : String.ofList last ≠ "" := by
    intro heq
    have hnil := congrArg String.toList heq
    rw [String.toList_ofList] at hnil
    rw [hnil] at hends
    cases hends
  refine ⟨String.ofList last, ?_, by rwa [String.toList_ofList]⟩
  rw [steps, ← List.dropLast_append_getLast? _ hsplit, List.filter_append]
  simp [hne]

/-- The text of a name behind a directory: a slash is added unless there is one or the directory is
empty. -/
theorem join_cases (hslash : '/' ∉ name.toList) (dir : Path) :
    (dir.text = "" ∧ (dir.join name).text = name) ∨
    (∃ text, dir.text = text ++ "/" ∧ (dir.join name).text = text ++ "/" ++ name) ∨
    (dir.text ≠ "" ∧ (dir.join name).text = dir.text ++ "/" ++ name) := by
  have hhead : name.toList.head? ≠ some '/' := fun hhead => hslash (List.mem_of_mem_head? hhead)
  by_cases hempty : dir.text = ""
  · left
    refine ⟨hempty, ?_⟩
    simp [join, hhead, hempty]
  · by_cases hlast : dir.text.toList.getLast? = some '/'
    · right
      left
      obtain ⟨front, hfront⟩ := List.getLast?_eq_some_iff.1 hlast
      have htext : dir.text = String.ofList front ++ "/" := by
        rw [← String.toList_inj, hfront]
        simp
      refine ⟨String.ofList front, htext, ?_⟩
      rw [← htext]
      simp [join, hhead, hlast]
    · right
      right
      refine ⟨hempty, ?_⟩
      simp [join, hhead, hempty, hlast]

theorem pieces_append_slash {text t : String} (p q : Path) (hp : p.text = text ++ "/" ++ t)
    (hq : q.text = text ++ "/" ++ s) :
    ∃ front, p.pieces = front ++ Text.split '/' t ∧ q.pieces = front ++ Text.split '/' s ∧
      p.isRooted = q.isRooted := by
  have hne : text ++ "/" ≠ "" := by
    intro h
    have hlist := congrArg String.toList h
    simp at hlist
  have hrooted : p.isRooted = q.isRooted := by
    have hp' : p = ⟨text ++ "/" ++ t⟩ := congrArg Path.mk hp
    have hq' : q = ⟨text ++ "/" ++ s⟩ := congrArg Path.mk hq
    rw [hp', hq', isRooted_append hne, isRooted_append hne]
  have hsplit := Text.split_ne_nil '/' text
  cases hr : q.isRooted with
  | true =>
    refine ⟨(Text.split '/' text).tail, ?_, ?_, hrooted.trans hr⟩
    · rw [pieces, hrooted, hr, if_pos rfl, hp, Text.split_append_slash,
        List.tail_append_of_ne_nil hsplit]
    · rw [pieces, hr, if_pos rfl, hq, Text.split_append_slash, List.tail_append_of_ne_nil hsplit]
  | false =>
    refine ⟨Text.split '/' text, ?_, ?_, hrooted.trans hr⟩
    · rw [pieces_of_not_isRooted (hrooted.trans hr), hp, Text.split_append_slash]
    · rw [pieces_of_not_isRooted hr, hq, Text.split_append_slash]

/-- A name behind a directory is the last piece. The pieces before it are those of the directory,
without an empty one at the end. -/
theorem pieces_join (hslash : '/' ∉ name.toList) (dir : Path) :
    (dir.join name).isRooted = dir.isRooted ∧
    ∃ before, (dir.join name).pieces.reverse = name :: before ∧
      (dir.pieces.reverse = before ∨ dir.pieces.reverse = "" :: before) := by
  have hsplit := Text.split_of_notMem hslash
  have hnothing : Text.split '/' "" = [""] := rfl
  rcases join_cases hslash dir with ⟨hdir, htext⟩ | ⟨text, hdir, htext⟩ | ⟨hdir, htext⟩
  · have hrooted : (dir.join name).isRooted = false := by
      have hjoin : dir.join name = ⟨name⟩ := congrArg Path.mk htext
      rw [hjoin, isRooted_of_notMem hslash]
    have hrooted' : dir.isRooted = false := by simp [isRooted, hdir]
    refine ⟨hrooted.trans hrooted'.symm, [], ?_, Or.inr ?_⟩
    · rw [pieces_of_not_isRooted hrooted, htext, hsplit]
      rfl
    · rw [pieces_of_not_isRooted hrooted', hdir, hnothing]
      rfl
  · have hdir' : dir.text = text ++ "/" ++ "" := by rw [hdir, String.append_empty]
    obtain ⟨front, hp, hq, hrooted⟩ := pieces_append_slash (dir.join name) dir htext hdir'
    refine ⟨hrooted, front.reverse, ?_, Or.inr ?_⟩
    · rw [hp, hsplit, List.reverse_append, List.reverse_singleton]
      rfl
    · rw [hq, hnothing, List.reverse_append, List.reverse_singleton]
      rfl
  · have hrooted : (dir.join name).isRooted = dir.isRooted := by
      have hjoin : dir.join name = ⟨dir.text ++ ("/" ++ name)⟩ := by
        rw [← String.append_assoc]
        exact congrArg Path.mk htext
      rw [hjoin, isRooted_append hdir]
    refine ⟨hrooted, dir.pieces.reverse, ?_, Or.inl rfl⟩
    cases hr : dir.isRooted with
    | true =>
      have hne := Text.split_ne_nil '/' dir.text
      rw [pieces, hrooted, hr, if_pos rfl, htext, Text.split_append_slash, hsplit,
        List.tail_append_of_ne_nil hne, List.reverse_append, List.reverse_singleton, pieces, hr,
        if_pos rfl]
      rfl
    | false =>
      rw [pieces_of_not_isRooted (hrooted.trans hr), htext, Text.split_append_slash, hsplit,
        List.reverse_append, List.reverse_singleton, pieces_of_not_isRooted hr]
      rfl

/-- A name that is a step of a path of its own. -/
structure IsName (name : String) : Prop where
  nonempty : name ≠ ""
  slashless : '/' ∉ name.toList
  not_here : name ≠ "."
  not_up : name ≠ ".."

/-- A text without slashes that does not end in a dot is a name. -/
theorem IsName.of_getLast? {name : String} {c : Char} (hslash : '/' ∉ name.toList)
    (hlast : name.toList.getLast? = some c) (hdot : c ≠ '.') : IsName name := by
  have hends : ∀ other : String, other.toList.getLast? ≠ some c → name ≠ other := by
    rintro other hother rfl
    exact hother hlast
  refine ⟨hends "" ?_, hslash, hends "." ?_, hends ".." ?_⟩
  · exact fun heq => nomatch heq
  · exact fun heq => hdot (Option.some.inj heq).symm
  · exact fun heq => hdot (Option.some.inj heq).symm

theorem IsName.append_tmp {name : String} (h : IsName name) : IsName (name ++ ".tmp") := by
  have hslash : '/' ∉ (name ++ ".tmp").toList := by simpa using h.slashless
  exact IsName.of_getLast? hslash (by simp : _ = some 'p') (by decide)

/-- What is put behind a directory without a slash is its last step. -/
theorem steps_join_of_slashless (hne : name ≠ "") (hslash : '/' ∉ name.toList) (dir : Path) :
    (dir.join name).steps = dir.steps ++ [name] := by
  obtain ⟨-, before, hjoin, hdir⟩ := pieces_join hslash dir
  have hpieces : (dir.join name).pieces = before.reverse ++ [name] := by
    rw [← List.reverse_reverse (dir.join name).pieces, hjoin, List.reverse_cons]
  rw [steps_eq, steps_eq, hpieces, List.filter_append]
  rcases hdir with hdir | hdir
  · have hbefore : dir.pieces = before.reverse := by rw [← hdir, List.reverse_reverse]
    rw [hbefore]
    simp [hne]
  · have hbefore : dir.pieces = before.reverse ++ [""] := by
      rw [← List.reverse_reverse dir.pieces, hdir, List.reverse_cons]
    rw [hbefore]
    simp [hne]

theorem steps_join (hname : IsName name) (dir : Path) :
    (dir.join name).steps = dir.steps ++ [name] :=
  steps_join_of_slashless hname.nonempty hname.slashless dir

theorem endsInSlash_join (hname : IsName name) (dir : Path) :
    (dir.join name).endsInSlash = false := by
  have hne : name.toList ≠ [] := fun hnil => hname.nonempty (String.toList_eq_nil_iff.1 hnil)
  obtain ⟨front, c, hname'⟩ := (List.eq_nil_or_concat' name.toList).resolve_left hne
  have hlast : name.toList.getLast? = some c := by rw [hname', List.getLast?_concat]
  rw [endsInSlash, getLast?_text_join dir hlast, decide_eq_false_iff_not]
  intro h
  exact hname.slashless (List.mem_of_getLast? (hlast.trans h))

theorem ancestors_join (hname : IsName name) (dir : Path) :
    (dir.join name).ancestors = chain dir.isRooted dir.pieces.reverse := by
  obtain ⟨hrooted, before, hjoin, hdir⟩ := pieces_join hname.slashless dir
  have hstep : isStep dir.isRooted name before = true := by
    simp [isStep, hname.nonempty, hname.not_here]
  have hchain : chain dir.isRooted dir.pieces.reverse = chain dir.isRooted before := by
    rcases hdir with hdir | hdir
    · rw [hdir]
    · rw [hdir, chain, if_neg (by simp [isStep])]
  rw [ancestors, hrooted, hjoin, above, if_pos hstep, hchain, chain_eq]

/-- A name behind a directory lies in this directory. -/
theorem parent?_join (hname : IsName name) (dir : Path) : (dir.join name).parent? = some dir.bare := by
  rw [parent?, ancestors_join hname, chain_eq]
  rfl

theorem fileName?_join (hname : IsName name) (dir : Path) : (dir.join name).fileName? = some name := by
  obtain ⟨-, before, hjoin, -⟩ := pieces_join hname.slashless dir
  have hpieces : (dir.join name).pieces = before.reverse ++ [name] := by
    rw [← List.reverse_reverse (dir.join name).pieces, hjoin, List.reverse_cons]
  have hparts : ∀ front, (partsOf (front ++ [name])).getLast? = some (.name name) := by
    intro front
    simp [partsOf, List.filter_append, hname.nonempty, hname.not_here, hname.not_up]
  have hlast : (dir.join name).parts.getLast? = some (.name name) := by
    have hcons : ∀ (part : Part) front,
        (part :: partsOf (front ++ [name])).getLast? = some (.name name) := by
      intro part front
      rw [List.getLast?_cons, hparts, Option.getD_some]
    unfold parts
    rw [hpieces]
    split
    · exact hcons .root _
    · split
      · rename_i rest heq
        cases hfront : before.reverse with
        | nil =>
          rw [hfront, List.nil_append, List.cons_eq_cons] at heq
          exact absurd heq.1 hname.not_here
        | cons first front =>
          rw [hfront, List.cons_append, List.cons_eq_cons] at heq
          rw [← heq.2]
          exact hcons .here front
      · exact hparts _
  rw [fileName?, hlast]

/-- The text of a draft's path ends in that of the draft's extension. -/
theorem getLast?_text_draft (p : Path) : p.draft.text.toList.getLast? = some 'p' := by
  unfold draft withFileName
  split
  · exact getLast?_text_join _ (by simp)
  · exact getLast?_text_join _ (by simp)

/-- The draft of a file lies beside it. -/
theorem draft_join (hname : IsName name) (dir : Path) :
    (dir.join name).draft = dir.bare.join (name ++ ".tmp") := by
  simp only [draft, withFileName, fileName?_join hname, parent?_join hname, Option.getD_some]

/-- A path without a part that goes up has no double dot in it. -/
theorem notMem_pieces_of_parts (h : Part.up ∉ p.parts) : ".." ∉ p.pieces := by
  have hup : ∀ ps : List String, ".." ∈ ps → Part.up ∈ partsOf ps := by
    intro ps hps
    exact List.mem_map.2 ⟨"..", List.mem_filter.2 ⟨hps, rfl⟩, rfl⟩
  intro hmem
  refine h ?_
  unfold parts
  split
  · exact List.mem_cons_of_mem _ (hup _ hmem)
  · split
    · rename_i rest hpieces
      rw [hpieces] at hmem
      rcases List.mem_cons.mp hmem with heq | hmem
      · exact absurd heq (by decide)
      · exact List.mem_cons_of_mem _ (hup rest hmem)
    · exact hup _ hmem

/-! ## Names that a path leads through -/

/-- The names among pieces that come last one first. -/
def namesOf (back : List String) : List String :=
  (back.filter fun s => s ≠ "" && s ≠ ".").reverse

/-- The names that a path leads through, if it never goes up. -/
def names (p : Path) : List String :=
  p.steps.filter fun s => s ≠ "."

theorem notMem_names_of_parts (h : Part.up ∉ p.parts) : ".." ∉ p.names := by
  intro hmem
  rw [names, steps_eq] at hmem
  exact notMem_pieces_of_parts h (List.mem_of_mem_filter (List.mem_of_mem_filter hmem))

theorem names_eq (p : Path) : p.names = namesOf p.pieces.reverse := by
  rw [names, steps_eq, List.filter_filter, namesOf, List.filter_reverse, List.reverse_reverse]
  simp only [Bool.and_comm]

theorem steps_ofPieces (h : Clean rooted (s :: before)) (hs : s ≠ "") :
    (ofPieces rooted (s :: before)).steps = (before.reverse.filter fun s => s ≠ "") ++ [s] := by
  rw [steps_eq, pieces_ofPieces h (List.cons_ne_nil s before), List.reverse_cons,
    List.filter_append]
  simp [hs]

theorem namesOf_cons (hs : IsName s) (before : List String) :
    namesOf (s :: before) = namesOf before ++ [s] := by
  simp [namesOf, hs.nonempty, hs.not_here]

theorem namesOf_of_idle (hs : s = "" ∨ s = ".") (before : List String) :
    namesOf (s :: before) = namesOf before := by
  rcases hs with rfl | rfl <;> simp [namesOf]

theorem filter_steps (before : List String) :
    (before.reverse.filter fun s => s ≠ "").filter (fun s => s ≠ ".") = namesOf before := by
  rw [List.filter_filter, namesOf, List.filter_reverse]
  simp only [Bool.and_comm]

/-- A piece that is no step says nothing. -/
theorem idle_of_not_isStep (h : isStep rooted s before = false) : s = "" ∨ s = "." := by
  by_contra hnot
  rw [not_or] at hnot
  simp [isStep, hnot] at h

theorem namesOf_dropIdle (rooted : Bool) (back : List String) :
    namesOf (dropIdle rooted back) = namesOf back := by
  induction back with
  | nil => rfl
  | cons s before ih =>
    rw [dropIdle]
    cases hs : isStep rooted s before with
    | true => rw [if_pos rfl]
    | false => rw [if_neg Bool.false_ne_true, ih, namesOf_of_idle (idle_of_not_isStep hs)]

theorem names_ofPieces (h : Clean rooted back) : (ofPieces rooted back).names = namesOf back := by
  rw [names_eq]
  by_cases hne : back = []
  · subst hne
    cases rooted <;> rfl
  · rw [pieces_ofPieces h hne, List.reverse_reverse]

/-- A path leads where it leads without the slashes and dots at its end. -/
theorem names_bare (p : Path) : p.bare.names = p.names := by
  rw [bare, names_ofPieces (clean_bare p), namesOf_dropIdle, names_eq]

theorem namesOf_prefix (h : before <:+ back) : namesOf before <+: namesOf back := by
  unfold namesOf
  rw [List.reverse_prefix]
  exact h.filter _

/-- The directories above pieces are made of fewer of them. -/
theorem exists_suffix_of_mem_above (h : q ∈ above rooted back) :
    ∃ before, before <:+ back ∧ q = ofPieces rooted (dropIdle rooted before) := by
  induction back with
  | nil => exact absurd h List.not_mem_nil
  | cons s rest ih =>
    rw [above] at h
    have hrest : q ∈ above rooted rest →
        ∃ before, before <:+ s :: rest ∧ q = ofPieces rooted (dropIdle rooted before) := by
      intro hq
      obtain ⟨before, hsuffix, heq⟩ := ih hq
      exact ⟨before, hsuffix.trans (List.suffix_cons s rest), heq⟩
    by_cases hs : isStep rooted s rest = true
    · rw [if_pos hs] at h
      rcases List.mem_cons.1 h with rfl | hq
      · exact ⟨rest, List.suffix_cons s rest, rfl⟩
      · exact hrest hq
    · rw [if_neg hs] at h
      exact hrest h

/-- A directory above a path leads through the first of the names that the path leads through. -/
theorem names_of_mem_ancestors (h : q ∈ p.ancestors) :
    q.isRooted = p.isRooted ∧ q.names <+: p.names := by
  obtain ⟨before, hsuffix, rfl⟩ := exists_suffix_of_mem_above h
  have hclean := (clean_pieces p).of_suffix ((dropIdle_suffix p.isRooted before).trans hsuffix)
  refine ⟨isRooted_ofPieces hclean, ?_⟩
  rw [names_ofPieces hclean, namesOf_dropIdle, names_eq]
  exact namesOf_prefix hsuffix

/-! ## Paths that end in a name -/

theorem getLast?_names_of_fileName? (h : p.fileName? = some s) :
    p.names.getLast? = some s ∧ s ≠ ".." := by
  have hparts : ∀ ps : List String, (partsOf ps).getLast? = some (.name s) →
      (ps.filter fun s => s ≠ "" && s ≠ ".").getLast? = some s ∧ s ≠ ".." := by
    intro ps hlast
    rw [partsOf, List.getLast?_map] at hlast
    obtain ⟨x, hx, hpart⟩ := Option.map_eq_some_iff.1 hlast
    by_cases hup : x = ".."
    · rw [if_pos hup] at hpart
      cases hpart
    · rw [if_neg hup] at hpart
      cases hpart
      exact ⟨hx, hup⟩
  have hlast : p.parts.getLast? = some (.name s) := by
    unfold fileName? at h
    split at h
    · rename_i s' hs'
      cases h
      exact hs'
    · cases h
  have hcons : ∀ (part : Part) (rest : List Part), part ≠ .name s →
      (part :: rest).getLast? = some (.name s) → rest.getLast? = some (.name s) := by
    intro part rest hpart hlast
    cases rest with
    | nil => exact absurd (Option.some.inj hlast) hpart
    | cons x more => rwa [List.getLast?_cons_cons] at hlast
  rw [names_eq, namesOf, List.filter_reverse, List.reverse_reverse]
  unfold parts at hlast
  split at hlast
  · exact hparts _ (hcons .root _ (fun heq => nomatch heq) hlast)
  · split at hlast
    · rename_i rest hpieces
      rw [hpieces]
      simpa using hparts rest (hcons .here _ (fun heq => nomatch heq) hlast)
    · exact hparts _ hlast

/-- The last name among pieces is their last step, unless a step without a name follows. -/
theorem dropIdle_of_getLast?_namesOf (rooted : Bool) (h : (namesOf back).getLast? = some s) :
    ∃ before, dropIdle rooted back = s :: before ∧ s ≠ "" ∧ s ≠ "." := by
  unfold namesOf at h
  rw [List.getLast?_reverse] at h
  induction back with
  | nil => cases h
  | cons x rest ih =>
    by_cases hx : x = "" ∨ x = "."
    · have hrest : (rest.filter fun s => s ≠ "" && s ≠ ".").head? = some s := by
        rcases hx with rfl | rfl <;> simpa using h
      have hne : rest ≠ [] := by
        rintro rfl
        cases hrest
      have hidle : isStep rooted x rest = false := by
        rcases hx with rfl | rfl <;> simp [isStep, hne]
      rw [dropIdle, hidle, if_neg Bool.false_ne_true]
      exact ih hrest
    · rw [not_or] at hx
      have hstep : isStep rooted x rest = true := by simp [isStep, hx]
      rw [List.filter_cons, if_pos (by simp [hx])] at h
      obtain rfl := Option.some.inj h
      exact ⟨rest, by rw [dropIdle, if_pos hstep], hx⟩

/-- A path whose last step is a name in a directory. -/
structure EndsIn (p dir : Path) (name : String) : Prop where
  fileName : p.fileName? = some name
  isName : IsName name
  parent : p.parent? = some dir
  rooted : dir.isRooted = p.isRooted
  names : p.names = dir.names ++ [name]

theorem exists_endsIn (h : p.fileName? = some name) : ∃ dir, EndsIn p dir name := by
  obtain ⟨hlast, hup⟩ := getLast?_names_of_fileName? h
  rw [names_eq] at hlast
  obtain ⟨before, hdrop, hne, hhere⟩ := dropIdle_of_getLast?_namesOf p.isRooted hlast
  have hclean := clean_bare p
  have habove := above_dropIdle p.isRooted p.pieces.reverse
  have hnames := namesOf_dropIdle p.isRooted p.pieces.reverse
  rw [hdrop] at hclean habove hnames
  have hname : IsName name := ⟨hne, hclean.slashless name (List.mem_cons_self ..), hhere, hup⟩
  have hstep : isStep p.isRooted name before = true := by simp [isStep, hne, hhere]
  have hbefore := (hclean.of_suffix (List.suffix_cons name before)).of_suffix
    (dropIdle_suffix p.isRooted before)
  refine ⟨ofPieces p.isRooted (dropIdle p.isRooted before), h, hname, ?_,
    isRooted_ofPieces hbefore, ?_⟩
  · rw [parent?, ancestors, ← habove, above, if_pos hstep]
    rfl
  · rw [names_ofPieces hbefore, namesOf_dropIdle, names_eq, ← hnames, namesOf_cons hname]

theorem names_join (hname : IsName name) (dir : Path) : (dir.join name).names = dir.names ++ [name] := by
  rw [names, steps_join hname, List.filter_append]
  simp [names, hname.not_here]

namespace EndsIn

variable {dir : Path}

theorem draft_eq (h : EndsIn p dir name) : p.draft = dir.join (name ++ ".tmp") := by
  rw [draft, withFileName, h.fileName, h.parent, Option.getD_some]

theorem isRooted_draft (h : EndsIn p dir name) : p.draft.isRooted = p.isRooted := by
  rw [h.draft_eq, (pieces_join h.isName.append_tmp.slashless dir).1, h.rooted]

theorem names_draft (h : EndsIn p dir name) : p.draft.names = dir.names ++ [name ++ ".tmp"] := by
  rw [h.draft_eq, names_join h.isName.append_tmp]

/-- The directories above the path lead through fewer names. -/
theorem names_of_mem_ancestors (h : EndsIn p dir name) (hq : q ∈ p.ancestors) :
    q.isRooted = dir.isRooted ∧ q.names <+: dir.names := by
  rw [← cons_ancestors_of_parent? h.parent] at hq
  rcases List.mem_cons.1 hq with rfl | hq
  · exact ⟨rfl, List.prefix_refl _⟩
  · exact Path.names_of_mem_ancestors hq

end EndsIn

/-! ## Faults -/

theorem text_prefix_ofPieces (rooted : Bool) (h : before <:+ back) :
    (ofPieces rooted before).text.toList <+: (ofPieces rooted back).text.toList := by
  obtain ⟨front, rfl⟩ := h
  induction front with
  | nil => exact List.prefix_refl _
  | cons s front ih =>
    refine ih.trans ?_
    rw [List.cons_append, text_ofPieces_cons, String.toList_append]
    by_cases hnil : front ++ before = []
    · rw [if_pos hnil, hnil]
      refine List.IsPrefix.trans ?_ (List.prefix_append _ _)
      cases rooted <;> exact List.prefix_refl _
    · rw [if_neg hnil, String.toList_append, List.append_assoc]
      exact List.prefix_append _ _

theorem ofPieces_pieces (p : Path) : ofPieces p.isRooted p.pieces.reverse = p := by
  have htext : (ofPieces p.isRooted p.pieces.reverse).text = p.text := by
    unfold ofPieces
    dsimp only
    rw [List.reverse_reverse]
    cases h : p.isRooted with
    | true =>
      have hsplit := pieces_of_isRooted h
      have hjoin : "/".intercalate (Text.split '/' p.text) = p.text := Text.intercalate_split rfl _
      rw [hsplit] at hjoin
      cases hpieces : p.pieces with
      | nil =>
        -- A text with one piece only has no slash to start with.
        have hmem : ∀ c ∈ p.text.toList, c ≠ '/' := by
          intro c hc
          rw [hpieces, String.intercalate_singleton] at hjoin
          rw [← hjoin] at hc
          cases hc
        have hhead : p.text.toList.head? = some '/' := by simpa [isRooted] using h
        exact absurd rfl (hmem _ (List.mem_of_mem_head? hhead))
      | cons first rest =>
        rw [hpieces, String.intercalate_cons_cons, String.empty_append] at hjoin
        exact hjoin
    | false =>
      rw [pieces_of_not_isRooted h]
      exact String.empty_append.trans (Text.intercalate_split rfl _)
  exact congrArg Path.mk htext

theorem text_prefix_join (hname : IsName name) (dir : Path) :
    dir.text.toList <+: (dir.join name).text.toList := by
  rcases join_cases hname.slashless dir with ⟨hdir, -⟩ | ⟨text, hdir, htext⟩ | ⟨-, htext⟩
  · rw [hdir]
    exact List.nil_prefix
  · rw [htext, ← hdir, String.toList_append]
    exact List.prefix_append _ _
  · rw [htext, String.append_assoc, String.toList_append]
    exact List.prefix_append _ _

theorem fault?_eq_none_iff : p.fault? = none ↔
    '\x00' ∉ p.text.toList ∧ p.text ≠ "" ∧ p.text.utf8ByteSize < maxSize := by
  unfold fault?
  by_cases hnul : '\x00' ∈ p.text.toList
  · simp [hnul]
  · by_cases hempty : p.text = ""
    · simp [hempty]
    · simp [hnul, hempty]

/-- The start of a path that leads somewhere leads somewhere. -/
theorem fault?_of_prefix (h : p.fault? = none) (hstarts : q.text.toList <+: p.text.toList)
    (hne : q.text ≠ "") : q.fault? = none := by
  obtain ⟨hnul, -, hsize⟩ := fault?_eq_none_iff.1 h
  obtain ⟨more, hmore⟩ := hstarts
  have htext : p.text = q.text ++ String.ofList more := by
    rw [← String.toList_inj, ← hmore]
    simp
  refine fault?_eq_none_iff.2 ⟨fun hmem => hnul ?_, hne, ?_⟩
  · rw [← hmore]
    exact List.mem_append_left more hmem
  · rw [htext, String.utf8ByteSize_append] at hsize
    omega

theorem fault?_ne_notFound (hne : p.text ≠ "") : p.fault? ≠ some .notFound := by
  unfold fault?
  rw [if_neg hne]
  split
  · exact fun h => nomatch h
  · split
    · exact fun h => nomatch h
    · exact fun h => nomatch h

end Path

end Orchestration
