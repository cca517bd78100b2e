import Orchestration.Config.Load
import Orchestration.Proofs.Except
import Orchestration.Proofs.Files.Search

/-!
# Moving a configuration

A configuration is loaded from its own file and from the files below its directory that its patterns ask
for. The patterns are read behind the names of that directory, as one pattern: so the directory may have
any name without wildcards, and only such a one.
-/

namespace Orchestration

open FileTree Orchestration.Path

variable {t t' : FileTree} {b b' : Site} {room : Nat} {n : FileNode} {p p' : Path} {f s : String}
  {rooted : Bool} {back : List String} {pattern : String}

/-! ## Paths of a site -/

/-- The directory with the given names, the last one first. -/
def Path.base (rooted : Bool) (back : List String) : Path :=
  if back = [] then Path.start rooted else ofPieces rooted back

/-- The directory at a site. -/
def Site.directory (b : Site) : Path :=
  Path.base b.rooted b.names.reverse

/-- A file in the directory at a site. -/
def Site.path (b : Site) (f : String) : Path :=
  ofPieces b.rooted (f :: b.names.reverse)

theorem clean_of_names (h : ∀ s ∈ back, IsName s) : Clean rooted back := by
  refine ⟨fun s hs => (h s hs).slashless, fun _ hlast => ?_⟩
  exact absurd rfl (h "" (List.mem_of_getLast? hlast)).nonempty

theorem getLast?_ofPieces (hs : IsName s) (before : List String) :
    (ofPieces rooted (s :: before)).text.toList.getLast? ≠ some '/' := by
  have hne : s.toList ≠ [] := fun hnil => hs.nonempty (String.toList_eq_nil_iff.1 hnil)
  rw [text_ofPieces_cons, String.toList_append, List.getLast?_append_of_ne_nil _ hne]
  exact fun hlast => hs.slashless (List.mem_of_getLast? hlast)

theorem namesOf_of_names (h : ∀ s ∈ back, IsName s) : namesOf back = back.reverse := by
  rw [namesOf, List.filter_eq_self.2]
  intro s hs
  simp [(h s hs).nonempty, (h s hs).not_here]

theorem spells_ofPieces (h : ∀ s ∈ back, IsName s) (hne : back ≠ []) :
    (ofPieces rooted back).Spells rooted back.reverse := by
  have hclean : Clean rooted back := clean_of_names h
  refine ⟨isRooted_ofPieces hclean, by rw [names_ofPieces hclean, namesOf_of_names h], fun _ => ?_⟩
  rw [pieces_ofPieces hclean hne]
  refine iff_of_false (fun hhead => ?_) fun hnil => hne (List.reverse_eq_nil_iff.1 hnil)
  exact (h "." (List.mem_reverse.1 (List.mem_of_mem_head? hhead))).not_here rfl

/-- A file in a directory is an entry of it. -/
theorem entryPath_base (hback : ∀ s ∈ back, IsName s) (hs : IsName s) :
    entryPath (Path.base rooted back) s = ofPieces rooted (s :: back) := by
  have hhead : s.toList.head? ≠ some '/' := fun h => hs.slashless (List.mem_of_mem_head? h)
  cases back with
  | nil =>
    cases rooted with
    | true =>
      have hjoin : entryPath (Path.base true []) s = (⟨"/"⟩ : Path).join s := rfl
      rw [hjoin, join, if_neg hhead, if_pos (by decide)]
      simp [ofPieces]
    | false =>
      have hentry : entryPath (Path.base false []) s = ⟨s⟩ := rfl
      rw [hentry]
      simp [ofPieces]
  | cons x rest =>
    have hspells : (ofPieces rooted (x :: rest)).Spells rooted (x :: rest).reverse :=
      spells_ofPieces hback (List.cons_ne_nil x rest)
    have hup : ".." ∉ (x :: rest).reverse := fun hmem =>
      (hback ".." (List.mem_reverse.1 hmem)).not_up rfl
    have hlast : (ofPieces rooted (x :: rest)).text.toList.getLast? ≠ some '/' :=
      getLast?_ofPieces (hback x (List.mem_cons_self ..)) rest
    rw [Path.base, if_neg (List.cons_ne_nil x rest)]
    rcases entryPath_cases hspells hup s with ⟨-, hnil, -⟩ | ⟨-, heq⟩
    · exact absurd (List.reverse_eq_nil_iff.1 hnil) (List.cons_ne_nil x rest)
    · have htext : (ofPieces rooted (s :: x :: rest)).text =
          (ofPieces rooted (x :: rest)).text ++ "/" ++ s := by
        rw [text_ofPieces_cons, if_neg (List.cons_ne_nil x rest)]
      rw [heq, join, if_neg hhead, if_neg (by simp [hspells.text_ne_empty, hlast]), ← htext]

theorem reaches_base (h : ∀ s ∈ back, Proper s) :
    (Path.base rooted back).Reaches rooted 1 back.reverse := by
  induction back with
  | nil => exact reaches_start rooted
  | cons s back ih =>
    have hback : ∀ x ∈ back, Proper x := fun x hx => h x (List.mem_cons_of_mem s hx)
    have hs := h s (List.mem_cons_self ..)
    have hentry := reaches_entryPath (ih hback) hs
    rw [entryPath_base (fun x hx => (hback x hx).toIsName) hs.toIsName] at hentry
    rw [Path.base, if_neg (List.cons_ne_nil s back), List.reverse_cons]
    exact hentry

theorem reaches_directory (h : ∀ s ∈ b.names, Proper s) : b.directory.Reaches b.rooted 1 b.names := by
  have hback : ∀ s ∈ b.names.reverse, Proper s := fun s hs => h s (List.mem_reverse.1 hs)
  have hbase : b.directory.Reaches b.rooted 1 b.names.reverse.reverse := reaches_base hback
  rwa [List.reverse_reverse] at hbase

theorem entryPath_directory (h : ∀ s ∈ b.names, Proper s) (hf : IsName f) :
    entryPath b.directory f = b.path f :=
  entryPath_base (fun s hs => (h s (List.mem_reverse.1 hs)).toIsName) hf

/-- The directory of a file at a site is the directory at the site. -/
theorem directory_path (hb : ∀ s ∈ b.names, IsName s) (hf : IsName f) :
    (b.path f).directory = b.directory := by
  have hback : ∀ s ∈ b.names.reverse, IsName s := fun s hs => hb s (List.mem_reverse.1 hs)
  have hclean : Clean b.rooted (f :: b.names.reverse) :=
    clean_of_names fun s hs => by
      rcases List.mem_cons.1 hs with rfl | hs
      · exact hf
      · exact hback s hs
  have hstep : isStep b.rooted f b.names.reverse = true := by
    simp [isStep, hf.nonempty, hf.not_here]
  have hidle : dropIdle b.rooted b.names.reverse = b.names.reverse := by
    cases hnames : b.names.reverse with
    | nil => rfl
    | cons x rest =>
      have hx := hback x (by rw [hnames]; exact List.mem_cons_self ..)
      rw [dropIdle, if_pos (by simp [isStep, hx.nonempty, hx.not_here])]
  have hparent : (b.path f).parent? = some (ofPieces b.rooted b.names.reverse) := by
    rw [Site.path, parent?, ancestors_ofPieces hclean, above, if_pos hstep, hidle]
    rfl
  rw [Path.directory, hparent]
  unfold Site.directory Path.base
  dsimp only
  by_cases hnil : b.names.reverse = []
  · rw [if_pos hnil, hnil]
    cases b.rooted <;> rfl
  · rw [if_neg hnil, if_neg (spells_ofPieces hback hnil).text_ne_empty]

/-! ## Patterns behind a site -/

/-- Whether a pattern asks for directories only, once it is put behind one. -/
def wantsDirectory (pattern : String) : Bool :=
  pattern = "" || pattern.toList.getLast? = some '/'

/-- The pieces of a path with a slash and more behind it. -/
theorem pieces_append {text : String} (hne : text ≠ "") (more : String) :
    (⟨text ++ "/" ++ more⟩ : Path).isRooted = (⟨text⟩ : Path).isRooted ∧
      (⟨text ++ "/" ++ more⟩ : Path).pieces = (⟨text⟩ : Path).pieces ++ Text.split '/' more := by
  have hrooted : (⟨text ++ "/" ++ more⟩ : Path).isRooted = (⟨text⟩ : Path).isRooted := by
    rw [String.append_assoc, isRooted_append hne]
  refine ⟨hrooted, ?_⟩
  cases h : (⟨text⟩ : Path).isRooted with
  | true =>
    rw [pieces, pieces, hrooted, h, if_pos rfl, if_pos rfl, Text.split_append_slash,
      List.tail_append_of_ne_nil (Text.split_ne_nil '/' text)]
  | false =>
    rw [pieces_of_not_isRooted (hrooted.trans h), pieces_of_not_isRooted h, Text.split_append_slash]

theorem endsInSlash_append (text pattern : String) :
    (⟨text ++ "/" ++ pattern⟩ : Path).endsInSlash = wantsDirectory pattern := by
  unfold endsInSlash wantsDirectory
  by_cases hnil : pattern = ""
  · subst hnil
    simp
  · have hne : pattern.toList ≠ [] := fun h => hnil (String.toList_eq_nil_iff.1 h)
    rw [String.toList_append, List.getLast?_append_of_ne_nil _ hne]
    simp [hnil]

/-- A pattern behind a directory is read behind the names of the directory. -/
theorem join_directory (hb : ∀ s ∈ b.names, IsName s) (hpattern : pattern.toList.head? ≠ some '/') :
    (b.directory.join pattern).isRooted = b.rooted ∧
      (b.directory.join pattern).pieces = b.lead ++ Text.split '/' pattern ∧
      (b.directory.join pattern).endsInSlash = wantsDirectory pattern := by
  have hback : ∀ s ∈ b.names.reverse, IsName s := fun s hs => hb s (List.mem_reverse.1 hs)
  unfold Site.directory Path.base Site.lead
  by_cases hnil : b.names = []
  · rw [if_pos hnil, if_pos (by rw [hnil]; rfl)]
    cases b.rooted with
    | true =>
      have hjoin : (Path.start true).join pattern = ⟨"" ++ "/" ++ pattern⟩ := by
        rw [Path.start, join, if_neg hpattern, if_pos (by decide)]
        rfl
      have hrooted : (⟨"" ++ "/" ++ pattern⟩ : Path).isRooted = true := by simp [isRooted]
      rw [hjoin, hrooted, endsInSlash_append, pieces, hrooted, if_pos rfl, Text.split_append_slash]
      exact ⟨rfl, rfl, rfl⟩
    | false =>
      have hjoin : (Path.start false).join pattern = ⟨"." ++ "/" ++ pattern⟩ := by
        rw [Path.start, join, if_neg hpattern, if_neg (by decide)]
        rfl
      obtain ⟨hrooted, hpieces⟩ := pieces_append (show "." ≠ "" by decide) pattern
      rw [hjoin, hrooted, hpieces, endsInSlash_append]
      exact ⟨rfl, rfl, rfl⟩
  · have hne : b.names.reverse ≠ [] := fun h => hnil (List.reverse_eq_nil_iff.1 h)
    have hspells : (ofPieces b.rooted b.names.reverse).Spells b.rooted b.names.reverse.reverse :=
      spells_ofPieces hback hne
    obtain ⟨x, rest, hcons⟩ := List.exists_cons_of_ne_nil hne
    have hlast : (ofPieces b.rooted b.names.reverse).text.toList.getLast? ≠ some '/' := by
      rw [hcons]
      exact getLast?_ofPieces (hback x (by rw [hcons]; exact List.mem_cons_self ..)) rest
    have hjoin : (ofPieces b.rooted b.names.reverse).join pattern =
        ⟨(ofPieces b.rooted b.names.reverse).text ++ "/" ++ pattern⟩ := by
      rw [join, if_neg hpattern, if_neg (by simp [hspells.text_ne_empty, hlast])]
    obtain ⟨hrooted, hpieces⟩ := pieces_append hspells.text_ne_empty pattern
    rw [if_neg hnil, if_neg hne, hjoin, hrooted, hpieces, endsInSlash_append]
    refine ⟨hspells.start, ?_, rfl⟩
    rw [pieces_ofPieces (clean_of_names hback) hne, List.reverse_reverse]

theorem pattern?_join (hb : ∀ s ∈ b.names, IsName s) (hplain : ∀ s ∈ b.names, Plain s)
    (hpattern : pattern.toList.head? ≠ some '/') :
    (b.directory.join pattern).pattern? =
      ((if wantsDirectory pattern then (Text.split '/' pattern).dropLast
        else Text.split '/' pattern).mapM NamePattern.ofText?).map fun names =>
          ⟨b.rooted, b.lead.map .literal ++ NamePattern.collapse names, wantsDirectory pattern⟩ := by
  obtain ⟨hrooted, hpieces, hends⟩ := join_directory hb hpattern
  have hlead : ∀ s ∈ b.lead, Plain s := by
    unfold Site.lead
    split
    · intro s hs
      split at hs
      · cases hs
      · rw [List.mem_singleton.1 hs]
        decide
    · exact hplain
  have hdrop : (b.lead ++ Text.split '/' pattern).dropLast =
      b.lead ++ (Text.split '/' pattern).dropLast :=
    List.dropLast_append_of_ne_nil (Text.split_ne_nil '/' pattern)
  have hread (pieces : List String) : (b.lead ++ pieces).mapM NamePattern.ofText? =
      (pieces.mapM NamePattern.ofText?).map (b.lead.map NamePattern.literal ++ ·) := by
    rw [List.mapM_append, NamePattern.mapM_ofText?_of_plain hlead]
    cases pieces.mapM NamePattern.ofText? <;> rfl
  rw [Path.pattern?, hrooted, hpieces, hends, hdrop]
  split <;> rw [hread, Option.map_map] <;> refine congrArg (fun f => Option.map f _) (funext ?_) <;>
    intro names <;> simp only [Function.comp_apply, NamePattern.collapse_literals]

/-- The names of a pattern that is kept inside a directory lead into it. -/
theorem Inward.descends (h : Inward pattern) {names : List NamePattern} {q : NamePattern}
    (hread : (Text.split '/' pattern).mapM NamePattern.ofText? = some names)
    (hq : q ∈ NamePattern.collapse names) : q.Descends := by
  obtain ⟨s, hs, hread⟩ :=
    NamePattern.exists_piece_of_mapM hread (NamePattern.mem_of_mem_collapse hq)
  cases q with
  | literal name =>
    obtain rfl := NamePattern.eq_of_ofText? hread
    exact ⟨fun hup => h.named (hup ▸ hs), Text.notMem_of_mem_split hs⟩
  | wild tokens => exact NamePattern.dotsMatching_eq_nil hread (h.undotted s hs tokens hread)
  | anywhere => trivial

theorem getLast?_split (h : wantsDirectory pattern = false) :
    (Text.split '/' pattern).getLast? ≠ some "" := by
  unfold wantsDirectory at h
  simp only [Bool.or_eq_false_iff, decide_eq_false_iff_not] at h
  obtain ⟨hne, hslash⟩ := h
  have hne' : pattern.toList ≠ [] := fun hnil => hne (String.toList_eq_nil_iff.1 hnil)
  obtain ⟨last, hlast, hends⟩ :=
    Text.getLast?_segments (List.getLast?_eq_some_getLast hne') fun hc =>
      hslash (by rw [List.getLast?_eq_some_getLast hne', hc])
  rw [Text.split, List.getLast?_map, hlast]
  intro hempty
  have hnil : last = [] := by simpa using hempty
  rw [hnil] at hends
  cases hends

/-- A pattern that asks for directories finds no file. -/
theorem matchingFiles_of_wantsDirectory (t : FileTree) (rooted : Bool) (names : List NamePattern) :
    t.matchingFiles ⟨rooted, names, true⟩ = [] := by
  have hnone : ((t.matching ⟨rooted, names, true⟩).filter fun p => t.isFile p) = [] := by
    rw [List.filter_eq_nil_iff]
    intro p hp
    have hdir : t.isDirectory p = true := by simpa [matching] using (List.mem_filter.1 hp).2
    unfold FileTree.isDirectory at hdir
    unfold isFile
    cases hstat : (t.stat p).toOption with
    | none => simp
    | some k =>
      rw [hstat, Option.any_some] at hdir
      simp [hdir]
  rw [matchingFiles, hnone, List.mergeSort_nil]

/-! ## Loading -/

theorem mapM_of_forall₂ {ε α β γ : Type} {f : α → Except ε γ} {g : β → Except ε γ} {xs : List α}
    {ys : List β} {zs : List γ} (h : List.Forall₂ (fun x y => ∀ z, f x = .ok z → g y = .ok z) xs ys)
    (hf : xs.mapM f = .ok zs) : ys.mapM g = .ok zs := by
  induction h generalizing zs with
  | nil => exact hf
  | cons hxy _ ih =>
    rw [List.mapM_cons] at hf ⊢
    obtain ⟨z, hz, hf⟩ := bind_eq_ok_iff.1 hf
    obtain ⟨rest, hrest, hf⟩ := bind_eq_ok_iff.1 hf
    exact bind_eq_ok_iff.2 ⟨z, hxy z hz, bind_eq_ok_iff.2 ⟨rest, ih hrest, hf⟩⟩

theorem loadText_eq_ok_iff {text : String} :
    t.loadText p = .ok text ↔ (t.stat p).toOption = some (.file text) := by
  unfold loadText FileTree.read
  rcases t.stat p with e | (text' | es) <;> simp [Except.toOption]

/-- The format of a file is that of its name. -/
theorem MatchedFile.ofPath_eq (hp : MatchedFile b b' room p p') :
    Format.ofPath p = Format.ofPath p' := by
  obtain ⟨l, hl, ha⟩ := hp
  obtain ⟨front, s, rfl⟩ := (List.eq_nil_or_concat' l).resolve_left hl
  have hleft := ha.left.spells
  have hright := ha.right.spells
  have hup := up_notMem_of_proper ha.left.proper
  have hup' := up_notMem_of_proper ha.right.proper
  rw [← List.append_assoc] at hleft hright hup hup'
  rw [Format.ofPath, Format.ofPath, extension?, extension?, hleft.fileName?_eq hup,
    hright.fileName?_eq hup']

section Loading

variable (h : t.Houses b room n) (h' : t'.Houses b' room n)

include h h'

theorem MatchedFile.loadText_eq (hp : MatchedFile b b' room p p') {text : String}
    (hload : t.loadText p = .ok text) : t'.loadText p' = .ok text := by
  obtain ⟨l, -, ha⟩ := hp
  rw [loadText_eq_ok_iff, ← ha.stat_eq h h' le_rfl]
  exact loadText_eq_ok_iff.1 hload

theorem MatchedFile.loadSchemas_eq (hp : MatchedFile b b' room p p') {schemas : List Schema}
    (hload : t.loadSchemas p = .ok schemas) : t'.loadSchemas p' = .ok schemas := by
  unfold loadSchemas at hload ⊢
  obtain ⟨text, htext, hload⟩ := bind_eq_ok_iff.1 hload
  refine bind_eq_ok_iff.2 ⟨text, hp.loadText_eq h h' htext, ?_⟩
  rw [← hp.ofPath_eq]
  cases hparse : ((Format.ofPath p).parse? text).bind Schema.listOfDocument? with
  | none =>
    rw [hparse] at hload
    cases hload
  | some read =>
    rw [hparse] at hload
    exact hload

/-- The files that a pattern brings in are the same at both sites. -/
theorem loadIncluded_eq (hplain : ∀ s ∈ b.names, Plain s) (hplain' : ∀ s ∈ b'.names, Plain s)
    (hpattern : Inward pattern) (hroom : 1 + 2 * (Text.split '/' pattern).length ≤ room)
    {schemas : List Schema} (hload : t.loadIncluded b.directory pattern = .ok schemas) :
    t'.loadIncluded b'.directory pattern = .ok schemas := by
  unfold loadIncluded at hload ⊢
  rw [pattern?_join (fun s hs => (h.proper s hs).toIsName) hplain hpattern.relative] at hload
  rw [pattern?_join (fun s hs => (h'.proper s hs).toIsName) hplain' hpattern.relative]
  cases hwants : wantsDirectory pattern with
  | true =>
    rw [hwants] at hload
    cases hread : (Text.split '/' pattern).dropLast.mapM NamePattern.ofText? with
    | none =>
      rw [if_pos rfl, hread] at hload
      cases hload
    | some names =>
      rw [if_pos rfl, hread, Option.map_some] at hload
      rw [if_pos rfl, hread, Option.map_some]
      dsimp only at hload ⊢
      rw [matchingFiles_of_wantsDirectory] at hload ⊢
      exact hload
  | false =>
    rw [hwants, if_neg Bool.false_ne_true] at hload
    rw [if_neg Bool.false_ne_true]
    cases hread : (Text.split '/' pattern).mapM NamePattern.ofText? with
    | none =>
      rw [hread] at hload
      cases hload
    | some names =>
      rw [hread] at hload
      have hlength : (NamePattern.collapse names).length ≤ (Text.split '/' pattern).length := by
        rw [← NamePattern.length_eq_of_mapM hread]
        exact NamePattern.length_collapse_le names
      have hbegins := NamePattern.begins_of_pieces hread hpattern.tight (getLast?_split hwants)
      have hdescends : ∀ q ∈ NamePattern.collapse names, q.Descends := fun q hq =>
        hpattern.descends hread hq
      have hfiles := matchingFiles_matched h h' (by omega) hdescends hbegins
      obtain ⟨loaded, hloaded, hload⟩ := bind_eq_ok_iff.1 hload
      refine bind_eq_ok_iff.2 ⟨loaded, mapM_of_forall₂ ?_ hloaded, hload⟩
      exact hfiles.imp fun x y hxy z => hxy.loadSchemas_eq h h'

omit h' in
/-- A file that is read at a site has a proper name. -/
theorem proper_of_loadText (hf : IsName f) {text : String}
    (hload : t.loadText (b.path f) = .ok text) : Proper f := by
  have hup := up_notMem_of_proper h.proper
  have hspells := spells_entryPath (reaches_directory h.proper).spells hup hf
  rw [entryPath_directory h.proper hf] at hspells
  have hup' : ".." ∉ b.names ++ [f] := by
    simp only [List.mem_append, List.mem_singleton, not_or]
    exact ⟨hup, Ne.symm hf.not_up⟩
  cases hl : n.find? [f] with
  | none =>
    have hnothing := h.stat_of_nothing hspells hup' hl
    rw [loadText_eq_ok_iff, hnothing] at hload
    cases hload
  | some k => exact (h.fits.find? hl).1 f (List.mem_singleton_self f)

theorem matchedFile_path (hf : Proper f) (hroom : 1 ≤ room) :
    MatchedFile b b' room (b.path f) (b'.path f) := by
  have hreach {u : FileTree} {c : Site} (hu : u.Houses c room n) :
      (c.path f).Reaches c.rooted 1 (c.names ++ [f]) := by
    have hentry := reaches_entryPath (reaches_directory hu.proper) hf
    rwa [entryPath_directory hu.proper hf.toIsName] at hentry
  have hasks (c : Site) (hc : ∀ s ∈ c.names, Proper s) : (c.path f).asks = false := by
    have hentry := asks_entryPath hf.toIsName c.directory
    rwa [entryPath_directory hc hf.toIsName] at hentry
  have ha : Alike b b' 1 [f] (b.path f) (b'.path f) :=
    ⟨hreach h, hreach h', fun _ => by rw [hasks b h.proper, hasks b' h'.proper]⟩
  exact ⟨[f], List.cons_ne_nil f [], ha.mono hroom⟩

end Loading

/-- **A configuration means the same wherever its directory lies**, as long as the names that lead to
the directory hold no wildcards: if it can be loaded at one site, then at another site, to which the
directory was moved with all that is in it, the same is loaded. In front of a pattern that is kept
inside the directory, the names of the site stand for the directory and nothing else. -/
theorem loadConfig_relocated {k : Nat} {c : Config} (h : t.Houses b (1 + 2 * k) n)
    (h' : t'.Houses b' (1 + 2 * k) n) (hplain : ∀ s ∈ b.names, Plain s)
    (hplain' : ∀ s ∈ b'.names, Plain s) (hf : IsName f)
    (hincludes : ∀ pattern ∈ c.includes,
      Inward pattern ∧ (Text.split '/' pattern).length ≤ k)
    (hload : t.loadConfig (b.path f) = .ok c) : t'.loadConfig (b'.path f) = .ok c := by
  unfold loadConfig at hload ⊢
  obtain ⟨text, htext, hload⟩ := bind_eq_ok_iff.1 hload
  obtain ⟨parsed, hparsed, hload⟩ := bind_eq_ok_iff.1 hload
  obtain ⟨included, hincluded, hload⟩ := bind_eq_ok_iff.1 hload
  have hproper := proper_of_loadText h hf htext
  have hmatched := matchedFile_path h h' hproper (Nat.le_add_right 1 (2 * k))
  -- the same text is read at both sites, so both ask for the same patterns
  have hsame : c.includes = parsed.includes := by
    rw [← pure_eq_ok_iff.1 hload]
  rw [hsame] at hincludes
  rw [directory_path (fun s hs => (h.proper s hs).toIsName) hf] at hincluded
  rw [directory_path (fun s hs => (h'.proper s hs).toIsName) hf]
  refine bind_eq_ok_iff.2 ⟨text, hmatched.loadText_eq h h' htext, bind_eq_ok_iff.2 ⟨parsed, ?_,
    bind_eq_ok_iff.2 ⟨included, mapM_of_forall₂ ?_ hincluded, hload⟩⟩⟩
  · rw [← hmatched.ofPath_eq]
    exact hparsed
  · refine List.forall₂_same.2 fun pattern hpattern schemas hschemas => ?_
    obtain ⟨hinward, hlength⟩ := hincludes pattern hpattern
    exact loadIncluded_eq h h' hplain hplain' hinward (by omega) hschemas

/-- A configuration that brings in the schemas of a directory beside it. -/
def pageProject : FileNode :=
  .directory
    [("querygen.toml", .file
        ("version = \"1.0\"\n" ++ "catalog = \"catalog.yaml\"\n" ++
          "include = [\"schemas/*.toml\"]\n")),
     ("schemas", .directory
       [("page.toml", .file
          ("[[schemas]]\n" ++ "name = \"GetPage\"\n" ++ "[[schemas.groups]]\n" ++
            "[[schemas.groups.members]]\n" ++ "operation = \"GetUser\"\n"))])]

/-- The project where paths start. -/
def pageTree : FileTree :=
  ⟨pageProject, []⟩

/-- The project in a directory of its own, which is all there is. -/
def movedTree (name : String) : FileTree :=
  ⟨.directory [(name, pageProject)], []⟩

theorem fits_pageProject {size : Nat} (h : size ≤ maxNameSize) : pageProject.Fits size := by
  have hbound : maxNameSize + 64 < maxSize := by decide
  have hconfig : Proper "querygen.toml" :=
    ⟨⟨by decide, by decide, by decide, by decide⟩, by decide, by decide⟩
  have hschemas : Proper "schemas" :=
    ⟨⟨by decide, by decide, by decide, by decide⟩, by decide, by decide⟩
  have hpage : Proper "page.toml" :=
    ⟨⟨by decide, by decide, by decide, by decide⟩, by decide, by decide⟩
  have hsizes : "querygen.toml".utf8ByteSize = 13 ∧ "schemas".utf8ByteSize = 7 ∧
      "page.toml".utf8ByteSize = 9 := by decide
  refine .directory (by omega) (List.forall_mem_cons.2 ⟨hconfig, List.forall_mem_singleton.2 hschemas⟩)
    (List.forall_mem_cons.2 ⟨.file ?_, List.forall_mem_singleton.2 (.directory ?_
      (List.forall_mem_singleton.2 hpage) (List.forall_mem_singleton.2 (.file ?_)))⟩)
  all_goals
    dsimp only
    omega

theorem split_schemas : Text.split '/' "schemas/*.toml" = ["schemas", "*.toml"] := by
  decide

theorem inward_schemas : Inward "schemas/*.toml" := by
  constructor
  case relative => decide
  case named => decide
  case undotted =>
    rw [split_schemas]
    refine List.forall_mem_cons.2 ⟨fun tokens hread => ?_,
      List.forall_mem_singleton.2 fun tokens hread => ?_⟩
    · rw [NamePattern.ofText?_of_plain (by decide)] at hread
      cases hread
    · have hstar : NamePattern.ofText? "*.toml" =
          some (.wild (.run :: ".toml".toList.map .char)) := by decide +kernel
      rw [hstar] at hread
      cases hread
      decide
  case tight =>
    intro dots rest _ heq
    have hempty : "" ∈ Text.split '/' "schemas/*.toml" := by
      rw [heq]
      exact List.mem_append_right _ (List.mem_cons_self ..)
    exact absurd hempty (by decide)

theorem loadConfig_relocated_moved :
    ∃ c, pageTree.loadConfig ⟨"querygen.toml"⟩ = .ok c ∧ c.includes = ["schemas/*.toml"] ∧
      c.schemas.map Schema.name = ["GetPage"] ∧
        (movedTree "moved").loadConfig ⟨"moved/querygen.toml"⟩ = .ok c := by
  obtain ⟨c, hload, hincludes, hnames⟩ : ∃ c, pageTree.loadConfig ⟨"querygen.toml"⟩ = .ok c ∧
      c.includes = ["schemas/*.toml"] ∧ c.schemas.map Schema.name = ["GetPage"] :=
    exists_ok_of_any (by decide +kernel)
  have hmoved : Proper "moved" := ⟨⟨by decide, by decide, by decide, by decide⟩, by decide, by decide⟩
  have h : pageTree.Houses ⟨false, []⟩ (1 + 2 * 2) pageProject :=
    ⟨rfl, rfl, nofun, fits_pageProject (by decide)⟩
  have h' : (movedTree "moved").Houses ⟨false, ["moved"]⟩ (1 + 2 * 2) pageProject :=
    ⟨rfl, rfl, List.forall_mem_singleton.2 hmoved, fits_pageProject (by decide)⟩
  refine ⟨c, hload, hincludes, hnames, ?_⟩
  refine loadConfig_relocated (f := "querygen.toml") h h' nofun ?_ ?_ ?_ hload
  · exact List.forall_mem_singleton.2 (by decide)
  · exact ⟨by decide, by decide, by decide, by decide⟩
  · rw [hincludes]
    exact List.forall_mem_singleton.2 ⟨inward_schemas, by rw [split_schemas]; decide⟩

/-- In a directory whose name is read as a choice of characters, the schemas are not found. -/
theorem loadConfig_lost_in_brackets :
    ∃ c, pageTree.loadConfig ⟨"querygen.toml"⟩ = .ok c ∧ c.includes = ["schemas/*.toml"] ∧
      c.schemas.map Schema.name = ["GetPage"] ∧
        (movedTree "[x]").loadConfig ⟨"[x]/querygen.toml"⟩ = .ok { c with schemas := [] } :=
  exists_ok_of_any (by decide +kernel)

end Orchestration
