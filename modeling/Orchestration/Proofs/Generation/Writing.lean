import Orchestration.Proofs.Digest.Fingerprint
import Orchestration.Proofs.Generation.Artifact

/-!
# Writing is all or nothing

Writing a text takes up to five steps, each of which may fail: the text that is there is compared, the
directory is created, the draft is written, it is moved, and if that fails it is removed again. However
far this gets, all that is left behind are directories that lead to the path, the text at its place or
not, and no draft.
-/

namespace Orchestration

namespace FileTree

variable {t u v : FileTree} {p q : Path} {l m : Location} {name text old : String} {e : FileError}
  {result : Except FileError Unit} {outcome : Except FileError Bool}

/-! ## The steps -/

/-- Unless the two texts collide, a path holds a text exactly if that is what is read there. -/
theorem holds_iff
    (hcollide : ∀ old, t.read p = .ok old → ¬ Digest.Blake3.Collide old.toUTF8 text.toUTF8) :
    t.holds p text = true ↔ t.read p = .ok text := by
  unfold holds
  cases hread : t.read p with
  | error e => exact ⟨fun h => (by cases h), fun h => (by cases h)⟩
  | ok old =>
    dsimp only
    rw [decide_eq_true_eq, Digest.ofText_eq_iff, or_iff_left (hcollide old hread), Except.ok.injEq]

theorem writeArtifact_of_holds (h : t.holds p text = true) :
    t.writeArtifact p text = (.ok false, t) := by
  rw [writeArtifact, if_pos h]

/-- A path asks for a name in a directory, and a file may be put there. -/
structure Free (t : FileTree) (p : Path) (l : Location) : Prop where
  asked : ∃ d n, l = d ++ [n] ∧ t.target p = .ok (.entry d n false)
  noDirectory : t.look l ≠ .directory

/-- The directory that a path lies in is created with directories that lead to the path. -/
theorem created_createParent (hg : t.Grounded) (h : t.createParent p = (result, u)) :
    Created p.ancestors t u := by
  unfold createParent at h
  split at h
  · cases h
    exact Created.rfl _ t
  · rename_i dir hparent
    split at h
    · cases h
      exact Created.rfl _ t
    · rw [createDirectories, Path.cons_ancestors_of_parent? hparent] at h
      exact created_createAll hg h

/-- The two ways in which a draft that was written goes away: to the place of the path, if one may put
a file there, or without a trace. -/
theorem replace_cases (hg : t.Grounded) (h : t.replace p text = (result, u)) :
    (∃ e, result = .error e ∧ u = t) ∨
    ∃ l, t.Free p.draft l ∧ u.here = t.here ∧
      ((∃ e, result = .error e ∧ ∀ m, u.look m = if m = l then .nothing else t.look m) ∨
        result = .ok () ∧ ∃ l', t.Free p l' ∧ ∀ m, u.look m =
          if m = l' then .file text else if m = l then .nothing else t.look m) := by
  unfold replace at h
  split at h
  · rename_i e hwrite
    cases h
    exact Or.inl ⟨e, rfl, rfl⟩
  · rename_i drafted hwrite
    obtain ⟨d, n, htarget, hfree, rfl⟩ := write_eq_ok hwrite
    have hdir := look_of_target hg htarget
    have hput := look_put_file hdir hfree text
    have hcleared := look_cleared hdir hfree text
    have hfile : (t.put (d ++ [n]) (.file text)).look (d ++ [n]) = .file text := by
      rw [hput, if_pos rfl]
    have hfree' : (t.put (d ++ [n]) (.file text)).look (d ++ [n]) ≠ .directory := by
      rw [hfile]
      exact fun heq => nomatch heq
    -- The draft is no directory, neither before nor after it is written, so paths ask for the same.
    have hkept : t.Retains (t.put (d ++ [n]) (.file text)) :=
      retains_of_look rfl hfree fun m hm => by rw [hput, if_neg hm]
    have hback : (t.put (d ++ [n]) (.file text)).Retains t :=
      retains_of_look rfl hfree' fun m hm => by rw [hput, if_neg hm]
    have hdraft := hkept.target htarget
    refine Or.inr ⟨d ++ [n], ⟨⟨d, n, rfl, htarget⟩, hfree⟩, ?_⟩
    split at h
    · rename_i moved hrename
      cases h
      obtain ⟨d', n', hplace, hfree'', rfl⟩ := rename_eq_ok hrename hdraft hfile
      have hplace' := hback.target hplace
      have hdir' := look_of_target hg hplace'
      have hnot : t.look (d' ++ [n']) ≠ .directory := fun heq =>
        hfree'' (hkept.directory _ heq)
      refine ⟨rfl, Or.inr ⟨rfl, d' ++ [n'], ⟨⟨d', n', rfl, hplace'⟩, hnot⟩, fun m => ?_⟩⟩
      rw [look_put_file, hcleared]
      · rw [hcleared, if_neg, hdir']
        rintro rfl
        exact hfree hdir'
      · rw [hcleared]
        split
        · exact fun heq => nomatch heq
        · exact hnot
    · rename_i e hrename
      cases h
      refine ⟨?_, Or.inl ⟨e, rfl, fun m => ?_⟩⟩
      · rw [removeFile_entry hdraft hfile]
        rfl
      · rw [removeFile_entry hdraft hfile]
        exact hcleared m

/-- How far writing a text to a path gets. The first tree is the one before, the last the one after;
between them lies the tree in which the directory was created. -/
inductive Written (t : FileTree) (p : Path) (text : String) :
    Except FileError Bool → FileTree → Prop
  /-- The path is a file with the fingerprint of the text. -/
  | upToDate (done : t.holds p text = true) : Written t p text (.ok false) t
  /-- The directory was not created, or the draft was not written. -/
  | refused {v : FileTree} (e : FileError) (made : Created p.ancestors t v) :
      Written t p text (.error e) v
  /-- The draft was written, was not moved, and was removed. -/
  | withdrawn {u v : FileTree} {l : Location} (e : FileError) (made : Created p.ancestors t v)
      (beside : v.Free p.draft l) (here : u.here = v.here)
      (look : ∀ m, u.look m = if m = l then .nothing else v.look m) :
      Written t p text (.error e) u
  /-- The draft was written and moved. -/
  | moved {u v : FileTree} {l l' : Location} (made : Created p.ancestors t v)
      (beside : v.Free p.draft l) (free : v.Free p l') (here : u.here = v.here)
      (look : ∀ m, u.look m =
        if m = l' then .file text else if m = l then .nothing else v.look m) :
      Written t p text (.ok true) u

theorem written_writeArtifact (hg : t.Grounded) (p : Path) (text : String) :
    Written t p text (t.writeArtifact p text).1 (t.writeArtifact p text).2 := by
  rw [writeArtifact]
  split
  · rename_i hdone
    exact .upToDate hdone
  · split
    · rename_i e v hparent
      exact .refused e (created_createParent hg hparent)
    · rename_i v hparent
      have hmade := created_createParent hg hparent
      have hv := hmade.more.grounded hg
      split
      · rename_i e u hreplace
        rcases replace_cases hv hreplace with
          ⟨e', -, rfl⟩ | ⟨l, hbeside, hhere, ⟨e', -, hlook⟩ | ⟨hok, -⟩⟩
        · exact .refused e hmade
        · exact .withdrawn e hmade hbeside hhere hlook
        · cases hok
      · rename_i u hreplace
        rcases replace_cases hv hreplace with
          ⟨e', he, -⟩ | ⟨l, hbeside, hhere, ⟨e', he, -⟩ | ⟨-, l', hfree, hlook⟩⟩
        · cases he
        · cases he
        · exact .moved hmade hbeside hfree hhere hlook

/-- Moving a draft loses no directory. -/
theorem retains_of_moved {l' : Location} (beside : v.look l ≠ .directory)
    (free : v.look l' ≠ .directory) (here : u.here = v.here)
    (look : ∀ m, u.look m = if m = l' then .file text else if m = l then .nothing else v.look m) :
    v.Retains u := by
  refine ⟨here, fun m hm => ?_⟩
  rw [look, if_neg, if_neg, hm]
  · rintro rfl
    exact beside hm
  · rintro rfl
    exact free hm

namespace Written

/-- Between the trees before and after lies one with the directories of the tree after. -/
theorem exists_created (h : Written t p text outcome u) :
    ∃ v, Created p.ancestors t v ∧ v.Retains u ∧
      ∀ l, u.look l = .directory → v.look l = .directory := by
  cases h with
  | upToDate => exact ⟨t, Created.rfl _ t, Retains.rfl t, fun _ hl => hl⟩
  | refused e made => exact ⟨u, made, Retains.rfl u, fun _ hl => hl⟩
  | @withdrawn _ v l e made beside here look =>
    refine ⟨v, made, retains_of_look here beside.noDirectory fun m hm => ?_, fun m hm => ?_⟩
    · rw [look, if_neg hm]
    · rw [look] at hm
      split at hm
      · cases hm
      · exact hm
  | @moved _ v l l' made beside free here look =>
    have hkept := retains_of_moved beside.noDirectory free.noDirectory here look
    refine ⟨v, made, hkept, fun m hm => ?_⟩
    rw [look] at hm
    split at hm
    · cases hm
    · split at hm
      · cases hm
      · exact hm

theorem holds (h : Written t p text (.ok false) u) : t.holds p text = true := by
  cases h with
  | upToDate done => exact done

/-- Writing loses no directory. -/
theorem retains (h : Written t p text outcome u) : t.Retains u := by
  obtain ⟨v, made, hkept, -⟩ := h.exists_created
  exact made.more.retains.trans hkept

/-- The directories that writing adds lead to the path. -/
theorem led (h : Written t p text outcome u) (hnew : u.look l = .directory) :
    t.look l = .directory ∨ t.look l = .nothing ∧ ∃ q ∈ p.ancestors, u.LeadsTo q l := by
  obtain ⟨v, made, hkept, hback⟩ := h.exists_created
  have hv := hback l hnew
  rcases made.more.look l with hsame | ⟨hnothing, -⟩
  · exact Or.inl (hsame.symm.trans hv)
  · obtain ⟨q, hq, hled⟩ := made.led l hnothing hv
    exact Or.inr ⟨hnothing, q, hq, hled.retained hkept⟩

/-- A failure leaves no file that was not there. -/
theorem file_of_error (h : Written t p text outcome u) (herror : outcome = .error e)
    (hfile : u.look l = .file old) : t.look l = .file old := by
  cases h with
  | upToDate => exact hfile
  | refused e made => exact made.more.file_iff.1 hfile
  | withdrawn e made beside here look =>
    rw [look] at hfile
    split at hfile
    · cases hfile
    · exact made.more.file_iff.1 hfile
  | moved => cases herror

/-- A failure keeps the text of every file whose path does not end as those of drafts do. -/
theorem read_of_error {c : Char} (h : Written t p text outcome u) (hg : t.Grounded)
    (herror : outcome = .error e) (hends : q.text.toList.getLast? = some c) (hslash : c ≠ '/')
    (hdraft : c ≠ 'p') (hread : t.read q = .ok old) : u.read q = .ok old := by
  obtain ⟨d, n, htarget, hfile⟩ := (read_eq_ok_iff hg).1 hread
  refine (read_eq_ok_iff (h.retains.grounded hg)).2 ⟨d, n, h.retains.target htarget, ?_⟩
  cases h with
  | upToDate => exact hfile
  | refused e made => exact made.more.file_iff.2 hfile
  | @withdrawn _ v l e made beside here look =>
    obtain ⟨d', n', rfl, hbeside⟩ := beside.asked
    have hlast := (target_eq_entry htarget).2.1
    have hlast' := (target_eq_entry hbeside).2.1
    -- The names that the two paths end in do not end in one character.
    obtain ⟨s, hs, hc⟩ := Path.getLast?_steps hends hslash
    obtain ⟨s', hs', hp⟩ := Path.getLast?_steps p.getLast?_text_draft (by decide)
    have hne : d ++ [n] ≠ d' ++ [n'] := by
      intro heq
      obtain ⟨-, hnames⟩ := List.append_inj' heq rfl
      obtain rfl : s = n := Option.some.inj (hs.symm.trans hlast)
      obtain rfl : s' = n' := Option.some.inj (hs'.symm.trans hlast')
      obtain rfl : s = s' := (List.cons_eq_cons.1 hnames).1
      exact hdraft (Option.some.inj (hc.symm.trans hp))
    rw [look, if_neg hne]
    exact made.more.file_iff.2 hfile
  | moved => cases herror

end Written

/-! ## Paths that never go up -/

section NeverUp

variable {dir : Path} (hg : t.Grounded) (hup : ".." ∉ p.names) (hends : Path.EndsIn p dir name)

include hup in
theorem notMem_names_of_ancestor (hq : q ∈ p.ancestors) : ".." ∉ q.names := fun hmem =>
  hup ((Path.names_of_mem_ancestors hq).2.subset hmem)

include hup hends in
theorem notMem_names_draft : ".." ∉ p.draft.names := by
  rw [hends.names_draft]
  rw [hends.names] at hup
  have hnot := hends.isName.append_tmp.not_up
  simp only [List.mem_append, List.mem_singleton, not_or] at hup ⊢
  exact ⟨hup.1, hnot.symm⟩

include hends in
theorem place_ne_place_draft : t.place p ≠ t.place p.draft := by
  rw [place, place, hends.isRooted_draft, hends.names, hends.names_draft, ← List.append_assoc,
    ← List.append_assoc]
  exact place_ne_draft _ name

include hends in
/-- The place of a path is none of those above it. -/
theorem place_ne_of_ancestor (hq : q ∈ p.ancestors) : t.place q ≠ t.place p := by
  intro heq
  obtain ⟨hrooted, hnames⟩ := hends.names_of_mem_ancestors hq
  rw [place, place, hrooted, hends.rooted] at heq
  have hlength := congrArg List.length (List.append_cancel_left heq)
  have hle := hnames.length_le
  rw [hends.names, List.length_append, List.length_singleton] at hlength
  omega

include hg hup in
/-- The name that such a path asks for is at its place, and creating directories does not move it. -/
theorem Free.eq_place {ps : List Path} (h : v.Free p l) (made : Created ps t v) : l = t.place p := by
  obtain ⟨d, n, rfl, htarget⟩ := h.asked
  rw [place_of_target (made.more.grounded hg) hup htarget, place_of_here made.more.here]

include hg hup hends in
theorem Free.eq_place_draft {ps : List Path} (h : v.Free p.draft l) (made : Created ps t v) :
    l = t.place p.draft :=
  h.eq_place hg (notMem_names_draft hup hends) made

include hg hup hends

/-- Creating the directory puts nothing to the place of the path. -/
theorem Created.look_place (h : Created p.ancestors t v) : v.look (t.place p) = t.look (t.place p) := by
  rcases h.more.look (t.place p) with hsame | ⟨hnothing, hdirectory⟩
  · exact hsame
  · obtain ⟨q, hq, hled⟩ := h.led _ hnothing hdirectory
    have hplace := hled.eq_place hg (notMem_names_of_ancestor hup hq) h.more.retains
    exact absurd hplace.symm (place_ne_of_ancestor hends hq)

end NeverUp

/-- What writing a text to a path that never goes up may do, by what it returns. -/
structure AllOrNothing (t : FileTree) (p : Path) (text : String)
    (outcome : Except FileError Bool) (u : FileTree) : Prop where
  /-- The text is left alone exactly if the path is a file that holds it, -/
  upToDate : outcome = .ok false ↔ t.read p = .ok text
  /-- and then nothing changes. -/
  untouched : outcome = .ok false → u = t
  /-- A text that was written is there, and its draft is not. -/
  written : outcome = .ok true →
    u.read p = .ok text ∧ u.look (t.place p) = .file text ∧ u.look (t.place p.draft) = .nothing
  /-- After a failure the path is what it was, and no draft is there that was not. -/
  refused : ∀ e, outcome = .error e →
    u.look (t.place p) = t.look (t.place p) ∧ (∀ old, u.read p = .ok old ↔ t.read p = .ok old) ∧
      ∀ old, u.look (t.place p.draft) = .file old → t.look (t.place p.draft) = .file old
  /-- Every other file keeps its text, and none is added. -/
  file : ∀ l, l ≠ t.place p → l ≠ t.place p.draft → ∀ old, u.look l = .file old ↔ t.look l = .file old
  /-- Every directory stays. -/
  directory : ∀ l, t.look l = .directory → u.look l = .directory
  /-- The directories that are added are those above the path. -/
  added : ∀ l, u.look l = .directory → t.look l ≠ .directory →
    t.look l = .nothing ∧ ∃ q ∈ p.ancestors, l = t.place q

section AllOrNothing

variable {dir : Path} (hg : t.Grounded) (hup : ".." ∉ p.names) (hends : Path.EndsIn p dir name)

include hg hup hends

theorem Written.file (h : Written t p text outcome u) (hplace : l ≠ t.place p)
    (hbeside : l ≠ t.place p.draft) : u.look l = .file old ↔ t.look l = .file old := by
  cases h with
  | upToDate => exact Iff.rfl
  | refused e made => exact made.more.file_iff
  | withdrawn e made beside here look =>
    obtain rfl := beside.eq_place_draft hg hup hends made
    rw [look, if_neg hbeside]
    exact made.more.file_iff
  | moved made beside free here look =>
    obtain rfl := beside.eq_place_draft hg hup hends made
    obtain rfl := free.eq_place hg hup made
    rw [look, if_neg hplace, if_neg hbeside]
    exact made.more.file_iff

theorem Written.look_place (h : Written t p text outcome u) (herror : outcome = .error e) :
    u.look (t.place p) = t.look (t.place p) := by
  cases h with
  | upToDate => rfl
  | refused e made => exact made.look_place hg hup hends
  | withdrawn e made beside here look =>
    obtain rfl := beside.eq_place_draft hg hup hends made
    rw [look, if_neg (place_ne_place_draft hends)]
    exact made.look_place hg hup hends
  | moved => cases herror

theorem Written.look_moved (h : Written t p text (.ok true) u) :
    u.read p = .ok text ∧ u.look (t.place p) = .file text ∧
      u.look (t.place p.draft) = .nothing := by
  have hu := h.retains.grounded hg
  cases h with
  | moved made beside free here look =>
    have hkept := retains_of_moved beside.noDirectory free.noDirectory here look
    obtain rfl := beside.eq_place_draft hg hup hends made
    obtain rfl := free.eq_place hg hup made
    have htext : u.look (t.place p) = .file text := by rw [look, if_pos rfl]
    refine ⟨?_, htext, ?_⟩
    · obtain ⟨d, n, hl, htarget⟩ := free.asked
      refine (read_eq_ok_iff hu).2 ⟨d, n, hkept.target htarget, ?_⟩
      rw [← hl, htext]
    · rw [look, if_neg (place_ne_place_draft hends).symm, if_pos rfl]

end AllOrNothing

/-- Whatever goes wrong, a text is written to a path as a whole or the path stays what it was, and
nothing else changes but directories above the path that are added. -/
theorem writeArtifact_all_or_nothing (hg : t.Grounded) (hup : Path.Part.up ∉ p.parts)
    (hfile : p.fileName? = some name)
    (hcollide : ∀ old, t.read p = .ok old → ¬ Digest.Blake3.Collide old.toUTF8 text.toUTF8) :
    AllOrNothing t p text (t.writeArtifact p text).1 (t.writeArtifact p text).2 := by
  obtain ⟨dir, hends⟩ := Path.exists_endsIn hfile
  have hup' := Path.notMem_names_of_parts hup
  have hwritten := written_writeArtifact hg p text
  have hu := hwritten.retains.grounded hg
  have hdone : (t.writeArtifact p text).1 = .ok false → t.holds p text = true := by
    intro hok
    rw [hok] at hwritten
    exact hwritten.holds
  constructor
  case upToDate =>
    rw [← holds_iff hcollide]
    refine ⟨hdone, fun hholds => ?_⟩
    rw [writeArtifact_of_holds hholds]
  case untouched =>
    intro hok
    rw [writeArtifact_of_holds (hdone hok)]
  case written =>
    intro hok
    rw [hok] at hwritten
    exact hwritten.look_moved hg hup' hends
  case refused =>
    intro e herror
    have hplace := hwritten.look_place hg hup' hends herror
    have hback : t.look ((t.writeArtifact p text).2.place p) =
        (t.writeArtifact p text).2.look ((t.writeArtifact p text).2.place p) := by
      rw [place_of_here hwritten.retains.here, hplace]
    exact ⟨hplace, fun old => ⟨read_of_look hu hup' hwritten.retains.here.symm hback,
      read_of_look hg hup' hwritten.retains.here hplace⟩,
      fun old => hwritten.file_of_error herror⟩
  case file => exact fun l hplace hbeside old => hwritten.file hg hup' hends hplace hbeside
  case directory => exact hwritten.retains.directory
  case added =>
    intro l hnew hbefore
    rcases hwritten.led hnew with hold | ⟨hnothing, q, hq, hled⟩
    · exact absurd hold hbefore
    · exact ⟨hnothing, q, hq, hled.eq_place hg (notMem_names_of_ancestor hup' hq) hwritten.retains⟩

/-- A file with an older text, beside which a draft was left behind. -/
theorem writeArtifact_all_or_nothing_page :
    let t : FileTree := ⟨.directory [("gen", .directory
      [("page.rs", .file "old"), ("page.rs.tmp", .file "left")])], []⟩
    let p : Path := ⟨"gen/page.rs"⟩
    t.Grounded ∧ Path.Part.up ∉ p.parts ∧ p.fileName? = some "page.rs" ∧ t.read p = .ok "old" ∧
      ¬ Digest.Blake3.Collide "old".toUTF8 "new".toUTF8 ∧
      AllOrNothing t p "new" (t.writeArtifact p "new").1 (t.writeArtifact p "new").2 := by
  dsimp only
  have hcollide : ¬ Digest.Blake3.Collide "old".toUTF8 "new".toUTF8 := fun h =>
    absurd h.2 (by decide +kernel)
  refine ⟨rfl, by decide +kernel, by decide +kernel, rfl, hcollide, ?_⟩
  refine writeArtifact_all_or_nothing rfl (by decide +kernel) (by decide +kernel : _ = some "page.rs")
    fun old hold => ?_
  cases hold
  exact hcollide

end FileTree

end Orchestration
