import Orchestration.Proofs.Files.Operations

/-!
# Writing artifacts

An artifact is a name behind a directory whose path never goes up. Creating the directory comes first
and is the same for every artifact in it: either the directory can be followed then, or it can never
be created. In a directory that is there, writing an artifact looks at two places only, that of the
artifact and that of its draft, and changes no other; and writing it again changes nothing.
-/

namespace Orchestration

variable {dir : Path} {name text : String} {t u : FileTree} {l : Location} {e : FileError}
  {result : Except FileError Unit}

namespace FileTree

/-- A directory that no way up leads to can be passed if a file in it can be asked for. -/
theorem passable_of_join (hup : ".." ∉ dir.pieces) (hname : Path.IsName name)
    (hfault : (dir.join name).fault? = none) : Passable dir.isRooted dir.pieces.reverse := by
  constructor
  case clean => exact Path.clean_pieces dir
  case not_up => exact fun hmem => hup (List.mem_reverse.1 hmem)
  case fault =>
    intro s before hsuffix hstep
    have hstarts := Path.text_prefix_ofPieces dir.isRooted hsuffix
    rw [Path.ofPieces_pieces] at hstarts
    refine Path.fault?_of_prefix hfault (hstarts.trans (Path.text_prefix_join hname dir)) ?_
    exact Path.text_ofPieces_ne_empty hstep

theorem Passable.areNames_of_path (h : Passable dir.isRooted dir.pieces.reverse) :
    AreNames dir.names := by
  rw [Path.names_eq]
  exact h.areNames

/-- The directory is there, and the path of the directory can be followed. -/
structure Ready (dir : Path) (t : FileTree) : Prop where
  passable : Passable dir.isRooted dir.pieces.reverse
  grounded : t.Grounded
  walk : t.walk (t.origin dir.isRooted) dir.names = .ok (t.origin dir.isRooted ++ dir.names)

/-- Create a directory, as writing an artifact in it does. -/
def prepare (t : FileTree) (dir : Path) : Except FileError Unit × FileTree :=
  t.createAll (Path.chain dir.isRooted dir.pieces.reverse)

theorem createParent_join (hname : Path.IsName name) (t : FileTree) (dir : Path) :
    t.createParent (dir.join name) = t.prepare dir := by
  rw [createParent, Path.parent?_join hname]
  dsimp only
  rw [prepare, ← Path.bare_ancestors]
  by_cases hempty : dir.bare.text = ""
  · rw [if_pos hempty, createAll, if_pos hempty]
  · rw [if_neg hempty, createDirectories]

theorem Ready.prepare_eq (h : Ready dir t) : t.prepare dir = (.ok (), t) := by
  have hwalk := h.walk
  rw [Path.names_eq] at hwalk
  exact createAll_of_walk h.passable h.grounded hwalk

/-- The place of the directory. -/
theorem Ready.look_directory (h : Ready dir t) :
    t.look (t.origin dir.isRooted ++ dir.names) = .directory := by
  have hnames := h.passable.areNames_of_path
  exact (walk_eq_ok hnames (h.grounded.look_origin dir.isRooted) h.walk).2

/-- Where directories stay, a directory that is there stays there. -/
theorem Ready.of_kept (h : Ready dir t) (hhere : u.here = t.here)
    (hkept : ∀ l, t.look l = .directory → u.look l = .directory) : Ready dir u := by
  have horigin := origin_of_here hhere dir.isRooted
  refine ⟨h.passable, ?_, ?_⟩
  · show u.look u.here = .directory
    rw [hhere]
    exact hkept t.here h.grounded
  · rw [horigin]
    exact walk_of_kept hkept h.walk

/-- A directory whose path leads nowhere is refused in every tree. -/
theorem prepare_of_not_passable (hup : ".." ∉ dir.pieces)
    (h : ¬ Passable dir.isRooted dir.pieces.reverse) :
    ∃ e, ∀ t : FileTree, t.prepare dir = (.error e, t) := by
  have hstep : ∃ s before, s :: before <:+ dir.pieces.reverse ∧
      Path.isStep dir.isRooted s before = true ∧
      (Path.ofPieces dir.isRooted (s :: before)).fault? ≠ none := by
    by_contra hnone
    refine h ⟨Path.clean_pieces dir, fun hmem => hup (List.mem_reverse.1 hmem), ?_⟩
    intro s before hsuffix hstep
    by_contra hfault
    exact hnone ⟨s, before, hsuffix, hstep, hfault⟩
  obtain ⟨s, before, hsuffix, hstep, hfault⟩ := hstep
  have hstarts := Path.text_prefix_ofPieces dir.isRooted (Path.suffix_dropIdle hsuffix hstep)
  have hne := Path.text_ofPieces_ne_empty hstep
  have hbare : dir.bare.text ≠ "" := by
    intro hempty
    rw [show (Path.ofPieces dir.isRooted
      (Path.dropIdle dir.isRooted dir.pieces.reverse)).text = "" from hempty] at hstarts
    exact hne (String.toList_eq_nil_iff.1 (List.prefix_nil.1 hstarts))
  cases hfault' : dir.bare.fault? with
  | none => exact absurd (Path.fault?_of_prefix hfault' hstarts hne) hfault
  | some e =>
    have he : e ≠ .notFound := by
      rintro rfl
      exact Path.fault?_ne_notFound hbare hfault'
    refine ⟨e, fun t => ?_⟩
    have htarget : t.target dir.bare = .error e := by rw [target, hfault']
    have hcreate : t.createDirectory dir.bare = .error e := by rw [createDirectory, htarget]
    have hdir : t.isDirectory dir.bare = false := by
      rw [isDirectory, stat, htarget]
      rfl
    rw [prepare, ← Path.bare_ancestors, createAll, if_neg hbare, hcreate, hdir]
    cases e with
    | notFound => exact absurd rfl he
    | _ => rfl

/-- Creating the directory makes it ready, or it will be refused again in the same way. -/
theorem prepare_cases (hup : ".." ∉ dir.pieces) (hg : t.Grounded) (hmade : t.prepare dir = (result, u)) :
    t.Extends u ∧ ((result = .ok () ∧ Ready dir u) ∨
      ∃ e, result = .error e ∧ u.prepare dir = (.error e, u)) := by
  by_cases hpassable : Passable dir.isRooted dir.pieces.reverse
  · have hcreation := creation hpassable hg
    rw [show t.createAll (Path.chain dir.isRooted dir.pieces.reverse) = (result, u) from hmade]
      at hcreation
    refine ⟨hcreation.more, ?_⟩
    cases result with
    | ok value =>
      refine Or.inl ⟨rfl, hpassable, hcreation.more.grounded hg, ?_⟩
      rw [Path.names_eq]
      exact hcreation.reached rfl
    | error e => exact Or.inr ⟨e, rfl, hcreation.refused e rfl⟩
  · obtain ⟨e, he⟩ := prepare_of_not_passable hup hpassable
    rw [he t] at hmade
    cases hmade
    exact ⟨Extends.rfl t, Or.inr ⟨e, rfl, he t⟩⟩

/-- A directory that was created is ready. -/
theorem ready_prepare (hup : ".." ∉ dir.pieces) (hg : t.Grounded)
    (hmade : (t.prepare dir).1 = .ok ()) : Ready dir (t.prepare dir).2 := by
  generalize hresult : t.prepare dir = made at hmade ⊢
  obtain ⟨result, u⟩ := made
  obtain ⟨-, ⟨-, hready⟩ | ⟨e, rfl, -⟩⟩ := prepare_cases hup hg hresult
  · exact hready
  · cases hmade

end FileTree

/-! ## A file in a directory -/

/-- Why a name behind a directory cannot be asked for in any tree. -/
def Path.obstacle? (dir : Path) (name : String) : Option FileError :=
  match (dir.join name).fault? with
  | some e => some e
  | none => if maxNameSize < name.utf8ByteSize then some .nameTooLong else none

namespace FileTree

theorem target_join (hname : Path.IsName name)
    (hwalk : t.walk (t.origin dir.isRooted) dir.names = .ok l) :
    t.target (dir.join name) =
      match dir.obstacle? name with
      | some e => .error e
      | none => .ok (.entry l name false) := by
  have hsteps := Path.steps_join hname dir
  have hrooted := (Path.pieces_join hname.slashless dir).1
  unfold Path.obstacle?
  cases hfault : (dir.join name).fault? with
  | some e => rw [target, hfault]
  | none =>
    rw [target_of_steps hsteps hname.not_here hname.not_up hfault, hrooted,
      Path.endsInSlash_join hname]
    rw [show (dir.steps.filter fun s => s ≠ ".") = dir.names from rfl, hwalk]
    dsimp only
    split <;> rfl

theorem target_join_of_error (hname : Path.IsName name)
    (hwalk : t.walk (t.origin dir.isRooted) dir.names = .error e) :
    ∃ e', t.target (dir.join name) = .error e' := by
  have hsteps := Path.steps_join hname dir
  have hrooted := (Path.pieces_join hname.slashless dir).1
  cases hfault : (dir.join name).fault? with
  | some e' => exact ⟨e', by rw [target, hfault]⟩
  | none =>
    refine ⟨e, ?_⟩
    rw [target_of_steps hsteps hname.not_here hname.not_up hfault, hrooted]
    rw [show (dir.steps.filter fun s => s ≠ ".") = dir.names from rfl, hwalk]

/-! ## Writing in a directory that is there -/

/-- What becomes of an artifact: whether it was written, and what is then seen at its place and at the
place of its draft. -/
structure Settled where
  result : Except FileError Bool
  place : Seen
  draft : Seen

/-- Whether a text is at its place already. Nothing can be told of a place that cannot be asked for. -/
def upToDate (text : String) : Option FileError → Seen → Bool
  | none, .file old => Digest.ofText old = Digest.ofText text
  | _, _ => false

/-- What becomes of an artifact whose draft was written. The draft is gone afterwards. -/
def settlePlace (text : String) : Option FileError → Seen → Settled
  | some e, place => ⟨.error e, place, .nothing⟩
  | none, .directory => ⟨.error .isDirectory, .directory, .nothing⟩
  | none, _ => ⟨.ok true, .file text, .nothing⟩

/-- What becomes of an artifact in a directory that is there, by what keeps its path and that of its
draft from being asked for, and by what is seen there. -/
def settle (text : String) (obstacle beside : Option FileError) (place draft : Seen) : Settled :=
  if upToDate text obstacle place then ⟨.ok false, place, draft⟩
  else
    match beside, draft with
    | some e, draft => ⟨.error e, place, draft⟩
    | none, .directory => ⟨.error .isDirectory, place, .directory⟩
    | none, _ => settlePlace text obstacle place

theorem upToDate_self (text : String) : upToDate text none (.file text) = true :=
  decide_eq_true rfl

section Settle

variable {obstacle beside : Option FileError} {place draft : Seen}

theorem settle_of_upToDate (h : upToDate text obstacle place = true) :
    settle text obstacle beside place draft = ⟨.ok false, place, draft⟩ := by
  unfold settle
  rw [if_pos h]

theorem settle_of_obstacle (h : upToDate text obstacle place = false) :
    settle text obstacle (some e) place draft = ⟨.error e, place, draft⟩ := by
  unfold settle
  rw [h, if_neg Bool.false_ne_true]

theorem settle_of_directory (h : upToDate text obstacle place = false) :
    settle text obstacle none place .directory = ⟨.error .isDirectory, place, .directory⟩ := by
  unfold settle
  rw [h, if_neg Bool.false_ne_true]

theorem settle_of_free (h : upToDate text obstacle place = false) (hdraft : draft ≠ .directory) :
    settle text obstacle none place draft = settlePlace text obstacle place := by
  unfold settle
  rw [h, if_neg Bool.false_ne_true]
  cases draft with
  | directory => exact absurd rfl hdraft
  | nothing => rfl
  | file old => rfl

/-- What has become of an artifact stays so, but it is not written again. -/
theorem settle_settle (text : String) (obstacle beside : Option FileError) (place draft : Seen) :
    settle text obstacle beside (settle text obstacle beside place draft).place
        (settle text obstacle beside place draft).draft =
      ⟨(settle text obstacle beside place draft).result.map fun _ => false,
        (settle text obstacle beside place draft).place,
        (settle text obstacle beside place draft).draft⟩ := by
  cases hdone : upToDate text obstacle place with
  | true =>
    rw [settle_of_upToDate hdone]
    exact settle_of_upToDate hdone
  | false =>
    cases beside with
    | some e =>
      rw [settle_of_obstacle hdone]
      exact settle_of_obstacle hdone
    | none =>
      have hcleared : Seen.nothing ≠ .directory := fun h => nomatch h
      by_cases hdraft : draft = .directory
      · rw [hdraft, settle_of_directory hdone]
        exact settle_of_directory hdone
      · rw [settle_of_free hdone hdraft]
        cases obstacle with
        | some e => exact settle_of_free hdone hcleared
        | none =>
          cases place with
          | directory => exact settle_of_free hdone hcleared
          | nothing => exact settle_of_upToDate (upToDate_self text)
          | file old => exact settle_of_upToDate (upToDate_self text)

/-- A directory is never replaced. -/
theorem settle_place_directory (text : String) (obstacle beside : Option FileError) (draft : Seen) :
    (settle text obstacle beside .directory draft).place = .directory := by
  have hdone : upToDate text obstacle .directory = false := by cases obstacle <;> rfl
  cases beside with
  | some e => rw [settle_of_obstacle hdone]
  | none =>
    by_cases hdraft : draft = .directory
    · rw [hdraft, settle_of_directory hdone]
    · rw [settle_of_free hdone hdraft]
      cases obstacle <;> rfl

theorem settle_draft_directory (text : String) (obstacle beside : Option FileError) (place : Seen) :
    (settle text obstacle beside place .directory).draft = .directory := by
  cases hdone : upToDate text obstacle place with
  | true => rw [settle_of_upToDate hdone]
  | false =>
    cases beside with
    | some e => rw [settle_of_obstacle hdone]
    | none => rw [settle_of_directory hdone]

end Settle

theorem append_singleton_ne (d : Location) (n : String) : d ≠ d ++ [n] := by
  intro heq
  have hlength := congrArg List.length heq
  rw [List.length_append, List.length_singleton] at hlength
  omega

theorem place_ne_draft (d : Location) (n : String) : d ++ [n] ≠ d ++ [n ++ ".tmp"] := by
  intro heq
  have hnames := List.cons_eq_cons.1 (List.append_cancel_left heq)
  have hlist := congrArg String.toList hnames.1
  rw [String.toList_append] at hlist
  have hlength := congrArg List.length hlist
  simp at hlength

section Writing

variable (hname : Path.IsName name) (hdraft : Path.IsName (name ++ ".tmp")) (hready : Ready dir t)

include hname hready

theorem holds_join : t.holds (dir.join name) text =
    upToDate text (dir.obstacle? name)
      (t.look (t.origin dir.isRooted ++ dir.names ++ [name])) := by
  have htarget := target_join hname hready.walk
  unfold holds
  cases hobstacle : dir.obstacle? name with
  | some e =>
    rw [hobstacle] at htarget
    have hread : t.read (dir.join name) = .error e := by
      rw [read, stat, htarget]
    rw [hread]
    rfl
  | none =>
    rw [hobstacle] at htarget
    rw [read_entry htarget]
    cases t.look (t.origin dir.isRooted ++ dir.names ++ [name]) <;> rfl

include hdraft

theorem target_draft :
    t.target (dir.join name).draft =
      match dir.bare.obstacle? (name ++ ".tmp") with
      | some e => .error e
      | none => .ok (.entry (t.origin dir.isRooted ++ dir.names) (name ++ ".tmp") false) := by
  have hwalk := hready.walk
  rw [← Path.isRooted_bare, ← Path.names_bare] at hwalk
  rw [Path.draft_join hname, target_join hdraft hwalk, Path.isRooted_bare, Path.names_bare]

/-- A draft that can be written is moved to its place or removed again. -/
theorem replace_of_drafted (hbeside : dir.bare.obstacle? (name ++ ".tmp") = none)
    (hfree : t.look (t.origin dir.isRooted ++ dir.names ++ [name ++ ".tmp"]) ≠ .directory) :
    t.replace (dir.join name) text =
      let place := t.origin dir.isRooted ++ dir.names ++ [name]
      let beside := t.origin dir.isRooted ++ dir.names ++ [name ++ ".tmp"]
      let cleared := (t.put beside (.file text)).erase beside
      match (settlePlace text (dir.obstacle? name) (t.look place)).result with
      | .error e => (.error e, cleared)
      | .ok _ => (.ok (), cleared.put place (.file text)) := by
  dsimp only
  have hdir := hready.look_directory
  have htarget := target_draft hname hdraft hready
  rw [hbeside] at htarget
  have hwrite : t.write (dir.join name).draft text = _ := write_entry htarget
  rw [if_neg hfree] at hwrite
  -- The drafted tree
  have hlook := look_put_file hdir hfree text
  generalize hdrafted : t.put (t.origin dir.isRooted ++ dir.names ++ [name ++ ".tmp"]) (.file text) =
    drafted at hwrite hlook
  have hready' : Ready dir drafted := by
    refine hready.of_kept (by rw [← hdrafted]; rfl) fun l hl => ?_
    rw [hlook, if_neg, hl]
    rintro rfl
    exact hfree hl
  have horigin : drafted.origin dir.isRooted = t.origin dir.isRooted := by
    rw [← hdrafted]
    rfl
  have htarget' := target_draft hname hdraft hready'
  rw [hbeside, horigin] at htarget'
  have hgoal := target_join hname hready'.walk
  rw [horigin] at hgoal
  have hthere := hlook (t.origin dir.isRooted ++ dir.names ++ [name ++ ".tmp"])
  rw [if_pos rfl] at hthere
  have hremove := removeFile_entry htarget' hthere
  have hne := place_ne_draft (t.origin dir.isRooted ++ dir.names) name
  have hplace := hlook (t.origin dir.isRooted ++ dir.names ++ [name])
  rw [if_neg hne] at hplace
  unfold replace
  rw [hwrite]
  dsimp only
  rw [hremove]
  cases hobstacle : dir.obstacle? name with
  | some e =>
    rw [hobstacle] at hgoal
    rw [rename_of_error htarget' hgoal]
    rfl
  | none =>
    rw [hobstacle] at hgoal
    rw [rename_entry htarget' hgoal hthere, hplace]
    cases t.look (t.origin dir.isRooted ++ dir.names ++ [name]) with
    | directory => rfl
    | nothing => rfl
    | file old => rfl

theorem replace_of_obstacle (hbeside : dir.bare.obstacle? (name ++ ".tmp") = some e) :
    t.replace (dir.join name) text = (.error e, t) := by
  have htarget := target_draft hname hdraft hready
  rw [hbeside] at htarget
  unfold replace
  rw [write_of_error htarget]

theorem replace_of_directory (hbeside : dir.bare.obstacle? (name ++ ".tmp") = none)
    (hdirectory : t.look (t.origin dir.isRooted ++ dir.names ++ [name ++ ".tmp"]) = .directory) :
    t.replace (dir.join name) text = (.error .isDirectory, t) := by
  have htarget := target_draft hname hdraft hready
  rw [hbeside] at htarget
  unfold replace
  rw [write_entry htarget, if_pos hdirectory]

omit hdraft in
/-- An artifact that is not up to date is written, since its directory is there. -/
theorem writeArtifact_of_outdated (hdone : upToDate text (dir.obstacle? name)
      (t.look (t.origin dir.isRooted ++ dir.names ++ [name])) = false) :
    t.writeArtifact (dir.join name) text =
      ((t.replace (dir.join name) text).1.map fun _ => true,
        (t.replace (dir.join name) text).2) := by
  rw [writeArtifact, holds_join hname hready, hdone, if_neg Bool.false_ne_true,
    createParent_join hname, hready.prepare_eq]
  dsimp only
  generalize t.replace (dir.join name) text = replaced
  obtain ⟨result, u⟩ := replaced
  cases result <;> rfl

end Writing

/-- A draft that is written and removed again leaves nothing where it was. -/
theorem look_cleared {d : Location} {n : String} (hdir : t.look d = .directory)
    (hfree : t.look (d ++ [n]) ≠ .directory) (text : String) (l : Location) :
    ((t.put (d ++ [n]) (.file text)).erase (d ++ [n])).look l =
      if l = d ++ [n] then .nothing else t.look l := by
  have hput := look_put_file hdir hfree text
  have hdir' : (t.put (d ++ [n]) (.file text)).look d = .directory := by
    rw [hput, if_neg (append_singleton_ne d n), hdir]
  have hfree' : (t.put (d ++ [n]) (.file text)).look (d ++ [n]) ≠ .directory := by
    rw [hput, if_pos rfl]
    exact fun heq => nomatch heq
  rw [look_erase hdir' hfree', hput]
  by_cases hl : l = d ++ [n]
  · rw [if_pos hl, if_pos hl]
  · rw [if_neg hl, if_neg hl, if_neg hl]

/-- A tree that differs from another at the place of an artifact and at that of its draft only, in
accordance with what became of the artifact. -/
structure SettledAt (dir : Path) (name : String) (t : FileTree) (fate : Settled)
    (u : FileTree) : Prop where
  here : u.here = t.here
  look : ∀ l, u.look l =
    if l = t.origin dir.isRooted ++ dir.names ++ [name] then fate.place
    else if l = t.origin dir.isRooted ++ dir.names ++ [name ++ ".tmp"] then fate.draft
    else t.look l

namespace SettledAt

variable {settled : Settled}

theorem look_place (h : SettledAt dir name t settled u) :
    u.look (u.origin dir.isRooted ++ dir.names ++ [name]) = settled.place := by
  rw [origin_of_here h.here, h.look, if_pos rfl]

theorem look_draft (h : SettledAt dir name t settled u) :
    u.look (u.origin dir.isRooted ++ dir.names ++ [name ++ ".tmp"]) = settled.draft := by
  have hne := place_ne_draft (t.origin dir.isRooted ++ dir.names) name
  rw [origin_of_here h.here, h.look, if_neg hne.symm, if_pos rfl]

end SettledAt

/-- Once the draft is gone, the artifact is put to its place if it can be. -/
theorem settledAt_of_cleared {cleared : FileTree}
    (hdir : t.look (t.origin dir.isRooted ++ dir.names) = .directory)
    (hhere : cleared.here = t.here)
    (hcleared : ∀ l, cleared.look l =
      if l = t.origin dir.isRooted ++ dir.names ++ [name ++ ".tmp"] then .nothing else t.look l)
    (obstacle : Option FileError) :
    let place := t.origin dir.isRooted ++ dir.names ++ [name]
    let fate := settlePlace text obstacle (t.look place)
    let replaced : Except FileError Unit × FileTree :=
      match fate.result with
      | .error e => (.error e, cleared)
      | .ok _ => (.ok (), cleared.put place (.file text))
    (replaced.1.map fun _ => true) = fate.result ∧ SettledAt dir name t fate replaced.2 := by
  dsimp only
  have hne := place_ne_draft (t.origin dir.isRooted ++ dir.names) name
  have hremoved : ∀ l, cleared.look l =
      if l = t.origin dir.isRooted ++ dir.names ++ [name] then
        t.look (t.origin dir.isRooted ++ dir.names ++ [name])
      else if l = t.origin dir.isRooted ++ dir.names ++ [name ++ ".tmp"] then .nothing
      else t.look l := by
    intro l
    rw [hcleared]
    by_cases hl : l = t.origin dir.isRooted ++ dir.names ++ [name]
    · rw [hl, if_neg hne, if_pos rfl]
    · rw [if_neg hl]
  cases obstacle with
  | some e => exact ⟨rfl, hhere, hremoved⟩
  | none =>
    cases hplace : t.look (t.origin dir.isRooted ++ dir.names ++ [name]) with
    | directory =>
      rw [hplace] at hremoved
      exact ⟨rfl, hhere, hremoved⟩
    | nothing | file old =>
      refine ⟨rfl, hhere, fun l => ?_⟩
      have hdir' : cleared.look (t.origin dir.isRooted ++ dir.names) = .directory := by
        rw [hcleared, if_neg (append_singleton_ne _ _), hdir]
      have hplace' : cleared.look (t.origin dir.isRooted ++ dir.names ++ [name]) ≠ .directory := by
        rw [hcleared, if_neg hne, hplace]
        exact fun heq => nomatch heq
      have hput := look_put_file hdir' hplace' text l
      rw [hcleared] at hput
      exact hput

/-- What becomes of an artifact in a directory that is there. -/
def fate (t : FileTree) (dir : Path) (name text : String) : Settled :=
  settle text (dir.obstacle? name) (dir.bare.obstacle? (name ++ ".tmp"))
    (t.look (t.origin dir.isRooted ++ dir.names ++ [name]))
    (t.look (t.origin dir.isRooted ++ dir.names ++ [name ++ ".tmp"]))

/-- A directory stays where artifacts are written in it. -/
theorem SettledAt.ready (h : SettledAt dir name t (t.fate dir name text) u) (hready : Ready dir t) :
    Ready dir u := by
  refine hready.of_kept h.here fun l hl => ?_
  rw [h.look]
  unfold fate
  split
  · rename_i hplace
    rw [← hplace, hl]
    exact settle_place_directory ..
  · split
    · rename_i hplace
      rw [← hplace, hl]
      exact settle_draft_directory ..
    · exact hl

/-- What becomes of an artifact is told by what is at its place and at that of its draft. -/
theorem writeArtifact_ready (hname : Path.IsName name) (hdraft : Path.IsName (name ++ ".tmp"))
    (hready : Ready dir t) (text : String) :
    (t.writeArtifact (dir.join name) text).1 = (t.fate dir name text).result ∧
      SettledAt dir name t (t.fate dir name text) (t.writeArtifact (dir.join name) text).2 := by
  unfold fate
  have hdir := hready.look_directory
  have hsame : ∀ l, t.look l =
      if l = t.origin dir.isRooted ++ dir.names ++ [name] then
        t.look (t.origin dir.isRooted ++ dir.names ++ [name])
      else if l = t.origin dir.isRooted ++ dir.names ++ [name ++ ".tmp"] then
        t.look (t.origin dir.isRooted ++ dir.names ++ [name ++ ".tmp"])
      else t.look l := by
    intro l
    split
    · rename_i hl
      rw [hl]
    · split
      · rename_i hl
        rw [hl]
      · rfl
  cases hdone : upToDate text (dir.obstacle? name)
      (t.look (t.origin dir.isRooted ++ dir.names ++ [name])) with
  | true =>
    have hwrite : t.writeArtifact (dir.join name) text = (.ok false, t) := by
      rw [writeArtifact, holds_join hname hready, hdone, if_pos rfl]
    rw [hwrite]
    unfold settle
    rw [hdone, if_pos rfl]
    exact ⟨rfl, rfl, hsame⟩
  | false =>
    rw [writeArtifact_of_outdated hname hready hdone]
    cases hbeside : dir.bare.obstacle? (name ++ ".tmp") with
    | some e =>
      rw [replace_of_obstacle hname hdraft hready hbeside, settle_of_obstacle hdone]
      exact ⟨rfl, rfl, hsame⟩
    | none =>
      by_cases hfree : t.look (t.origin dir.isRooted ++ dir.names ++ [name ++ ".tmp"]) = .directory
      · rw [hfree] at hsame ⊢
        rw [replace_of_directory hname hdraft hready hbeside hfree, settle_of_directory hdone]
        exact ⟨rfl, rfl, hsame⟩
      · rw [settle_of_free hdone hfree,
          replace_of_drafted hname hdraft hready hbeside hfree]
        have hcleared := look_cleared hdir hfree text
        have hhere : ((t.put (t.origin dir.isRooted ++ dir.names ++ [name ++ ".tmp"])
            (.file text)).erase (t.origin dir.isRooted ++ dir.names ++ [name ++ ".tmp"])).here =
            t.here := rfl
        exact settledAt_of_cleared hdir hhere hcleared _

/-! ## Writing where the directory may be missing -/

/-- A file with the text of an artifact lies in a directory that is there. -/
theorem ready_of_holds (hup : ".." ∉ dir.pieces) (hg : t.Grounded) (hname : Path.IsName name)
    (h : t.holds (dir.join name) text = true) : Ready dir t := by
  have hread : ∀ e, t.target (dir.join name) ≠ .error e := by
    intro e htarget
    have hread : t.read (dir.join name) = .error e := by
      unfold read stat
      rw [htarget]
    unfold holds at h
    rw [hread] at h
    cases h
  have hfault : (dir.join name).fault? = none := by
    cases hfault : (dir.join name).fault? with
    | none => rfl
    | some e =>
      refine absurd ?_ (hread e)
      unfold target
      rw [hfault]
  have hpassable := passable_of_join hup hname hfault
  have hnames := hpassable.areNames_of_path
  cases hwalk : t.walk (t.origin dir.isRooted) dir.names with
  | error e =>
    obtain ⟨e', htarget⟩ := target_join_of_error hname hwalk
    exact absurd htarget (hread e')
  | ok l =>
    obtain ⟨rfl, -⟩ := walk_eq_ok hnames (hg.look_origin dir.isRooted) hwalk
    exact ⟨hpassable, hg, hwalk⟩

/-- Creating directories brings no file to where it was not. -/
theorem holds_of_extends (hup : ".." ∉ dir.pieces) (hg : t.Grounded) (hname : Path.IsName name)
    (hmore : t.Extends u) (h : u.holds (dir.join name) text = true) :
    t.holds (dir.join name) text = true := by
  have hready := ready_of_holds hup (hmore.grounded hg) hname h
  have hholds := h
  rw [holds_join hname hready, hmore.origin] at hholds
  have hplace : u.look (t.origin dir.isRooted ++ dir.names ++ [name]) =
      t.look (t.origin dir.isRooted ++ dir.names ++ [name]) := by
    rcases hmore.look (t.origin dir.isRooted ++ dir.names ++ [name]) with heq | ⟨-, hdirectory⟩
    · exact heq
    · rw [hdirectory] at hholds
      cases hobstacle : dir.obstacle? name <;> rw [hobstacle] at hholds <;> cases hholds
  rw [hplace] at hholds
  have hdir : t.look (t.origin dir.isRooted ++ dir.names) = .directory := by
    by_contra hnot
    rw [look_append_of_ne_directory hnot (List.cons_ne_nil name [])] at hholds
    cases hobstacle : dir.obstacle? name <;> rw [hobstacle] at hholds <;> cases hholds
  have hnames := hready.passable.areNames_of_path
  have hwalk := hready.walk
  rw [hmore.origin] at hwalk
  have hready' : Ready dir t := ⟨hready.passable, hg, walk_of_look hnames hwalk hdir⟩
  rw [holds_join hname hready', hholds]

/-- Where the directory cannot be created no artifact is written. -/
theorem writeArtifact_of_refused (hup : ".." ∉ dir.pieces) (hg : t.Grounded)
    (hname : Path.IsName name) (hrefused : t.prepare dir = (.error e, t)) :
    t.writeArtifact (dir.join name) text = (.error e, t) := by
  cases hholds : t.holds (dir.join name) text with
  | true =>
    have hready := ready_of_holds hup hg hname hholds
    rw [hready.prepare_eq] at hrefused
    cases hrefused
  | false =>
    unfold writeArtifact
    rw [hholds, if_neg Bool.false_ne_true, createParent_join hname, hrefused]

/-- Writing an artifact comes to the same if its directory is created first. -/
theorem writeArtifact_prepare (hup : ".." ∉ dir.pieces) (hg : t.Grounded)
    (hname : Path.IsName name) :
    t.writeArtifact (dir.join name) text = (t.prepare dir).2.writeArtifact (dir.join name) text := by
  cases hholds : t.holds (dir.join name) text with
  | true => rw [(ready_of_holds hup hg hname hholds).prepare_eq]
  | false =>
    generalize hmade : t.prepare dir = made
    obtain ⟨result, u⟩ := made
    obtain ⟨hmore, hcases⟩ := prepare_cases hup hg hmade
    have hholds' : u.holds (dir.join name) text = false := by
      rw [← Bool.not_eq_true]
      intro h
      rw [holds_of_extends hup hg hname hmore h] at hholds
      cases hholds
    have hagain : u.prepare dir = (result, u) := by
      rcases hcases with ⟨rfl, hready⟩ | ⟨e, rfl, hrefused⟩
      · exact hready.prepare_eq
      · exact hrefused
    unfold writeArtifact
    rw [hholds, hholds', if_neg Bool.false_ne_true, if_neg Bool.false_ne_true,
      createParent_join hname, createParent_join hname, hmade, hagain]

end FileTree

end Orchestration
