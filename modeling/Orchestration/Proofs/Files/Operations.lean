import Orchestration.Proofs.Files.Directories

/-!
# Operations on any path

A path may go up, and it may end in slashes or dots. Whatever it is like, an operation that succeeds
puts, takes away or moves what is at one name in a directory that is there, and no directory is lost.
So a path that asks for something in the tree before asks for the same in the tree after, and creating
directories adds none but those that the paths in question lead to.
-/

namespace Orchestration

namespace FileTree

variable {t u v : FileTree} {l l' d d' : Location} {s n n' text : String} {ss : List String}
  {p q : Path} {ps : List Path} {e : FileError} {slash : Bool} {result : Except FileError Unit}

/-! ## Directories that stay -/

/-- Every directory of the first tree is one of the second. -/
structure Retains (t u : FileTree) : Prop where
  here : u.here = t.here
  directory : ∀ l, t.look l = .directory → u.look l = .directory

namespace Retains

theorem rfl (t : FileTree) : t.Retains t :=
  ⟨Eq.refl t.here, fun _ hl => hl⟩

theorem trans (h : t.Retains v) (h' : v.Retains u) : t.Retains u :=
  ⟨h'.here.trans h.here, fun l hl => h'.directory l (h.directory l hl)⟩

theorem grounded (h : t.Retains u) (hg : t.Grounded) : u.Grounded := by
  show u.look u.here = .directory
  rw [h.here]
  exact h.directory t.here hg

theorem start (h : t.Retains u) (p : Path) : u.start p = t.start p :=
  origin_of_here h.here p.isRooted

end Retains

theorem Extends.retains (h : t.Extends u) : t.Retains u :=
  ⟨h.here, fun _ => h.directory⟩

/-- A change at one place loses no directory if none was there. -/
theorem retains_of_look (hhere : u.here = t.here) (hfree : t.look l ≠ .directory)
    (hlook : ∀ m, m ≠ l → u.look m = t.look m) : t.Retains u := by
  refine ⟨hhere, fun m hm => ?_⟩
  rw [hlook m, hm]
  rintro rfl
  exact hfree hm

theorem look_dropLast (h : t.look l = .directory) : t.look l.dropLast = .directory := by
  rcases List.eq_nil_or_concat' l with rfl | ⟨front, x, rfl⟩
  · exact h
  · rw [List.dropLast_concat]
    by_contra hnot
    rw [look_append_of_ne_directory hnot (List.cons_ne_nil x [])] at h
    cases h

/-- Steps lead from a directory to a directory. -/
theorem look_of_walk (hl : t.look l = .directory) (h : t.walk l ss = .ok l') :
    t.look l' = .directory := by
  induction ss generalizing l with
  | nil =>
    cases h
    exact hl
  | cons s rest ih =>
    rw [walk] at h
    cases hstep : t.step l s with
    | error e =>
      rw [hstep] at h
      cases h
    | ok l₁ =>
      rw [hstep] at h
      refine ih ?_ h
      by_cases hhere : s = "."
      · rw [step, if_pos hhere] at hstep
        cases hstep
        exact hl
      · by_cases hup : s = ".."
        · rw [step, if_neg hhere, if_pos hup] at hstep
          cases hstep
          exact look_dropLast hl
        · obtain ⟨rfl, -, hlook⟩ := step_eq_ok hhere hup hstep
          exact hlook

theorem Grounded.look_start (hg : t.Grounded) (p : Path) : t.look (t.start p) = .directory :=
  hg.look_origin p.isRooted

/-! ## What a path asks for -/

/-- Following a path, one directory after another, leads to a place. -/
def LeadsTo (t : FileTree) (p : Path) (l : Location) : Prop :=
  t.walk (t.start p) p.steps = .ok l

theorem LeadsTo.look (h : t.LeadsTo p l) (hg : t.Grounded) : t.look l = .directory :=
  look_of_walk (hg.look_start p) h

theorem LeadsTo.retained (h : t.LeadsTo p l) (hkept : t.Retains u) : u.LeadsTo p l := by
  rw [LeadsTo, hkept.start]
  exact walk_of_kept hkept.directory h

theorem LeadsTo.unique (h : t.LeadsTo p l) (h' : t.LeadsTo p l') : l = l' :=
  Except.ok.inj (h.symm.trans h')

/-- A path that asks for a name in a directory leads to the directory with its steps before the
name. -/
theorem target_eq_entry (h : t.target p = .ok (.entry d n slash)) :
    t.walk (t.start p) p.steps.dropLast = .ok d ∧ p.steps.getLast? = some n ∧
      (n ≠ "." ∧ n ≠ "..") ∧ n.utf8ByteSize ≤ Path.maxNameSize := by
  unfold target at h
  split at h
  · cases h
  · split at h
    · cases h
    · rename_i dir hwalk
      split at h
      · cases h
      · cases h
      · cases h
      · rename_i name hhere hup hlast
        split at h
        · cases h
        · rename_i hsize
          cases h
          refine ⟨hwalk, hlast, ⟨?_, ?_⟩, Nat.not_lt.1 hsize⟩
          · rintro rfl
            exact hhere rfl
          · rintro rfl
            exact hup rfl

theorem look_of_reached (hg : t.Grounded) (h : t.target p = .ok (.reached l)) :
    t.look l = .directory := by
  unfold target at h
  split at h
  · cases h
  · split at h
    · cases h
    · rename_i dir hwalk
      have hdir := look_of_walk (hg.look_start p) hwalk
      split at h
      · cases h
        exact hdir
      · cases h
        exact hdir
      · cases h
        exact look_dropLast hdir
      · split at h <;> cases h

theorem look_of_target (hg : t.Grounded) (h : t.target p = .ok (.entry d n slash)) :
    t.look d = .directory :=
  look_of_walk (hg.look_start p) (target_eq_entry h).1

/-- Where directories stay, a path asks for what it asked for. -/
theorem Retains.target {x : Path.Target} (hkept : t.Retains u) (h : t.target p = .ok x) :
    u.target p = .ok x := by
  unfold FileTree.target at h ⊢
  rw [hkept.start]
  split at h
  · cases h
  · split at h
    · cases h
    · rename_i dir hwalk
      rw [walk_of_kept hkept.directory hwalk]
      exact h

/-- Once its last name is a directory, a path leads to it. -/
theorem leadsTo_of_target (h : t.target p = .ok (.entry d n slash))
    (hlook : t.look (d ++ [n]) = .directory) : t.LeadsTo p (d ++ [n]) := by
  obtain ⟨hwalk, hlast, ⟨hhere, hup⟩, hsize⟩ := target_eq_entry h
  have hsteps : p.steps = p.steps.dropLast ++ [n] := (List.dropLast_append_getLast? n hlast).symm
  rw [LeadsTo, hsteps, walk_concat hhere hup hwalk, if_neg (Nat.not_lt.2 hsize), hlook]

/-! ## Paths that never go up -/

/-- The place that a path names if it never goes up. -/
def place (t : FileTree) (p : Path) : Location :=
  t.origin p.isRooted ++ p.names

theorem place_of_here (h : u.here = t.here) (p : Path) : u.place p = t.place p := by
  rw [place, place, origin_of_here h]

section NeverUp

variable (hg : t.Grounded) (hup : ".." ∉ p.names)

include hup in
theorem areNames_of_notMem : AreNames p.names := by
  intro s hs
  refine ⟨by simpa using (List.mem_filter.1 hs).2, ?_⟩
  rintro rfl
  exact hup hs

include hup in
theorem areNames_dropLast : AreNames (p.steps.dropLast.filter fun s => s ≠ ".") := by
  intro s hs
  obtain ⟨hmem, hdot⟩ := List.mem_filter.1 hs
  exact areNames_of_notMem hup s (List.mem_filter.2 ⟨List.mem_of_mem_dropLast hmem, hdot⟩)

include hg hup

/-- If such a path leads anywhere, then to its place, which stays where it is. -/
theorem LeadsTo.eq_place (hkept : t.Retains u) (h : u.LeadsTo p l) : l = t.place p := by
  rw [LeadsTo, ← walk_filter] at h
  rw [← place_of_here hkept.here]
  exact (walk_eq_ok (areNames_of_notMem hup) ((hkept.grounded hg).look_start p) h).1

/-- Such a path asks for what is at its place, whatever the tree is like. -/
theorem place_of_target (h : t.target p = .ok (.entry d n slash)) : d ++ [n] = t.place p := by
  obtain ⟨hwalk, hlast, ⟨hhere, -⟩, -⟩ := target_eq_entry h
  have hnames : p.names = (p.steps.dropLast.filter fun s => s ≠ ".") ++ [n] := by
    rw [Path.names, ← List.dropLast_append_getLast? n hlast, List.filter_append,
      List.dropLast_concat]
    simp [hhere]
  rw [← walk_filter] at hwalk
  obtain ⟨rfl, -⟩ := walk_eq_ok (areNames_dropLast hup) (hg.look_start p) hwalk
  rw [place, hnames, ← List.append_assoc]
  rfl

end NeverUp

/-! ## Operations on entries -/

theorem look_eq_nothing_iff : t.look l = .nothing ↔ t.find? l = none := by
  rw [look]
  rcases t.find? l with _ | (old | es) <;> simp [FileNode.seen]

theorem look_eq_file_iff : t.look l = .file text ↔ t.find? l = some (.file text) := by
  rw [look]
  rcases t.find? l with _ | (old | es) <;> simp [FileNode.seen]

theorem read_entry (h : t.target p = .ok (.entry d n false)) : t.read p =
    match t.look (d ++ [n]) with
    | .nothing => .error .notFound
    | .directory => .error .isDirectory
    | .file old => .ok old := by
  rw [read, stat, h]
  dsimp only
  rw [look]
  rcases t.find? (d ++ [n]) with _ | (old | es) <;> rfl

theorem write_of_error (h : t.target p = .error e) : t.write p text = .error e := by
  rw [write, h]

theorem rename_of_error {d : Path.Target} (h : t.target p = .ok d) (h' : t.target q = .error e) :
    t.rename p q = .error e := by
  rw [rename, h, h']

theorem write_entry (h : t.target p = .ok (.entry d n false)) : t.write p text =
    if t.look (d ++ [n]) = .directory then .error .isDirectory
    else .ok (t.put (d ++ [n]) (.file text)) := by
  rw [write, h]
  dsimp only
  rw [look]
  rcases t.find? (d ++ [n]) with _ | (old | es) <;> rfl

theorem removeFile_entry (h : t.target p = .ok (.entry d n false)) {old : String}
    (hold : t.look (d ++ [n]) = .file old) : t.removeFile p = .ok (t.erase (d ++ [n])) := by
  rw [look] at hold
  rw [removeFile, h]
  dsimp only
  rcases hfind : t.find? (d ++ [n]) with _ | (old | es)
  · rw [hfind] at hold
    cases hold
  · rfl
  · rw [hfind] at hold
    cases hold

theorem rename_entry (h : t.target p = .ok (.entry d n false))
    (h' : t.target q = .ok (.entry d' n' false)) (hold : t.look (d ++ [n]) = .file text) :
    t.rename p q =
      if t.look (d' ++ [n']) = .directory then .error .isDirectory
      else .ok ((t.erase (d ++ [n])).put (d' ++ [n']) (.file text)) := by
  rw [look] at hold
  rw [rename, h, h']
  dsimp only
  rcases hfind : t.find? (d ++ [n]) with _ | (old | es)
  · rw [hfind] at hold
    cases hold
  · rw [hfind] at hold
    cases hold
    dsimp only
    rw [look]
    rcases t.find? (d' ++ [n']) with _ | (old | es) <;> rfl
  · rw [hfind] at hold
    cases hold

/-! ## Operations that succeed -/

/-- A file is read where a path asks for its name. -/
theorem read_eq_ok_iff (hg : t.Grounded) : t.read p = .ok text ↔
    ∃ d n, t.target p = .ok (.entry d n false) ∧ t.look (d ++ [n]) = .file text := by
  constructor
  · intro h
    cases htarget : t.target p with
    | error e =>
      rw [read, stat, htarget] at h
      cases h
    | ok x =>
      cases x with
      | reached l =>
        -- What is reached without a name is a directory.
        obtain ⟨es, hes⟩ := look_eq_directory_iff.1 (look_of_reached hg htarget)
        rw [read, stat, htarget] at h
        dsimp only at h
        rw [hes] at h
        cases h
      | entry d n slash =>
        rw [read, stat, htarget] at h
        dsimp only at h
        rcases hfind : t.find? (d ++ [n]) with _ | (old | es)
        · rw [hfind] at h
          cases h
        · rw [hfind] at h
          cases slash with
          | true => cases h
          | false =>
            cases h
            exact ⟨d, n, rfl, look_eq_file_iff.2 hfind⟩
        · rw [hfind] at h
          cases slash <;> cases h
  · rintro ⟨d, n, htarget, hlook⟩
    rw [read_entry htarget, hlook]

/-- A text is written to a name in a directory, where no directory may stand. -/
theorem write_eq_ok (h : t.write p text = .ok u) :
    ∃ d n, t.target p = .ok (.entry d n false) ∧ t.look (d ++ [n]) ≠ .directory ∧
      u = t.put (d ++ [n]) (.file text) := by
  cases htarget : t.target p with
  | error e =>
    rw [write_of_error htarget] at h
    cases h
  | ok x =>
    rcases x with l | ⟨d, n, _ | _⟩
    · rw [write, htarget] at h
      cases h
    · rw [write_entry htarget] at h
      by_cases hlook : t.look (d ++ [n]) = .directory
      · rw [if_pos hlook] at h
        cases h
      · rw [if_neg hlook] at h
        cases h
        exact ⟨d, n, rfl, hlook, rfl⟩
    · rw [write, htarget] at h
      cases h

/-- A directory is created at a name that is not there. -/
theorem createDirectory_eq_ok (h : t.createDirectory p = .ok u) :
    ∃ d n slash, t.target p = .ok (.entry d n slash) ∧ t.look (d ++ [n]) = .nothing ∧
      u = t.put (d ++ [n]) (.directory []) := by
  cases htarget : t.target p with
  | error e =>
    rw [createDirectory, htarget] at h
    cases h
  | ok x =>
    rw [createDirectory, htarget] at h
    cases x with
    | reached l => cases h
    | entry d n slash =>
      dsimp only at h
      cases hfind : t.find? (d ++ [n]) with
      | some k =>
        rw [hfind] at h
        cases h
      | none =>
        rw [hfind] at h
        cases h
        exact ⟨d, n, slash, rfl, look_eq_nothing_iff.2 hfind, rfl⟩

/-- A file is moved from one name to another, where no directory may stand. -/
theorem rename_eq_ok (h : t.rename p q = .ok u) (hp : t.target p = .ok (.entry d n false))
    (hold : t.look (d ++ [n]) = .file text) :
    ∃ d' n', t.target q = .ok (.entry d' n' false) ∧ t.look (d' ++ [n']) ≠ .directory ∧
      u = (t.erase (d ++ [n])).put (d' ++ [n']) (.file text) := by
  cases hq : t.target q with
  | error e =>
    rw [rename_of_error hp hq] at h
    cases h
  | ok x =>
    rcases x with l | ⟨d', n', _ | _⟩
    · rw [rename, hp, hq] at h
      cases h
    · rw [rename_entry hp hq hold] at h
      by_cases hlook : t.look (d' ++ [n']) = .directory
      · rw [if_pos hlook] at h
        cases h
      · rw [if_neg hlook] at h
        cases h
        exact ⟨d', n', rfl, hlook, rfl⟩
    · rw [rename, hp, hq] at h
      dsimp only at h
      rw [look_eq_file_iff.1 hold] at h
      cases h

/-- A file is read through a path that never goes up if it is at the place of the path and another
tree lets it be read there. -/
theorem read_of_look (hg : t.Grounded) (hup : ".." ∉ p.names) (hhere : u.here = t.here)
    (hsame : u.look (t.place p) = t.look (t.place p)) (h : t.read p = .ok text) :
    u.read p = .ok text := by
  obtain ⟨d, n, htarget, hfile⟩ := (read_eq_ok_iff hg).1 h
  have hplace := place_of_target hg hup htarget
  rw [← hplace, hfile] at hsame
  suffices htarget' : u.target p = .ok (.entry d n false) by rw [read_entry htarget', hsame]
  have hdir : u.look d = .directory := by
    by_contra hnot
    rw [look_append_of_ne_directory hnot (List.cons_ne_nil n [])] at hsame
    cases hsame
  obtain ⟨hwalk, hlast, -, -⟩ := target_eq_entry htarget
  have hfront := areNames_dropLast hup
  have hwalk' : u.walk (u.start p) p.steps.dropLast = .ok d := by
    rw [← walk_filter] at hwalk ⊢
    obtain ⟨rfl, -⟩ := walk_eq_ok hfront (hg.look_start p) hwalk
    rw [show u.start p = t.start p from origin_of_here hhere p.isRooted]
    exact walk_of_look hfront hwalk hdir
  unfold target at htarget ⊢
  rw [hwalk] at htarget
  rwa [hwalk']

/-! ## Creating directories -/

/-- The second tree is the first with directories added, and to each of them one of the paths leads. -/
structure Created (ps : List Path) (t u : FileTree) : Prop where
  more : t.Extends u
  led : ∀ l, t.look l = .nothing → u.look l = .directory → ∃ p ∈ ps, u.LeadsTo p l

namespace Created

theorem rfl (ps : List Path) (t : FileTree) : Created ps t t := by
  refine ⟨Extends.rfl t, fun l hnothing hdirectory => ?_⟩
  rw [hnothing] at hdirectory
  cases hdirectory

theorem cons (h : Created ps t u) (p : Path) : Created (p :: ps) t u := by
  refine ⟨h.more, fun l hnothing hdirectory => ?_⟩
  obtain ⟨q, hq, hled⟩ := h.led l hnothing hdirectory
  exact ⟨q, List.mem_cons_of_mem p hq, hled⟩

theorem trans (h : Created ps t v) (h' : Created ps v u) : Created ps t u := by
  refine ⟨h.more.trans h'.more, fun l hnothing hdirectory => ?_⟩
  rcases h.more.look l with hsame | ⟨-, hmade⟩
  · exact h'.led l (hsame.trans hnothing) hdirectory
  · obtain ⟨q, hq, hled⟩ := h.led l hnothing hmade
    exact ⟨q, hq, hled.retained h'.more.retains⟩

end Created

theorem created_createDirectory (hg : t.Grounded) (h : t.createDirectory p = .ok u)
    (ps : List Path) : Created (p :: ps) t u := by
  obtain ⟨d, n, slash, htarget, hnothing, rfl⟩ := createDirectory_eq_ok h
  have hdir := look_of_target hg htarget
  have hmore := extends_put hdir hnothing
  have hplace : t.look (d ++ [n]) ≠ .directory := by
    rw [hnothing]
    exact fun heq => nomatch heq
  have hlook := look_put_directory hdir hplace
  refine ⟨hmore, fun l hbefore hafter => ⟨p, List.mem_cons_self .., ?_⟩⟩
  rw [hlook] at hafter
  by_cases hl : l = d ++ [n]
  · rw [hl]
    refine leadsTo_of_target (hmore.retains.target htarget) ?_
    rw [hlook, if_pos rfl]
  · rw [if_neg hl, hbefore] at hafter
    cases hafter

/-- Creating a directory with those above it adds directories to which these paths lead. -/
theorem created_createAll (hg : t.Grounded) (h : t.createAll ps = (result, u)) :
    Created ps t u := by
  induction ps generalizing t result u with
  | nil =>
    cases h
    exact Created.rfl [] t
  | cons p above ih =>
    rw [createAll] at h
    split at h
    · cases h
      exact Created.rfl _ t
    · split at h
      · rename_i t' hmade
        cases h
        exact created_createDirectory hg hmade above
      · rename_i hmissing
        split at h
        · rename_i e v habove
          cases h
          exact (ih hg habove).cons p
        · rename_i v habove
          have habove' := ih hg habove
          split at h
          · rename_i w hmade
            cases h
            have hg' := habove'.more.grounded hg
            exact (habove'.cons p).trans (created_createDirectory hg' hmade above)
          · split at h
            · cases h
              exact habove'.cons p
            · cases h
              exact habove'.cons p
      · split at h
        · cases h
          exact Created.rfl _ t
        · cases h
          exact Created.rfl _ t

end FileTree

end Orchestration
