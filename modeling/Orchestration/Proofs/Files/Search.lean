import Orchestration.Proofs.Files.Site

/-!
# Searching from two sites

A search is a chain of name patterns. Each of them is answered by what lies at the paths found so far,
so from alike paths the search goes on to alike paths, pattern by pattern. The names of a site that hold
no wildcards lead to the site itself, and the paths found there are sorted by what comes behind it.
-/

namespace Orchestration

open FileTree Orchestration.Path

variable {t t' : FileTree} {b b' : Site} {room idle : Nat} {n k : FileNode} {l m : Location}
  {p p' : Path} {s : String}

/-! ## Listings -/

section Listings

variable (h : t.Houses b room n) (ha : Alike b b' idle l p p') (hidle : idle ≤ room)

include h ha hidle

/-- What lies at a path into the directory is part of it. -/
theorem Alike.fits (hk : (t.stat p).toOption = some k) :
    k.Fits (weight b.names + room + weight l) := by
  cases hl : n.find? l with
  | none =>
    rw [h.stat_of_nothing ha.left.spells (up_notMem_of_proper ha.left.proper) hl] at hk
    cases hk
  | some x =>
    rw [h.stat ha.left hidle hl] at hk
    obtain rfl := Option.some.inj (Option.filter_eq_some_iff.1 hk).1
    exact (h.fits.find? hl).2

variable (h' : t'.Houses b' room n)

include h'

/-- The same entries are listed. -/
theorem Alike.children_eq :
    t.children p = t'.children p' ∧ ∀ e ∈ t.children p, Proper e.1 := by
  have hchildren (u : FileTree) (q : Path) :
      u.children q = ((u.stat q).toOption.map FileNode.entries).getD [] := by
    unfold children
    cases u.stat q <;> rfl
  refine ⟨by rw [hchildren, hchildren, ha.stat_eq h h' hidle], ?_⟩
  rintro ⟨name, x⟩ he
  rw [hchildren] at he
  cases hstat : (t.stat p).toOption with
  | none =>
    rw [hstat] at he
    cases he
  | some k =>
    rw [hstat] at he
    exact (ha.fits h hidle hstat).entries he

/-- The same places below are listed, behind each of the paths. -/
theorem Alike.exists_descendants : ∃ below : List (Location × FileNode),
    t.descendants p = below.map (fun e =>
        (e.1.foldl entryPath p, e.1.getLast?.getD "", e.2.isDirectory)) ∧
      t'.descendants p' = below.map (fun e =>
        (e.1.foldl entryPath p', e.1.getLast?.getD "", e.2.isDirectory)) ∧
      ∀ e ∈ below, e.1 ≠ [] ∧ ∀ s ∈ e.1, Proper s := by
  have hdescendants (u : FileTree) (q : Path) :
      u.descendants q = (((u.stat q).toOption.map FileNode.descendants).getD []).map fun e =>
        (e.1.foldl entryPath q, e.1.getLast?.getD "", e.2.isDirectory) := by
    unfold FileTree.descendants
    cases u.stat q <;> rfl
  refine ⟨_, hdescendants t p, ?_, ?_⟩
  · rw [hdescendants, ha.stat_eq h h' hidle]
  · rintro ⟨m, x⟩ he
    cases hstat : (t.stat p).toOption with
    | none =>
      rw [hstat] at he
      cases he
    | some k =>
      rw [hstat] at he
      obtain ⟨hne, hproper, -⟩ := (ha.fits h hidle hstat).descendants he
      exact ⟨hne, hproper⟩

end Listings

/-! ## Following patterns -/

theorem forall₂_flatMap {α β γ : Type} {R : β → γ → Prop} {xs : List α} {f : α → List β}
    {g : α → List γ} (h : ∀ x ∈ xs, List.Forall₂ R (f x) (g x)) :
    List.Forall₂ R (xs.flatMap f) (xs.flatMap g) := by
  induction xs with
  | nil => exact .nil
  | cons x xs ih =>
    rw [List.flatMap_cons, List.flatMap_cons]
    exact List.rel_append (h x (List.mem_cons_self ..)) (ih fun y hy => h y (List.mem_cons_of_mem x hy))

/-- Two paths that reach one place from two sites, with as many idle bytes as there is room for. -/
def Matched (b b' : Site) (room : Nat) (p p' : Path) : Prop :=
  ∃ l, Alike b b' room l p p'

section Following

variable (h : t.Houses b room n) (h' : t'.Houses b' room n)

include h h'

/-- A name that is no dot is there at both sites, and reaches the same place, or at none. -/
theorem Alike.entry_cases (ha : Alike b b' idle l p p') (hidle : idle ≤ room) (hs : IsName s) :
    (t.contains (entryPath p s) = true ∧ t'.contains (entryPath p' s) = true ∧
        Alike b b' idle (l ++ [s]) (entryPath p s) (entryPath p' s)) ∨
      (t.contains (entryPath p s) = false ∧ t'.contains (entryPath p' s) = false) := by
  cases hl : n.find? (l ++ [s]) with
  | some k =>
    have hproper := (h.fits.find? hl).1 s (List.mem_concat_self ..)
    have hentry := ha.entry hproper
    have hcontains : t.contains (entryPath p s) = true := by
      rw [contains, h.stat hentry.left hidle hl, asks_entryPath hs]
      rfl
    exact Or.inl ⟨hcontains, by rw [← hentry.contains_eq h h' hidle, hcontains], hentry⟩
  | none =>
    have hnot {u : FileTree} {c : Site} {q : Path} (hu : u.Houses c room n)
        (hq : q.Reaches c.rooted idle (c.names ++ l)) : u.contains (entryPath q s) = false := by
      have hup := up_notMem_of_proper hq.proper
      have hspells := spells_entryPath hq.spells hup hs
      have hup' : ".." ∉ c.names ++ l ++ [s] := by
        simp only [List.mem_append, List.mem_singleton, not_or]
        exact ⟨by simpa only [List.mem_append, not_or] using hup, Ne.symm hs.not_up⟩
      rw [List.append_assoc] at hspells hup'
      rw [contains, hu.stat_of_nothing hspells hup' hl]
      rfl
    exact Or.inr ⟨hnot h ha.left, hnot h' ha.right⟩

/-- A literal name is there at both sites, and leads to alike paths, or at none. -/
theorem Alike.literal_cases (ha : Alike b b' idle l p p') (hidle : idle + 2 ≤ room)
    (hname : s ≠ ".." ∧ '/' ∉ s.toList) (hempty : s = "" → l ≠ []) :
    (t.hasLiteral p s = true ∧ t'.hasLiteral p' s = true ∧
        ∃ m, (m = [] → l = [] ∧ s = ".") ∧
          Alike b b' (idle + 2) m (entryPath p s) (entryPath p' s)) ∨
      (t.hasLiteral p s = false ∧ t'.hasLiteral p' s = false) := by
  have hle : idle ≤ room := by omega
  unfold hasLiteral
  by_cases hhere : s = "."
  · subst hhere
    have hover := ha.over_idle (Or.inl rfl)
    rw [if_pos (by rfl), if_pos (by rfl), ← ha.isDirectory_eq h h' hle]
    cases t.isDirectory p with
    | true => exact Or.inl ⟨rfl, rfl, l, fun hnil => ⟨hnil, rfl⟩, hover⟩
    | false => exact Or.inr ⟨rfl, rfl⟩
  · rw [if_neg (by simp [hhere, hname.1]), if_neg (by simp [hhere, hname.1])]
    by_cases hnil : s = ""
    · have hne := hempty hnil
      have hover := ha.over_idle (Or.inr ⟨hnil, hne⟩)
      rw [← hover.contains_eq h h' hidle]
      cases t.contains (entryPath p s) with
      | true => exact Or.inl ⟨rfl, rfl, l, fun h => absurd h hne, hover⟩
      | false => exact Or.inr ⟨rfl, rfl⟩
    · rcases ha.entry_cases h h' hle ⟨hnil, hname.2, hhere, hname.1⟩ with
        ⟨hleft, hright, hentry⟩ | ⟨hleft, hright⟩
      · refine Or.inl ⟨hleft, hright, l ++ [s], fun h => ?_, hentry.mono (by omega)⟩
        exact absurd h (List.concat_ne_nil _ _)
      · exact Or.inr ⟨hleft, hright⟩

/-- From alike paths a search goes on to alike paths. -/
theorem follow_alike {ps : List NamePattern} (ha : Alike b b' idle l p p')
    (hidle : idle + 2 * ps.length ≤ room) (hps : ∀ q ∈ ps, q.Descends)
    (hbegins : l = [] → NamePattern.Begins ps) :
    List.Forall₂ (Matched b b' room) (t.follow ps p) (t'.follow ps p') := by
  -- along the search from the left site: in each case the right one takes the same turn
  induction ps, p using FileTree.follow.induct t generalizing idle l p' with
  | case1 p =>
    rw [follow, follow]
    exact .cons ⟨l, ha.mono (by simpa using hidle)⟩ .nil
  | case2 s rest p hliteral ih =>
    rw [List.length_cons] at hidle
    have hrest : ∀ q ∈ rest, q.Descends := fun q hq => hps q (List.mem_cons_of_mem _ hq)
    have hempty : s = "" → l ≠ [] := by
      rintro rfl hnil
      exact NamePattern.not_begins_empty rest (hbegins hnil)
    rcases ha.literal_cases h h' (by omega) (hps _ (List.mem_cons_self ..)) hempty with
      ⟨-, hright, m, hm, hnext⟩ | ⟨hleft, -⟩
    · rw [follow, follow, if_pos hliteral, if_pos hright]
      refine ih hnext (by omega) hrest fun hnil => ?_
      obtain ⟨hl, rfl⟩ := hm hnil
      exact NamePattern.begins_of_here (hbegins hl)
    · rw [hleft] at hliteral
      cases hliteral
  | case3 s rest p hliteral =>
    rw [List.length_cons] at hidle
    have hempty : s = "" → l ≠ [] := by
      rintro rfl hnil
      exact NamePattern.not_begins_empty rest (hbegins hnil)
    rcases ha.literal_cases h h' (by omega) (hps _ (List.mem_cons_self ..)) hempty with
      ⟨hleft, -⟩ | ⟨-, hright⟩
    · exact absurd hleft hliteral
    · rw [follow, follow, if_neg hliteral, if_neg (by simp [hright])]
      exact .nil
  | case4 tokens rest p hdir _ ih =>
    rw [List.length_cons] at hidle
    have hrest : ∀ q ∈ rest, q.Descends := fun q hq => hps q (List.mem_cons_of_mem _ hq)
    have hdots : dotsMatching tokens = [] := hps _ (List.mem_cons_self ..)
    obtain ⟨hchildren, hproper⟩ := ha.children_eq h (by omega) h'
    have hdir' := (ha.isDirectory_eq h h' (by omega)).symm.trans hdir
    rw [follow, follow, if_pos hdir, if_pos hdir', hdots, ← hchildren]
    refine forall₂_flatMap fun e he => ?_
    split
    · refine ih e (ha.entry (hproper e he)) (by omega) hrest fun hnil => ?_
      exact absurd hnil (List.concat_ne_nil _ _)
    · exact .nil
  | case5 tokens rest p hdir =>
    rw [List.length_cons] at hidle
    have hdir' : ¬ t'.isDirectory p' = true := by rwa [← ha.isDirectory_eq h h' (by omega)]
    rw [follow, follow, if_neg hdir, if_neg hdir']
    exact .nil
  | case6 p =>
    obtain ⟨below, hleft, hright, hbelow⟩ := ha.exists_descendants h (by omega) h'
    rw [follow, follow, hleft, hright, List.filter_map, List.filter_map, List.map_map, List.map_map,
      List.forall₂_map_left_iff, List.forall₂_map_right_iff]
    refine List.forall₂_same.2 fun e he => ?_
    have hproper := (hbelow e (List.mem_of_mem_filter he)).2
    exact ⟨l ++ e.1, (ha.descend hproper).mono (by omega)⟩
  | case7 next rest p ih =>
    rw [List.length_cons, List.length_cons] at hidle
    have hrest : ∀ q ∈ rest, q.Descends := fun q hq =>
      hps q (List.mem_cons_of_mem _ (List.mem_cons_of_mem _ hq))
    obtain ⟨below, hleft, hright, hbelow⟩ := ha.exists_descendants h (by omega) h'
    rw [follow, follow, hleft, hright, List.flatMap_map, List.flatMap_map]
    refine forall₂_flatMap fun e he => ?_
    obtain ⟨hne, hproper⟩ := hbelow e he
    dsimp only
    split
    · refine ih (_, e.1.getLast?.getD "", e.2.isDirectory) (ha.descend hproper) (by omega) hrest
        fun hnil => ?_
      exact absurd (List.append_eq_nil_iff.1 hnil).2 hne
    · exact .nil

end Following

/-! ## The site itself -/

/-- The names that a pattern behind a site starts with. -/
def Site.lead (b : Site) : List String :=
  if b.names = [] then (if b.rooted then [] else ["."]) else b.names

/-- The path that a search starts from. -/
def Path.start (rooted : Bool) : Path :=
  ⟨if rooted then "/" else "."⟩

theorem reaches_start (rooted : Bool) : (Path.start rooted).Reaches rooted 1 [] := by
  cases rooted with
  | true => exact ⟨⟨by decide, by decide, nofun⟩, nofun, by decide, by decide⟩
  | false => exact ⟨spells_here, nofun, by decide, by decide⟩

/-- The names of a site are followed to the site. -/
theorem FileTree.Houses.follow_names (h : t.Houses b room n) (hroom : 1 ≤ room)
    {done rest : List String} (hnames : b.names = done ++ rest) (hp : p.Reaches b.rooted 1 done)
    (ps : List NamePattern) :
    t.follow (rest.map .literal ++ ps) p = t.follow ps (rest.foldl entryPath p) := by
  induction rest generalizing done p with
  | nil => rfl
  | cons s rest ih =>
    have hs : Proper s := h.proper s (by rw [hnames]; exact List.mem_append_right _ List.mem_cons_self)
    have hentry := reaches_entryPath hp hs
    have hnames' : b.names = done ++ [s] ++ rest := by rw [hnames, List.append_assoc]; rfl
    have hfits : weight (done ++ [s]) + 1 < maxSize := by
      have hlt := h.fits.lt
      rw [hnames', weight_append] at hlt
      omega
    have hcontains : t.contains (entryPath p s) = true := by
      have hfound := h.found
      rw [hnames', ← List.append_assoc, FileTree.find?, FileNode.find?_append] at hfound
      obtain ⟨k, hk, -⟩ := Option.bind_eq_some_iff.1 hfound
      rw [contains, stat_of_reaches h.look_origin hentry hfits, FileTree.find?, hk,
        asks_entryPath hs.toIsName]
      rfl
    have hliteral : t.hasLiteral p s = true := by
      rw [hasLiteral, if_neg (by simp [hs.not_here, hs.not_up]), hcontains]
    rw [List.map_cons, List.cons_append, follow, if_pos hliteral, ih hnames' hentry, List.foldl_cons]

theorem FileTree.Houses.exists_follow (h : t.Houses b room n) (hroom : 1 ≤ room)
    (ps : List NamePattern) : ∃ p, p.Reaches b.rooted 1 b.names ∧
      t.follow (b.lead.map .literal ++ ps) (Path.start b.rooted) = t.follow ps p := by
  have hstart := reaches_start b.rooted
  unfold Site.lead
  by_cases hnil : b.names = []
  · refine ⟨Path.start b.rooted, by rwa [hnil], ?_⟩
    obtain ⟨rooted, names⟩ := b
    cases rooted with
    | true => rw [if_pos hnil]; rfl
    | false =>
      have hdir : t.isDirectory ⟨"."⟩ = true := by
        have hstat := h.stat (l := []) (by rwa [List.append_nil, hnil]) hroom (FileNode.find?_nil n)
        rw [FileTree.isDirectory]
        show ((t.stat (Path.start false)).toOption).any _ = true
        rw [hstat, Option.filter_some, h.isDirectory, Bool.or_true]
        exact h.isDirectory
      rw [if_pos hnil]
      show t.follow (.literal "." :: ps) ⟨"."⟩ = t.follow ps ⟨"."⟩
      have hliteral : t.hasLiteral ⟨"."⟩ "." = true := hdir
      rw [follow, if_pos hliteral]
      rfl
  · rw [if_neg hnil]
    have hnames := h.follow_names hroom (show b.names = [] ++ b.names from rfl) hstart ps
    exact ⟨_, reaches_foldl hstart h.proper, hnames⟩

/-! ## The files found -/

theorem forall₂_filter {α β : Type} {R S : α → β → Prop} {f : α → Bool} {g : β → Bool} {xs : List α}
    {ys : List β} (hfg : ∀ x y, R x y → f x = g y) (hS : ∀ x y, R x y → f x = true → S x y)
    (h : List.Forall₂ R xs ys) : List.Forall₂ S (xs.filter f) (ys.filter g) := by
  induction h with
  | nil => exact .nil
  | @cons x y xs ys hxy _ ih =>
    rw [List.filter_cons, List.filter_cons, ← hfg x y hxy]
    split
    · next hx => exact .cons (hS x y hxy hx) ih
    · exact ih

/-- Lists that correspond are sorted in the same way, if their orders correspond. -/
theorem forall₂_mergeSort {α β : Type} {R : α → β → Prop} {f : α → α → Bool} {g : β → β → Bool}
    {xs : List α} {ys : List β} (hfg : ∀ x y x' y', R x y → R x' y' → f x x' = g y y')
    (h : List.Forall₂ R xs ys) : List.Forall₂ R (xs.mergeSort f) (ys.mergeSort g) := by
  -- both lists are sides of one list of pairs, and sorting the pairs sorts both sides
  obtain ⟨hlength, hzip⟩ := List.forall₂_iff_zip.1 h
  have hleft : (xs.zip ys).map Prod.fst = xs := List.map_fst_zip hlength.le
  have hright : (xs.zip ys).map Prod.snd = ys := List.map_snd_zip hlength.ge
  have hsorted := List.map_mergeSort (r := fun z w => f z.1 w.1) (s := f) (f := Prod.fst)
    (l := xs.zip ys) fun _ _ _ _ => rfl
  have hsorted' := List.map_mergeSort (r := fun z w => f z.1 w.1) (s := g) (f := Prod.snd)
    (l := xs.zip ys) fun z hz w hw => hfg _ _ _ _ (hzip hz) (hzip hw)
  rw [hleft] at hsorted
  rw [hright] at hsorted'
  rw [← hsorted, ← hsorted', List.forall₂_map_left_iff, List.forall₂_map_right_iff]
  exact List.forall₂_same.2 fun z hz => hzip (List.mem_mergeSort.1 hz)

/-- Two paths that reach one file below two sites. -/
def MatchedFile (b b' : Site) (room : Nat) (p p' : Path) : Prop :=
  ∃ l, l ≠ [] ∧ Alike b b' room l p p'

theorem partsBefore_append (front parts parts' : List Part) :
    partsBefore (front ++ parts) (front ++ parts') = partsBefore parts parts' := by
  have hirrefl (a : Part) : a.before a = false := by
    cases a with
    | name s => simp [Part.before]
    | _ => rfl
  induction front with
  | nil => rfl
  | cons a front ih => simp [partsBefore, hirrefl, ih]

theorem Path.Reaches.parts_eq {rooted : Bool} {ns : List String} (h : p.Reaches rooted idle ns)
    (hne : ns ≠ []) : p.parts = (if rooted then [.root] else []) ++ ns.map .name := by
  rw [h.spells.parts_eq (up_notMem_of_proper h.proper), if_neg hne]

/-- Files below a site are ordered by what comes behind the site. -/
theorem MatchedFile.le_eq {q q' : Path} (hp : MatchedFile b b' room p p')
    (hq : MatchedFile b b' room q q') : Path.le p q = Path.le p' q' := by
  obtain ⟨l, hl, hp⟩ := hp
  obtain ⟨m, hm, hq⟩ := hq
  have hne {ns rest : List String} (hrest : rest ≠ []) : ns ++ rest ≠ [] := fun h =>
    hrest (List.append_eq_nil_iff.1 h).2
  unfold Path.le
  rw [hp.left.parts_eq (hne hl), hp.right.parts_eq (hne hl), hq.left.parts_eq (hne hm),
    hq.right.parts_eq (hne hm)]
  simp only [List.map_append, ← List.append_assoc, partsBefore_append]

theorem Matched.file (h : t.Houses b room n) (hp : Matched b b' room p p')
    (hfile : t.isFile p = true) : MatchedFile b b' room p p' := by
  obtain ⟨l, ha⟩ := hp
  refine ⟨l, ?_, ha⟩
  rintro rfl
  rw [isFile, h.stat ha.left le_rfl (FileNode.find?_nil n), Option.filter_some, h.isDirectory,
    Bool.or_true, if_pos rfl, Option.any_some, h.isDirectory] at hfile
  cases hfile

/-- A search finds the same files from two sites, in the same order. -/
theorem matchingFiles_matched (h : t.Houses b room n) (h' : t'.Houses b' room n)
    {ps : List NamePattern} (hlength : 1 + 2 * ps.length ≤ room) (hps : ∀ q ∈ ps, q.Descends)
    (hbegins : NamePattern.Begins ps) :
    List.Forall₂ (MatchedFile b b' room)
      (t.matchingFiles ⟨b.rooted, b.lead.map .literal ++ ps, false⟩)
      (t'.matchingFiles ⟨b'.rooted, b'.lead.map .literal ++ ps, false⟩) := by
  have hroom : 1 ≤ room := by omega
  obtain ⟨p, hp, hfollow⟩ := h.exists_follow hroom ps
  obtain ⟨p', hp', hfollow'⟩ := h'.exists_follow hroom ps
  have hmatching (u : FileTree) (rooted : Bool) (qs : List NamePattern) :
      u.matching ⟨rooted, qs, false⟩ = u.follow qs (Path.start rooted) := by
    rw [matching]
    exact List.filter_eq_self.2 fun _ _ => rfl
  have ha : Alike b b' 1 [] p p' :=
    ⟨by rwa [List.append_nil], by rwa [List.append_nil], fun hne => absurd rfl hne⟩
  have hfound := follow_alike h h' ha hlength hps fun _ => hbegins
  rw [matchingFiles, matchingFiles, hmatching, hmatching, hfollow, hfollow']
  refine forall₂_mergeSort (fun _ _ _ _ => MatchedFile.le_eq) ?_
  refine forall₂_filter ?_ (fun _ _ => Matched.file h) hfound
  rintro x y ⟨l, hxy⟩
  exact hxy.isFile_eq h h' le_rfl

end Orchestration
