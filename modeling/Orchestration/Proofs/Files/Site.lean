import Orchestration.Proofs.Files.Pattern
import Orchestration.Proofs.Files.Spelling
import Mathlib.Data.List.Forall2

/-!
# One directory at two sites

A directory may lie at one site of a tree and, with everything in it, at another site of another tree.
Paths into it that spell out the same names behind the two sites find the same there. A search that is
kept inside the directory therefore meets the same places from either site, in the same order, as long
as no path becomes too long.
-/

namespace Orchestration

/-! ## Names and lengths -/

namespace Path

/-- A name that a file system accepts. -/
structure Proper (name : String) : Prop extends IsName name where
  clean : '\x00' ∉ name.toList
  short : name.utf8ByteSize ≤ maxNameSize

/-- The bytes of names in a path, each with a slash. -/
def weight : List String → Nat
  | [] => 0
  | s :: rest => s.utf8ByteSize + 1 + weight rest

theorem weight_append (ns ms : List String) : weight (ns ++ ms) = weight ns + weight ms := by
  induction ns with
  | nil => rw [List.nil_append, weight, Nat.zero_add]
  | cons s ns ih =>
    rw [List.cons_append, weight, weight, ih]
    omega

theorem weight_singleton (s : String) : weight [s] = s.utf8ByteSize + 1 := by
  rw [weight, weight, Nat.add_zero]

theorem up_notMem_of_proper {ns : List String} (h : ∀ s ∈ ns, Proper s) : ".." ∉ ns :=
  fun hmem => (h ".." hmem).not_up rfl

end Path

open Orchestration.Path

namespace FileNode

variable {n k x : FileNode} {l m : Location} {size : Nat} {es : List (String × FileNode)}

/-- Everything below has a proper name, and a path to it that starts with `size` bytes is not too
long. -/
inductive Fits : Nat → FileNode → Prop where
  | file {size : Nat} {text : String} (h : size < maxSize) : Fits size (.file text)
  | directory {size : Nat} {es : List (String × FileNode)} (h : size < maxSize)
    (names : ∀ e ∈ es, Proper e.1) (nodes : ∀ e ∈ es, Fits (size + (e.1.utf8ByteSize + 1)) e.2) :
    Fits size (.directory es)

theorem Fits.lt (h : Fits size n) : size < maxSize := by
  cases h with
  | file h => exact h
  | directory h => exact h

theorem mem_of_lookup {name : String} (h : es.lookup name = some k) : (name, k) ∈ es := by
  obtain ⟨front, back, rfl, -⟩ := List.lookup_eq_some_iff.1 h
  exact List.mem_append_right _ (List.mem_cons_self ..)

theorem Fits.find? (h : Fits size n) (hl : n.find? l = some k) :
    (∀ s ∈ l, Proper s) ∧ Fits (size + weight l) k := by
  induction l generalizing n size with
  | nil =>
    rw [find?_nil] at hl
    cases hl
    exact ⟨nofun, h⟩
  | cons name rest ih =>
    cases h with
    | file => cases hl
    | @directory _ es hsize names nodes =>
      rw [find?_directory_cons] at hl
      obtain ⟨x, hx, hrest⟩ := Option.bind_eq_some_iff.1 hl
      have hmem := mem_of_lookup hx
      obtain ⟨hproper, hfits⟩ := ih (nodes _ hmem) hrest
      have hweight : size + weight (name :: rest) =
          size + (name.utf8ByteSize + 1) + weight rest := by
        rw [weight]
        omega
      rw [hweight]
      refine ⟨fun s hs => ?_, hfits⟩
      rcases List.mem_cons.1 hs with rfl | hs
      · exact names _ hmem
      · exact hproper s hs

theorem mem_descendantsEach {below : String × List (Location × FileNode)}
    (h : below ∈ descendantsEach es) : ∃ e ∈ es,
      below.2 = ([e.1], e.2) :: e.2.descendants.map fun d => (e.1 :: d.1, d.2) := by
  induction es with
  | nil => cases h
  | cons e rest ih =>
    obtain ⟨name, k⟩ := e
    rw [descendantsEach] at h
    rcases List.mem_cons.1 h with rfl | h
    · exact ⟨_, List.mem_cons_self .., rfl⟩
    · obtain ⟨e, he, heq⟩ := ih h
      exact ⟨e, List.mem_cons_of_mem _ he, heq⟩

/-- What lies below a directory lies in an entry, or is one. -/
theorem exists_entry_of_mem_descendants (h : (m, x) ∈ (directory es).descendants) :
    ∃ e ∈ es, m = [e.1] ∨ ∃ rest, m = e.1 :: rest ∧ (rest, x) ∈ e.2.descendants := by
  rw [descendants] at h
  obtain ⟨below, hbelow, hmem⟩ := List.mem_flatMap.1 h
  obtain ⟨e, he, heq⟩ := mem_descendantsEach (List.mem_mergeSort.1 hbelow)
  refine ⟨e, he, ?_⟩
  rw [heq] at hmem
  rcases List.mem_cons.1 hmem with hself | hmem
  · cases hself
    exact Or.inl rfl
  · obtain ⟨⟨rest, y⟩, hrest, hd⟩ := List.mem_map.1 hmem
    cases hd
    exact Or.inr ⟨rest, rfl, hrest⟩

theorem Fits.descendants (h : Fits size n) (hm : (m, x) ∈ n.descendants) :
    m ≠ [] ∧ (∀ s ∈ m, Proper s) ∧ size + weight m < maxSize := by
  induction h generalizing m with
  | file =>
    rw [FileNode.descendants] at hm
    cases hm
  | directory h names nodes ih =>
    obtain ⟨e, he, rfl | ⟨rest, rfl, hrest⟩⟩ := exists_entry_of_mem_descendants hm
    · refine ⟨List.cons_ne_nil _ _, fun s hs => ?_, ?_⟩
      · rw [List.mem_singleton.1 hs]
        exact names e he
      · rw [weight_singleton]
        exact (nodes e he).lt
    · obtain ⟨-, hproper, hsize⟩ := ih e he hrest
      refine ⟨List.cons_ne_nil _ _, fun s hs => ?_, ?_⟩
      · rcases List.mem_cons.1 hs with rfl | hs
        · exact names e he
        · exact hproper s hs
      · rw [weight]
        omega

theorem Fits.entries {name : String} (h : Fits size n) (hm : (name, x) ∈ n.entries) : Proper name := by
  cases h with
  | file => cases hm
  | directory _ names => exact names _ (List.mem_mergeSort.1 hm)

end FileNode

/-! ## Paths to places -/

/-- A path to a place that the given names lead to. It is no longer than its names, but for `idle` bytes
of dots and slashes. -/
structure Path.Reaches (p : Path) (rooted : Bool) (idle : Nat) (ns : List String) : Prop where
  spells : p.Spells rooted ns
  proper : ∀ s ∈ ns, Proper s
  clean : '\x00' ∉ p.text.toList
  short : p.text.utf8ByteSize ≤ weight ns + idle

namespace FileTree

variable {t : FileTree} {p : Path} {rooted : Bool} {idle : Nat} {ns : List String} {s : String}

theorem toList_entryPath (hslash : '/' ∉ s.toList) (p : Path) {c : Char}
    (hc : c ∈ (entryPath p s).text.toList) : c ∈ p.text.toList ∨ c = '/' ∨ c ∈ s.toList := by
  unfold entryPath at hc
  split at hc
  · exact Or.inr (Or.inr hc)
  · rcases join_cases hslash p with ⟨-, htext⟩ | ⟨text, hp, htext⟩ | ⟨-, htext⟩
    · rw [htext] at hc
      exact Or.inr (Or.inr hc)
    · rw [htext, ← hp, String.toList_append, List.mem_append] at hc
      rcases hc with hc | hc
      · exact Or.inl hc
      · exact Or.inr (Or.inr hc)
    · rw [htext] at hc
      simp only [String.toList_append, List.mem_append] at hc
      rcases hc with (hc | hc) | hc
      · exact Or.inl hc
      · exact Or.inr (Or.inl (by simpa using hc))
      · exact Or.inr (Or.inr hc)

/-- An entry of a directory is reached from the path of the directory. -/
theorem reaches_entryPath (h : p.Reaches rooted idle ns) (hs : Proper s) :
    (entryPath p s).Reaches rooted idle (ns ++ [s]) := by
  have hup := up_notMem_of_proper h.proper
  refine ⟨spells_entryPath h.spells hup hs.toIsName, fun x hx => ?_, fun hnul => ?_, ?_⟩
  · rcases List.mem_append.1 hx with hx | hx
    · exact h.proper x hx
    · rwa [List.mem_singleton.1 hx]
  · rcases toList_entryPath hs.slashless p hnul with hnul | hnul | hnul
    · exact h.clean hnul
    · cases hnul
    · exact hs.clean hnul
  · have hsize := utf8ByteSize_entryPath_le hs.slashless p
    have hshort := h.short
    rw [weight_append, weight_singleton]
    omega

theorem reaches_foldl {ms : List String} (h : p.Reaches rooted idle ns) (hms : ∀ s ∈ ms, Proper s) :
    (ms.foldl entryPath p).Reaches rooted idle (ns ++ ms) := by
  induction ms generalizing p ns with
  | nil => rwa [List.append_nil]
  | cons s ms ih =>
    have hnext := reaches_entryPath h (hms s (List.mem_cons_self ..))
    have hrest := ih hnext fun x hx => hms x (List.mem_cons_of_mem s hx)
    rwa [List.append_assoc] at hrest

/-- The same place is reached over a dot, and over an empty name behind other names. -/
theorem reaches_entryPath_idle (h : p.Reaches rooted idle ns) (hs : s = "." ∨ (s = "" ∧ ns ≠ [])) :
    (entryPath p s).Reaches rooted (idle + 2) ns := by
  have hslash : '/' ∉ s.toList := by rcases hs with rfl | ⟨rfl, -⟩ <;> decide
  have hclean : '\x00' ∉ s.toList := by rcases hs with rfl | ⟨rfl, -⟩ <;> decide
  have hone : s.utf8ByteSize ≤ 1 := by rcases hs with rfl | ⟨rfl, -⟩ <;> decide
  refine ⟨(spells_entryPath_idle h.spells (up_notMem_of_proper h.proper) hs).1, h.proper,
    fun hnul => ?_, ?_⟩
  · rcases toList_entryPath hslash p hnul with hnul | hnul | hnul
    · exact h.clean hnul
    · cases hnul
    · exact hclean hnul
  · have hsize := utf8ByteSize_entryPath_le hslash p
    have hshort := h.short
    omega

/-- What lies at a path that reaches a place is what lies at the place. -/
theorem stat_of_reaches (hl : t.look (t.origin rooted) = .directory) (h : p.Reaches rooted idle ns)
    (hfits : weight ns + idle < maxSize) :
    (t.stat p).toOption =
      (t.find? (t.origin rooted ++ ns)).filter fun n => !p.asks || n.isDirectory := by
  have hshort := h.short
  have hfault : p.fault? = none :=
    fault?_eq_none_iff.2 ⟨h.clean, h.spells.text_ne_empty, by omega⟩
  rw [stat_of_spells hl h.spells (up_notMem_of_proper h.proper),
    if_pos ⟨hfault, fun s hs => (h.proper s hs).short⟩]

end FileTree

/-! ## Sites -/

/-- Where a directory lies: the names that lead to it, from the root or from the place where relative
paths start. -/
structure Site where
  /-- Whether the names lead there from the root. -/
  rooted : Bool
  /-- The names. -/
  names : List String

/-- A directory lies at a site, and paths into it can be `room` bytes longer than their names. -/
structure FileTree.Houses (t : FileTree) (b : Site) (room : Nat) (n : FileNode) : Prop where
  found : t.find? (t.origin b.rooted ++ b.names) = some n
  isDirectory : n.isDirectory = true
  proper : ∀ s ∈ b.names, Proper s
  fits : n.Fits (weight b.names + room)

/-- Two paths that reach one place from two sites, and both ask for a directory there or both do not. -/
structure Alike (b b' : Site) (idle : Nat) (l : Location) (p p' : Path) : Prop where
  left : p.Reaches b.rooted idle (b.names ++ l)
  right : p'.Reaches b'.rooted idle (b'.names ++ l)
  /-- At the directory itself there is a directory, whether it is asked for or not. -/
  asks : l ≠ [] → p.asks = p'.asks

variable {t t' : FileTree} {b b' : Site} {room idle : Nat} {n k : FileNode} {l m : Location}
  {p p' : Path} {s : String}

namespace FileTree.Houses

theorem find?_eq (h : t.Houses b room n) (l : Location) :
    t.find? (t.origin b.rooted ++ (b.names ++ l)) = n.find? l := by
  rw [← List.append_assoc, FileTree.find?, FileNode.find?_append, ← FileTree.find?, h.found,
    Option.bind_some]

theorem look_origin (h : t.Houses b room n) : t.look (t.origin b.rooted) = .directory := by
  by_contra hnot
  by_cases hnames : b.names = []
  · have hfound := h.found
    rw [hnames, List.append_nil] at hfound
    obtain ⟨es, rfl⟩ : ∃ es, n = .directory es := by
      cases n with
      | file text => cases h.isDirectory
      | directory es => exact ⟨es, Eq.refl _⟩
    exact hnot (look_eq_directory_iff.2 ⟨es, hfound⟩)
  · have hnone := FileNode.find?_append_of_ne_directory (n := t.root) (l := t.origin b.rooted)
      (fun es hes => hnot (look_eq_directory_iff.2 ⟨es, hes⟩)) hnames
    cases hnone.symm.trans h.found

theorem stat (h : t.Houses b room n) (hp : p.Reaches b.rooted idle (b.names ++ l))
    (hidle : idle ≤ room) (hl : n.find? l = some k) :
    (t.stat p).toOption = (some k).filter fun k => !p.asks || k.isDirectory := by
  have hfits := (h.fits.find? hl).2.lt
  rw [stat_of_reaches h.look_origin hp, h.find?_eq, hl]
  rw [weight_append]
  omega

theorem stat_of_nothing (h : t.Houses b room n) (hp : p.Spells b.rooted (b.names ++ l))
    (hup : ".." ∉ b.names ++ l) (hl : n.find? l = none) : (t.stat p).toOption = none := by
  rw [stat_of_spells h.look_origin hp hup, h.find?_eq, hl]
  split <;> rfl

end FileTree.Houses

/-! ## Going on from alike paths -/

namespace Alike

open FileTree

theorem mono {idle' : Nat} (h : Alike b b' idle l p p') (hle : idle ≤ idle') :
    Alike b b' idle' l p p' := by
  obtain ⟨⟨hspells, hproper, hclean, hshort⟩, ⟨hspells', hproper', hclean', hshort'⟩, hasks⟩ := h
  exact ⟨⟨hspells, hproper, hclean, by omega⟩, ⟨hspells', hproper', hclean', by omega⟩, hasks⟩

theorem entry (h : Alike b b' idle l p p') (hs : Proper s) :
    Alike b b' idle (l ++ [s]) (entryPath p s) (entryPath p' s) := by
  have hleft := reaches_entryPath h.left hs
  have hright := reaches_entryPath h.right hs
  rw [List.append_assoc] at hleft hright
  refine ⟨hleft, hright, fun _ => ?_⟩
  rw [asks_entryPath hs.toIsName, asks_entryPath hs.toIsName]

theorem descend (h : Alike b b' idle l p p') (hm : ∀ s ∈ m, Proper s) :
    Alike b b' idle (l ++ m) (m.foldl entryPath p) (m.foldl entryPath p') := by
  induction m generalizing l p p' with
  | nil => rwa [List.append_nil]
  | cons s m ih =>
    have hnext := h.entry (hm s (List.mem_cons_self ..))
    have hrest := ih hnext fun x hx => hm x (List.mem_cons_of_mem s hx)
    rwa [List.append_assoc] at hrest

theorem over_idle (h : Alike b b' idle l p p') (hs : s = "." ∨ (s = "" ∧ l ≠ [])) :
    Alike b b' (idle + 2) l (entryPath p s) (entryPath p' s) := by
  have hs' (ns : List String) : s = "." ∨ (s = "" ∧ ns ++ l ≠ []) :=
    hs.imp_right (And.imp_right fun hne hnil => hne (List.append_eq_nil_iff.1 hnil).2)
  have hleft := spells_entryPath_idle h.left.spells (up_notMem_of_proper h.left.proper) (hs' _)
  have hright := spells_entryPath_idle h.right.spells (up_notMem_of_proper h.right.proper) (hs' _)
  refine ⟨reaches_entryPath_idle h.left (hs' _), reaches_entryPath_idle h.right (hs' _), fun _ => ?_⟩
  rw [hleft.2, hright.2]

section Same

variable (h : t.Houses b room n) (h' : t'.Houses b' room n) (ha : Alike b b' idle l p p')
  (hidle : idle ≤ room)

include h h' ha hidle

/-- The same lies at alike paths. -/
theorem stat_eq : (t.stat p).toOption = (t'.stat p').toOption := by
  cases hl : n.find? l with
  | none =>
    rw [h.stat_of_nothing ha.left.spells (up_notMem_of_proper ha.left.proper) hl,
      h'.stat_of_nothing ha.right.spells (up_notMem_of_proper ha.right.proper) hl]
  | some k =>
    rw [h.stat ha.left hidle hl, h'.stat ha.right hidle hl]
    by_cases hnil : l = []
    · rw [hnil, FileNode.find?_nil] at hl
      obtain rfl := Option.some.inj hl
      rw [Option.filter_some, Option.filter_some, h.isDirectory, Bool.or_true, Bool.or_true]
    · rw [ha.asks hnil]

theorem isDirectory_eq : t.isDirectory p = t'.isDirectory p' := by
  rw [FileTree.isDirectory, FileTree.isDirectory, ha.stat_eq h h' hidle]

theorem isFile_eq : t.isFile p = t'.isFile p' := by
  rw [isFile, isFile, ha.stat_eq h h' hidle]

theorem contains_eq : t.contains p = t'.contains p' := by
  rw [contains, contains, ha.stat_eq h h' hidle]

end Same

end Alike

end Orchestration
