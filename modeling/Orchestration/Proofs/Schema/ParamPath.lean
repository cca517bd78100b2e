import Orchestration.Proofs.Naming.IdentifierForm
import Orchestration.Proofs.Text.Blank
import Orchestration.Proofs.Text.Segments
import Orchestration.Schema.ParamPath

/-!
# Parameter paths as texts

A text denotes a path exactly if, less the white space around it, it is one or more identifiers with
one dot between each two of them. No identifier holds a dot, so such a text tells the names along the
path; and none holds white space, so the text that a path is displayed as is read back as the path.
-/

namespace Orchestration.ParamPath

open Naming Text

variable {text name : String} {ns : List String} {p : ParamPath}

/-- The names along a path, that of the parameter first. -/
def names (p : ParamPath) : List String :=
  p.root :: p.rest

/-- One or more identifiers joined by single dots, and the list of them. -/
inductive Dotted : String → List String → Prop where
  /-- An identifier by itself. -/
  | single {name : String} (identifier : IsIdentifier name) : Dotted name [name]
  /-- One more identifier in front, with a dot behind it. -/
  | cons {name text : String} {ns : List String} (identifier : IsIdentifier name)
      (rest : Dotted text ns) : Dotted (name ++ "." ++ text) (name :: ns)

/-! ## Dotted texts -/

theorem dot_notMem (h : IsIdentifier name) : '.' ∉ name.toList :=
  fun hc => absurd (h.isIdentifierRest hc) (by decide)

theorem Dotted.isIdentifier_of_mem (h : Dotted text ns) : ∀ name ∈ ns, IsIdentifier name := by
  induction h with
  | single hname => exact List.forall_mem_singleton.2 hname
  | cons hname _ ih => exact List.forall_mem_cons.2 ⟨hname, ih⟩

theorem Dotted.exists_path (h : Dotted text ns) : ∃ p : ParamPath, p.names = ns := by
  cases h with
  | single => exact ⟨⟨text, []⟩, rfl⟩
  | @cons name _ rest _ _ => exact ⟨⟨name, rest⟩, rfl⟩

/-- Splitting a dotted text at its dots gives its identifiers. -/
theorem Dotted.split_eq (h : Dotted text ns) : split '.' text = ns := by
  induction h with
  | single hname => exact split_of_notMem (dot_notMem hname)
  | cons hname _ ih =>
    rw [split_append rfl, split_of_notMem (dot_notMem hname), ih, List.singleton_append]

theorem Dotted.intercalate_eq (h : Dotted text ns) : ".".intercalate ns = text := by
  rw [← h.split_eq]
  exact intercalate_split rfl text

theorem dotted_intercalate (hne : ns ≠ []) (h : ∀ name ∈ ns, IsIdentifier name) :
    Dotted (".".intercalate ns) ns := by
  induction ns with
  | nil => exact absurd rfl hne
  | cons name rest ih =>
    obtain ⟨hname, hrest⟩ := List.forall_mem_cons.1 h
    cases rest with
    | nil =>
      rw [String.intercalate_singleton]
      exact .single hname
    | cons next rest =>
      rw [String.intercalate_cons_cons]
      exact .cons hname (ih (List.cons_ne_nil next rest) hrest)

/-- A text is dotted exactly if all that stands between its dots are identifiers. -/
theorem dotted_iff :
    Dotted text ns ↔ split '.' text = ns ∧ ∀ name ∈ ns, IsIdentifier name := by
  constructor
  · exact fun h => ⟨h.split_eq, h.isIdentifier_of_mem⟩
  · rintro ⟨rfl, h⟩
    have hjoined := dotted_intercalate (split_ne_nil '.' text) h
    rwa [intercalate_split rfl] at hjoined

/-- No white space stands in a dotted text. -/
theorem Dotted.isBlank_eq_false (h : Dotted text ns) {c : Char} (hc : c ∈ text.toList) :
    isBlank c = false := by
  have hidentifier {name : String} (hname : IsIdentifier name) (hc : c ∈ name.toList) :
      isBlank c = false := isBlank_of_isIdentifierRest (hname.isIdentifierRest hc)
  induction h with
  | single hname => exact hidentifier hname hc
  | cons hname _ ih =>
    rw [String.toList_append, String.toList_append, List.mem_append, List.mem_append] at hc
    rcases hc with (hc | hc) | hc
    · exact hidentifier hname hc
    · rw [List.mem_singleton.1 hc]
      decide
    · exact ih hc

theorem Dotted.trimmed_eq (h : Dotted text ns) : trimmed text = text := by
  rw [trimmed, trim_eq_self fun _ => h.isBlank_eq_false, String.ofList_toList]

/-! ## Reading and displaying -/

theorem names_injective {p q : ParamPath} (h : p.names = q.names) : p = q := by
  obtain ⟨hroot, hrest⟩ := List.cons.inj h
  cases p
  cases q
  rw [ParamPath.mk.injEq]
  exact ⟨hroot, hrest⟩

/-- A text denotes the path of its identifiers if it is dotted, and denotes none otherwise. White space
around it does not matter. -/
theorem parse?_eq_some_iff : parse? text = some p ↔ Dotted (trimmed text) p.names := by
  have hsplit : split '.' (trimmed text) = (segments '.' (trim text.toList)).map String.ofList := by
    rw [split, trimmed, String.toList_ofList]
  rw [dotted_iff, hsplit, parse?]
  cases hs : segments '.' (trim text.toList) with
  | nil => exact absurd hs (segments_ne_nil '.' _)
  | cons root rest =>
    dsimp only
    have hall : (isIdentifierText root && rest.all isIdentifierText) = true ↔
        ∀ name ∈ (root :: rest).map String.ofList, IsIdentifier name := by
      simp [← isIdentifier_iff, isIdentifier]
    by_cases h : (isIdentifierText root && rest.all isIdentifierText) = true
    · rw [if_pos h]
      constructor
      · intro hp
        rw [← Option.some.inj hp]
        exact ⟨rfl, hall.1 h⟩
      · rintro ⟨hnames, -⟩
        exact congrArg some (names_injective hnames)
    · rw [if_neg h]
      constructor
      · intro hp
        cases hp
      · rintro ⟨hnames, hidentifiers⟩
        rw [← hnames] at hidentifiers
        exact absurd (hall.2 hidentifiers) h

/-- Of the texts that come close to a path, a break in a line and a letter that is not ASCII are no more
allowed than a missing name. -/
example :
    parse? "\u00A0order_param.owner.id\n" = some ⟨"order_param", ["owner", "id"]⟩ ∧
      ["", ".id", "id.", "order..id", "order\n.id", "order. id", "\u00F3rder.id"].map parse? =
        List.replicate 7 none := by
  decide

/-- What stands in front of the first name stays in front. -/
theorem display_append (front root : String) (rest : List String) :
    display ⟨front ++ root, rest⟩ = front ++ display ⟨root, rest⟩ := by
  induction rest generalizing root with
  | nil => rfl
  | cons field rest ih =>
    show display ⟨front ++ root ++ "." ++ field, rest⟩ = front ++ display ⟨root ++ "." ++ field, rest⟩
    rw [← ih, String.append_assoc, String.append_assoc, String.append_assoc]

theorem display_eq (p : ParamPath) : p.display = ".".intercalate p.names := by
  obtain ⟨root, rest⟩ := p
  induction rest generalizing root with
  | nil => rw [names, String.intercalate_singleton]; rfl
  | cons field rest ih =>
    show display ⟨root ++ "." ++ field, rest⟩ = ".".intercalate (root :: field :: rest)
    rw [display_append, ih, names, String.intercalate_cons_cons]

/-- A path that a text denotes is displayed as the text is written, less the white space around it. -/
theorem display_of_parse? (h : parse? text = some p) : p.display = trimmed text := by
  rw [display_eq]
  exact (parse?_eq_some_iff.1 h).intercalate_eq

/-- A path of identifiers is what its display denotes. -/
theorem parse?_display (h : ∀ name ∈ p.names, IsIdentifier name) :
    parse? p.display = some p := by
  have hdotted : Dotted p.display p.names := by
    rw [display_eq]
    exact dotted_intercalate (List.cons_ne_nil _ _) h
  rw [parse?_eq_some_iff, hdotted.trimmed_eq]
  exact hdotted

end Orchestration.ParamPath
