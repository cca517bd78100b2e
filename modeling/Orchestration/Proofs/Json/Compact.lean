import Orchestration.Json.Basic
import Mathlib.Data.List.Basic
import Mathlib.Logic.Function.Basic

/-!
# What a compact text says

The compact text of a value tells the value, and it tells where it ends: whatever follows it can be
taken off again. So no two values have one text.
-/

namespace Orchestration.Json

/-! ## Texts between quotes -/

/-- The number that a hexadecimal digit stands for. -/
def hexValue (c : Char) : Nat :=
  if c.toNat < 'a'.toNat then c.toNat - '0'.toNat else c.toNat - 'a'.toNat + 10

/-- The characters with an escape of one letter. -/
def shortEscapes : List (Char × Char) :=
  [('"', '"'), ('\\', '\\'), ('n', '\n'), ('r', '\r'), ('t', '\t'), ('b', '\x08'), ('f', '\x0c')]

/-- The first character that a written text stands for, and what is written after it; there is none at
the closing quote. -/
def readChar : List Char → Option (Char × List Char)
  | [] => none
  | '\\' :: 'u' :: '0' :: '0' :: high :: low :: rest =>
    some (Char.ofNat (16 * hexValue high + hexValue low), rest)
  | '\\' :: letter :: rest => (shortEscapes.lookup letter).map fun c => (c, rest)
  | c :: rest => if c = '"' then none else some (c, rest)

theorem hexValue_hexDigit : ∀ n < 16, hexValue (hexDigit n) = n := by
  decide

theorem readChar_escapeChar (c : Char) (rest : List Char) :
    readChar (escapeChar c ++ rest) = some (c, rest) := by
  unfold escapeChar
  -- the escapes of one letter
  iterate 7
    split
    case isTrue h => subst h; rfl
  split
  case isTrue hcontrol =>
    have hhigh : hexValue (hexDigit (c.toNat / 16)) = c.toNat / 16 := hexValue_hexDigit _ (by omega)
    have hlow : hexValue (hexDigit (c.toNat % 16)) = c.toNat % 16 := hexValue_hexDigit _ (by omega)
    have hcode : 16 * (c.toNat / 16) + c.toNat % 16 = c.toNat := Nat.div_add_mod _ _
    simp only [List.cons_append, List.nil_append, readChar, hhigh, hlow, hcode, Char.ofNat_toNat]
  case isFalse =>
    rename_i hquote hslash _ _ _ _ _ _
    simp [readChar, hquote, hslash]

theorem escapes_append_inj {cs ds r r' : List Char}
    (h : cs.flatMap escapeChar ++ '"' :: r = ds.flatMap escapeChar ++ '"' :: r') :
    cs = ds ∧ r = r' := by
  have hclosing : ∀ rest, readChar ('"' :: rest) = none := fun _ => rfl
  induction cs generalizing ds with
  | nil =>
    cases ds with
    | nil => exact ⟨rfl, (List.cons.inj h).2⟩
    | cons d ds =>
      have hread := congrArg readChar h
      rw [List.flatMap_cons, List.append_assoc, readChar_escapeChar] at hread
      cases hread
  | cons c cs ih =>
    have hread := congrArg readChar h
    rw [List.flatMap_cons, List.append_assoc, readChar_escapeChar] at hread
    cases ds with
    | nil => cases hread
    | cons d ds =>
      rw [List.flatMap_cons, List.append_assoc, readChar_escapeChar] at hread
      obtain ⟨rfl, hrest⟩ := Prod.mk.inj (Option.some.inj hread)
      obtain ⟨rfl, rfl⟩ := ih hrest
      exact ⟨rfl, rfl⟩

theorem quote_append_inj {s t : String} {r r' : List Char} (h : quote s ++ r = quote t ++ r') :
    s = t ∧ r = r' := by
  simp only [quote, List.cons_append, List.append_assoc, List.nil_append, List.cons.injEq,
    true_and] at h
  obtain ⟨htext, hrest⟩ := escapes_append_inj h
  exact ⟨String.toList_inj.1 htext, hrest⟩

/-! ## Values -/

/-- An induction over values that has the hypothesis for every item and for every entry. -/
@[elab_as_elim]
theorem induction {P : Json → Prop} (null : P null) (bool : ∀ b, P (bool b)) (str : ∀ s, P (str s))
    (arr : ∀ items, (∀ item ∈ items, P item) → P (arr items))
    (obj : ∀ entries, (∀ entry ∈ entries, P entry.2) → P (obj entries)) : ∀ j, P j
  | .null => null
  | .bool b => bool b
  | .str s => str s
  | .arr items => arr items fun item _ => induction null bool str arr obj item
  | .obj entries => obj entries fun entry _ => induction null bool str arr obj entry.2
termination_by j => sizeOf j
decreasing_by
  · rename_i hitem
    have := List.sizeOf_lt_of_mem hitem
    simp only [Json.arr.sizeOf_spec]
    omega
  · rename_i hentry
    have := List.sizeOf_lt_of_mem hentry
    obtain ⟨key, value⟩ := entry
    simp only [Json.obj.sizeOf_spec, Prod.mk.sizeOf_spec] at this ⊢
    omega

/-- The character that the text of a value begins with. -/
def leadChar : Json → Char
  | null => 'n'
  | bool true => 't'
  | bool false => 'f'
  | str _ => '"'
  | arr _ => '['
  | obj _ => '\x7b'

theorem head?_compactText (j : Json) (r : List Char) :
    (compactText j ++ r).head? = some j.leadChar := by
  match j with
  | null => rfl
  | bool true => rfl
  | bool false => rfl
  | str s => rfl
  | arr [] => rfl
  | arr (item :: items) => rfl
  | obj [] => rfl
  | obj ((key, value) :: entries) => rfl

theorem leadChar_eq_of_append {j k : Json} {r r' : List Char}
    (h : compactText j ++ r = compactText k ++ r') : j.leadChar = k.leadChar := by
  have hhead := head?_compactText j r
  rw [h, head?_compactText] at hhead
  exact (Option.some.inj hhead).symm

/-- No value begins like the end of an array. -/
theorem compactText_append_ne_bracket (j : Json) (r r' : List Char) :
    compactText j ++ r ≠ ']' :: r' := by
  intro h
  have hhead := head?_compactText j r
  rw [h] at hhead
  have hlead : ']' = j.leadChar := Option.some.inj hhead
  unfold leadChar at hlead
  split at hlead <;> exact absurd hlead (by decide)

/-- Whatever follows the text of the value, the value and what follows can be told. -/
def Told (j : Json) : Prop :=
  ∀ k r r', compactText j ++ r = compactText k ++ r' → j = k ∧ r = r'

theorem told_items {items : List Json} (hitems : ∀ item ∈ items, Told item) :
    ∀ items' r r', compactItems items ++ r = compactItems items' ++ r' →
      items = items' ∧ r = r' := by
  induction items with
  | nil =>
    intro items' r r' h
    cases items' with
    | nil => exact ⟨rfl, (List.cons.inj h).2⟩
    | cons item' items' => simp [compactItems] at h
  | cons item items ih =>
    intro items' r r' h
    cases items' with
    | nil => simp [compactItems] at h
    | cons item' items' =>
      simp only [compactItems, List.cons_append, List.append_assoc, List.cons.injEq, true_and] at h
      obtain ⟨rfl, hrest⟩ := hitems item List.mem_cons_self _ _ _ h
      obtain ⟨rfl, rfl⟩ := ih (fun x hx => hitems x (List.mem_cons_of_mem _ hx)) _ _ _ hrest
      exact ⟨rfl, rfl⟩

theorem told_entry {entry entry' : String × Json} {r r' : List Char} (hvalue : Told entry.2)
    (h : quote entry.1 ++ ':' :: (compactText entry.2 ++ r) =
      quote entry'.1 ++ ':' :: (compactText entry'.2 ++ r')) :
    entry = entry' ∧ r = r' := by
  obtain ⟨hkey, hrest⟩ := quote_append_inj h
  obtain ⟨hsame, rfl⟩ := hvalue _ _ _ (List.cons.inj hrest).2
  exact ⟨Prod.ext hkey hsame, rfl⟩

theorem told_entries {entries : List (String × Json)} (hentries : ∀ entry ∈ entries, Told entry.2) :
    ∀ entries' r r', compactEntries entries ++ r = compactEntries entries' ++ r' →
      entries = entries' ∧ r = r' := by
  induction entries with
  | nil =>
    intro entries' r r' h
    cases entries' with
    | nil => exact ⟨rfl, (List.cons.inj h).2⟩
    | cons entry' entries' => simp [compactEntries] at h
  | cons entry entries ih =>
    intro entries' r r' h
    cases entries' with
    | nil => simp [compactEntries] at h
    | cons entry' entries' =>
      simp only [compactEntries, List.cons_append, List.append_assoc, List.cons.injEq,
        true_and] at h
      obtain ⟨rfl, hrest⟩ := told_entry (hentries entry List.mem_cons_self) h
      obtain ⟨rfl, rfl⟩ := ih (fun x hx => hentries x (List.mem_cons_of_mem _ hx)) _ _ _ hrest
      exact ⟨rfl, rfl⟩

theorem told_arr {items : List Json} (hitems : ∀ item ∈ items, Told item) :
    ∀ items' r r', compactText (arr items) ++ r = compactText (arr items') ++ r' →
      items = items' ∧ r = r' := by
  intro items' r r' h
  cases items with
  | nil =>
    cases items' with
    | nil => exact ⟨rfl, by simpa [compactText] using h⟩
    | cons item' items' =>
      simp only [compactText, List.cons_append, List.append_assoc, List.cons.injEq, true_and] at h
      exact absurd h.symm (compactText_append_ne_bracket _ _ _)
  | cons item items =>
    cases items' with
    | nil =>
      simp only [compactText, List.cons_append, List.append_assoc, List.cons.injEq, true_and] at h
      exact absurd h (compactText_append_ne_bracket _ _ _)
    | cons item' items' =>
      simp only [compactText, List.cons_append, List.append_assoc, List.cons.injEq, true_and] at h
      obtain ⟨rfl, hrest⟩ := hitems item List.mem_cons_self _ _ _ h
      obtain ⟨rfl, rfl⟩ := told_items (fun x hx => hitems x (List.mem_cons_of_mem _ hx)) _ _ _ hrest
      exact ⟨rfl, rfl⟩

theorem told_obj {entries : List (String × Json)} (hentries : ∀ entry ∈ entries, Told entry.2) :
    ∀ entries' r r', compactText (obj entries) ++ r = compactText (obj entries') ++ r' →
      entries = entries' ∧ r = r' := by
  intro entries' r r' h
  cases entries with
  | nil =>
    cases entries' with
    | nil => exact ⟨rfl, by simpa [compactText] using h⟩
    | cons entry' entries' => simp [compactText, quote] at h
  | cons entry entries =>
    cases entries' with
    | nil => simp [compactText, quote] at h
    | cons entry' entries' =>
      simp only [compactText, List.cons_append, List.append_assoc, List.cons.injEq, true_and] at h
      obtain ⟨rfl, hrest⟩ := told_entry (hentries entry List.mem_cons_self) h
      obtain ⟨rfl, rfl⟩ :=
        told_entries (fun x hx => hentries x (List.mem_cons_of_mem _ hx)) _ _ _ hrest
      exact ⟨rfl, rfl⟩

/-- Every value can be told from its text. -/
theorem told (j : Json) : Told j := by
  induction j using induction with
  | null =>
    intro k r r' h
    have hlead := leadChar_eq_of_append h
    cases k with
    | null => exact ⟨rfl, by simpa [compactText] using h⟩
    | bool b => cases b <;> cases hlead
    | str | arr | obj => cases hlead
  | bool b =>
    intro k r r' h
    have hlead := leadChar_eq_of_append h
    cases k with
    | bool b' => cases b <;> cases b' <;> simp_all [compactText]
    | null | str | arr | obj => cases b <;> cases hlead
  | str s =>
    intro k r r' h
    have hlead := leadChar_eq_of_append h
    cases k with
    | str t =>
      obtain ⟨rfl, rfl⟩ := quote_append_inj h
      exact ⟨rfl, rfl⟩
    | bool b => cases b <;> cases hlead
    | null | arr | obj => cases hlead
  | arr items ih =>
    intro k r r' h
    have hlead := leadChar_eq_of_append h
    cases k with
    | arr items' =>
      obtain ⟨rfl, rfl⟩ := told_arr ih _ _ _ h
      exact ⟨rfl, rfl⟩
    | bool b => cases b <;> cases hlead
    | null | str | obj => cases hlead
  | obj entries ih =>
    intro k r r' h
    have hlead := leadChar_eq_of_append h
    cases k with
    | obj entries' =>
      obtain ⟨rfl, rfl⟩ := told_obj ih _ _ _ h
      exact ⟨rfl, rfl⟩
    | bool b => cases b <;> cases hlead
    | null | str | arr => cases hlead

theorem compact_injective : Function.Injective compact := by
  intro j k h
  have htext : compactText j = compactText k := String.ofList_injective h
  exact (told j k [] [] (by rw [htext])).1

end Orchestration.Json
