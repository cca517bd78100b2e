/-!
# Ordered tables

A table maps names to values and remembers the order in which the names first came. Putting a value
under a name that is there replaces the value where it stands; a new name goes to the end. The
entries of a table therefore never repeat a name, which the type records.
-/

namespace Orchestration

/-- An ordered mapping from names to values. -/
structure Table (α : Type) where
  /-- The entries, in the order of their first insertion. -/
  entries : List (String × α)
  /-- No name occurs twice. -/
  nodup : (entries.map Prod.fst).Nodup
deriving DecidableEq

namespace Table

variable {α β : Type}

/-- The table without entries. -/
def empty : Table α :=
  ⟨[], List.nodup_nil⟩

instance : EmptyCollection (Table α) := ⟨empty⟩

instance : Inhabited (Table α) := ⟨empty⟩

/-- The names, in order. -/
def keys (t : Table α) : List String :=
  t.entries.map Prod.fst

/-- The values, in order. -/
def values (t : Table α) : List α :=
  t.entries.map Prod.snd

/-- The number of entries. -/
def size (t : Table α) : Nat :=
  t.entries.length

/-- Whether there is no entry. -/
def isEmpty (t : Table α) : Bool :=
  t.entries.isEmpty

/-- The value under a name. -/
def get? (t : Table α) (k : String) : Option α :=
  t.entries.lookup k

/-- Whether a name has a value. -/
def contains (t : Table α) (k : String) : Bool :=
  (t.get? k).isSome

/-- A list of entries with the value under `k` replaced, or `(k, v)` added at the end. -/
def insertEntry (k : String) (v : α) : List (String × α) → List (String × α)
  | [] => [(k, v)]
  | e :: rest => if e.1 = k then (k, v) :: rest else e :: insertEntry k v rest

/-- Inserting adds at most the name inserted. -/
theorem mem_keys_insertEntry {k x : String} {v : α} {es : List (String × α)} :
    x ∈ (insertEntry k v es).map Prod.fst ↔ x = k ∨ x ∈ es.map Prod.fst := by
  induction es with
  | nil => simp [insertEntry]
  | cons e rest ih =>
    by_cases h : e.1 = k
    · simp only [insertEntry, if_pos h, List.map_cons, List.mem_cons]
      constructor
      · rintro (h' | h')
        · exact Or.inl h'
        · exact Or.inr (Or.inr h')
      · rintro (h' | h' | h')
        · exact Or.inl h'
        · exact Or.inl (h'.trans h)
        · exact Or.inr h'
    · simp only [insertEntry, if_neg h, List.map_cons, List.mem_cons, ih]
      constructor
      · rintro (h' | h' | h')
        · exact Or.inr (Or.inl h')
        · exact Or.inl h'
        · exact Or.inr (Or.inr h')
      · rintro (h' | h' | h')
        · exact Or.inr (Or.inl h')
        · exact Or.inl h'
        · exact Or.inr (Or.inr h')

/-- Inserting repeats no name. -/
theorem nodup_insertEntry (k : String) (v : α) {es : List (String × α)}
    (h : (es.map Prod.fst).Nodup) : ((insertEntry k v es).map Prod.fst).Nodup := by
  induction es with
  | nil => simp [insertEntry]
  | cons e rest ih =>
    rw [List.map_cons, List.nodup_cons] at h
    by_cases he : e.1 = k
    · simpa [insertEntry, he] using ⟨by simpa [he] using h.1, h.2⟩
    · simp only [insertEntry, if_neg he, List.map_cons, List.nodup_cons]
      exact ⟨fun hm => (mem_keys_insertEntry.1 hm).elim he h.1, ih h.2⟩

/-- The table with `v` under `k`: at the place of `k` if it is there, else at the end. -/
def insert (t : Table α) (k : String) (v : α) : Table α :=
  ⟨insertEntry k v t.entries, nodup_insertEntry k v t.nodup⟩

/-- The table that results from inserting the pairs one after another. -/
def ofList (pairs : List (String × α)) : Table α :=
  pairs.foldl (fun t e => t.insert e.1 e.2) empty

/-- The table with every value changed. -/
def map (f : String → α → β) (t : Table α) : Table β :=
  ⟨t.entries.map fun e => (e.1, f e.1 e.2), by simpa [Function.comp_def] using t.nodup⟩

/-- The entries whose name passes a test, in order. -/
def filterKeys (p : String → Bool) (t : Table α) : Table α :=
  ⟨t.entries.filter fun e => p e.1, t.nodup.sublist (List.filter_sublist.map _)⟩

/-! ## First facts -/

@[ext]
theorem ext {s t : Table α} (h : s.entries = t.entries) : s = t := by
  cases s; cases t; cases h; rfl

theorem lookup_insertEntry_self (k : String) (v : α) (es : List (String × α)) :
    (insertEntry k v es).lookup k = some v := by
  induction es with
  | nil => simp [insertEntry]
  | cons e rest ih =>
    obtain ⟨a, b⟩ := e
    by_cases h : a = k
    · simp [insertEntry, h]
    · have hk : (k == a) = false := by simp [Ne.symm h]
      simp only [insertEntry, if_neg h, List.lookup_cons, hk, ih]

theorem lookup_insertEntry_of_ne {k j : String} (h : j ≠ k) (v : α) (es : List (String × α)) :
    (insertEntry k v es).lookup j = es.lookup j := by
  have hj : (j == k) = false := by simp [h]
  induction es with
  | nil => simp [insertEntry, List.lookup_cons, hj]
  | cons e rest ih =>
    obtain ⟨a, b⟩ := e
    by_cases he : a = k
    · subst he
      simp [insertEntry, List.lookup_cons, hj]
    · simp only [insertEntry, if_neg he, List.lookup_cons, ih]

/-- What is found under `k` after an insertion under `k` is the value inserted. -/
@[simp]
theorem get?_insert_self (t : Table α) (k : String) (v : α) : (t.insert k v).get? k = some v :=
  lookup_insertEntry_self k v t.entries

/-- An insertion changes nothing under any other name. -/
theorem get?_insert_of_ne {t : Table α} {k j : String} {v : α} (h : j ≠ k) :
    (t.insert k v).get? j = t.get? j :=
  lookup_insertEntry_of_ne h v t.entries

/-- A pair is an entry exactly if its value is found under its name. -/
theorem mem_entries_iff_get? {t : Table α} {k : String} {v : α} :
    (k, v) ∈ t.entries ↔ t.get? k = some v := by
  obtain ⟨es, hes⟩ := t
  unfold get?
  induction es with
  | nil => simp
  | cons e rest ih =>
    obtain ⟨a, b⟩ := e
    rw [List.map_cons, List.nodup_cons] at hes
    have ih := ih hes.2
    by_cases hk : k = a
    · subst hk
      have hn : ∀ w, (k, w) ∉ rest := fun w hw => hes.1 (List.mem_map.2 ⟨_, hw, rfl⟩)
      simp [hn, eq_comm]
    · have hka : (k == a) = false := by simp [hk]
      simp only [List.lookup_cons, hka, List.mem_cons, Prod.mk.injEq, hk, false_and, false_or]
      exact ih

end Table

end Orchestration
