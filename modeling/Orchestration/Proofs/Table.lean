import Orchestration.Table
import Mathlib.Data.List.Nodup

/-!
# The names in a table

A name is found in a table exactly if it is one of the table's names, and a name that is not there
goes to the end. The names in order, with what is found under them, are all there is to a table.
-/

namespace Orchestration.Table

variable {α β : Type} {t u : Table α} {k j : String} {v : α}

theorem nodup_keys (t : Table α) : t.keys.Nodup :=
  t.nodup

/-- The names are those under which something is found. -/
theorem mem_keys_iff : k ∈ t.keys ↔ ∃ v, t.get? k = some v := by
  constructor
  · intro h
    obtain ⟨⟨a, v⟩, he, rfl⟩ := List.mem_map.mp h
    exact ⟨v, mem_entries_iff_get?.1 he⟩
  · rintro ⟨v, h⟩
    exact List.mem_map.mpr ⟨(k, v), mem_entries_iff_get?.2 h, rfl⟩

theorem get?_eq_none_iff : t.get? k = none ↔ k ∉ t.keys := by
  rw [mem_keys_iff, Option.eq_none_iff_forall_ne_some]
  push Not
  rfl

theorem contains_eq_true_iff : t.contains k = true ↔ k ∈ t.keys := by
  rw [mem_keys_iff]
  exact Option.isSome_iff_exists

theorem insertEntry_of_notMem {es : List (String × α)} (h : k ∉ es.map Prod.fst) :
    insertEntry k v es = es ++ [(k, v)] := by
  induction es with
  | nil => rfl
  | cons e rest ih =>
    rw [List.map_cons, List.mem_cons, not_or] at h
    rw [insertEntry, if_neg (Ne.symm h.1), ih h.2, List.cons_append]

/-- A new name goes to the end. -/
theorem keys_insert_of_notMem (h : k ∉ t.keys) : (t.insert k v).keys = t.keys ++ [k] := by
  show (insertEntry k v t.entries).map Prod.fst = _
  rw [insertEntry_of_notMem h, List.map_append]
  rfl

/-- A table is its names in order and what is found under them. -/
theorem eq_of_keys (hkeys : t.keys = u.keys)
    (hvalues : ∀ k v w, t.get? k = some v → u.get? k = some w → v = w) : t = u := by
  have hlength : t.entries.length = u.entries.length := by
    have h := congrArg List.length hkeys
    simpa [keys] using h
  refine Table.ext (List.ext_getElem hlength fun i ht hu => ?_)
  have hname : t.entries[i].1 = u.entries[i].1 := by
    have h : t.keys[i]? = u.keys[i]? := by rw [hkeys]
    simpa [keys, ht, hu] using h
  have hmem : (t.entries[i].1, t.entries[i].2) ∈ t.entries := List.getElem_mem ht
  have hmem' : (u.entries[i].1, u.entries[i].2) ∈ u.entries := List.getElem_mem hu
  rw [← hname] at hmem'
  exact Prod.ext hname
    (hvalues _ _ _ (mem_entries_iff_get?.1 hmem) (mem_entries_iff_get?.1 hmem'))

/-! ## Changed tables -/

theorem get?_map (f : String → α → β) (t : Table α) (k : String) :
    (t.map f).get? k = (t.get? k).map (f k) := by
  ext w
  rw [← mem_entries_iff_get?, Option.map_eq_some_iff]
  constructor
  · intro h
    obtain ⟨⟨k', v⟩, hv, he⟩ := List.mem_map.1 h
    cases he
    exact ⟨v, mem_entries_iff_get?.1 hv, rfl⟩
  · rintro ⟨v, hv, rfl⟩
    exact List.mem_map.2 ⟨(k, v), mem_entries_iff_get?.2 hv, rfl⟩

theorem get?_filterKeys (p : String → Bool) (t : Table α) (k : String) :
    (t.filterKeys p).get? k = if p k then t.get? k else none := by
  ext v
  rw [← mem_entries_iff_get?, Option.ite_none_right_eq_some, ← mem_entries_iff_get?, and_comm]
  exact List.mem_filter

end Orchestration.Table
