import KeyedStore.Shelf

/-!
# Rows as finite maps

What some rows say about a key is what the first of them for that key says. The rows of a table are
in strictly ascending order of their keys, so there is at most one for each key, and merging several
tables keeps for each key what the first table that knows it says. Dropping the tombstones of a
table changes the live value of no key.
-/

namespace KeyedStore

open Std (TreeMap)

namespace Table

variable {rows : List Row} {key : Bytes} {v : Version}

/-- Rows in strictly ascending order of their keys. -/
def Ascending (rows : List Row) : Prop := rows.Pairwise fun a b => compare a.1 b.1 = .lt

theorem ascending_toList (m : TreeMap Bytes Version) : Ascending m.toList :=
  m.ordered_keys_toList

theorem Ascending.tail {row : Row} (h : Ascending (row :: rows)) : Ascending rows :=
  List.Pairwise.of_cons h

theorem Ascending.ne_head {row other : Row} (h : Ascending (row :: rows)) (ho : other ∈ rows) :
    row.1 ≠ other.1 := by
  intro he
  have hlt := List.rel_of_pairwise_cons h ho
  simp [he, Std.ReflOrd.compare_self] at hlt

theorem mem_of_lookup (h : rows.lookup key = some v) : (key, v) ∈ rows := by
  obtain ⟨front, back, rfl, -⟩ := List.lookup_eq_some_iff.1 h
  simp

theorem Ascending.lookup_of_mem (h : Ascending rows) (hm : (key, v) ∈ rows) :
    rows.lookup key = some v := by
  induction rows with
  | nil => simp at hm
  | cons row rows ih =>
    rw [List.lookup_cons]
    rcases List.mem_cons.1 hm with rfl | hm
    · simp
    · have hne := h.ne_head hm
      rw [beq_eq_false_iff_ne.2 (Ne.symm hne)]
      exact ih h.tail hm

theorem lookup_toList (m : TreeMap Bytes Version) (key : Bytes) : m.toList.lookup key = m[key]? := by
  cases hv : m[key]? with
  | some v =>
    exact (ascending_toList m).lookup_of_mem (TreeMap.mem_toList_iff_getElem?_eq_some.2 hv)
  | none =>
    rw [List.lookup_eq_none_iff]
    intro row hrow
    rw [bne_iff_ne]
    rintro rfl
    have := TreeMap.mem_toList_iff_getElem?_eq_some.1 hrow
    simp [hv] at this

end Table

namespace Shelf

open Table

variable {rows : List Row} {key : Bytes}

theorem getElem?_foldl_insertIfNew (rows : List Row) (m : TreeMap Bytes Version) (key : Bytes) :
    (rows.foldl (fun m row => m.insertIfNew row.1 row.2) m)[key]? = m[key]?.or (rows.lookup key) := by
  induction rows generalizing m with
  | nil => simp
  | cons row rows ih =>
    rw [List.foldl_cons, ih, TreeMap.getElem?_insertIfNew, List.lookup_cons]
    by_cases hk : row.1 = key
    · subst hk
      cases hm : m[row.1]? with
      | none => simp [TreeMap.mem_iff_isSome_getElem?, hm]
      | some v => simp [TreeMap.mem_iff_isSome_getElem?, hm]
    · have hb : (key == row.1) = false := beq_eq_false_iff_ne.2 (Ne.symm hk)
      simp [hk, hb]

/-- Of several versions of a key, a merge keeps the one that comes first. -/
theorem getElem?_merge (tables : List (List Row)) (key : Bytes) :
    (merge tables)[key]? = tables.flatten.lookup key := by
  simp [merge, getElem?_foldl_insertIfNew]

theorem ascending_live (h : Ascending rows) : Ascending (live rows) :=
  List.Pairwise.filter _ h

/-- A merge without its tombstones has the live values of the merged tables. -/
theorem lookup_live_bind (h : Ascending rows) (key : Bytes) :
    ((live rows).lookup key).bind Version.live? = (rows.lookup key).bind Version.live? := by
  induction rows with
  | nil => rfl
  | cons row rows ih =>
    obtain ⟨k, v⟩ := row
    have ih := ih h.tail
    by_cases hk : key = k
    · subst hk
      cases v with
      | value bytes => simp [live, Version.live?]
      | tombstone =>
        have hnone : rows.lookup key = none := by
          rw [List.lookup_eq_none_iff]
          intro other ho
          exact bne_iff_ne.2 (h.ne_head ho)
        rw [hnone] at ih
        simpa [live, Version.live?] using ih
    · have hb : (key == k) = false := beq_eq_false_iff_ne.2 hk
      cases v with
      | value bytes => simpa [live, Version.live?, List.lookup_cons, hb] using ih
      | tombstone => simpa [live, Version.live?, List.lookup_cons, hb] using ih

end Shelf

end KeyedStore
