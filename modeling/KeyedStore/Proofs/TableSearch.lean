import KeyedStore.Proofs.TableAgreement
import KeyedStore.Shelf

/-!
# Searching every table

A lookup passes over a table when the key lies outside the range of its keys. The plain search asks the
index of every table and lets the first one that has the key decide. Both give the same on any tables and any
disk, so ranges only save work: what an older table holds, and whether it can still be read, has no say once
a newer table decides.
-/

namespace KeyedStore

open Std (TreeMap)

namespace Table.Index

variable {i : Index} {key : Bytes}

/-- A key lies in the range of an index exactly if some key of the index is at most as large and some key is
at least as large. -/
theorem mightContain_iff : i.mightContain key = true ↔
    (∃ k ∈ i.offsets, (compare k key).isLE) ∧ ∃ k ∈ i.offsets, (compare key k).isLE := by
  constructor
  · intro h
    rw [mightContain] at h
    split at h
    · next least greatest hl hg =>
      rw [Bool.and_eq_true] at h
      exact ⟨⟨least, (TreeMap.minKey?_eq_some_iff_mem_and_forall.1 hl).1, h.1⟩,
        greatest, (TreeMap.maxKey?_eq_some_iff_mem_and_forall.1 hg).1, h.2⟩
    · contradiction
  · rintro ⟨⟨low, hlow, hle⟩, high, hhigh, hge⟩
    obtain ⟨least, hl⟩ := Option.isSome_iff_exists.1 (TreeMap.isSome_minKey?_of_mem hlow)
    obtain ⟨greatest, hg⟩ := Option.isSome_iff_exists.1 (TreeMap.isSome_maxKey?_of_mem hhigh)
    have hleast := (TreeMap.minKey?_eq_some_iff_mem_and_forall.1 hl).2 low hlow
    have hgreatest := (TreeMap.maxKey?_eq_some_iff_mem_and_forall.1 hg).2 high hhigh
    simp only [mightContain, minKey?, maxKey?, hl, hg, Std.TransCmp.isLE_trans hleast hle,
      Std.TransCmp.isLE_trans hge hgreatest, Bool.and_self]

theorem mightContain_ofRows (rows : List Row) (key : Bytes) : (ofRows rows).mightContain key =
    ((rows.any fun row => (compare row.1 key).isLE) && rows.any fun row => (compare key row.1).isLE) := by
  rw [Bool.eq_iff_iff, mightContain_iff]
  simp only [mem_ofRows, List.mem_map, exists_exists_and_eq_and, Bool.and_eq_true, List.any_eq_true]

end Table.Index

namespace Shelf

open Table

variable {key : Bytes} {t : Table} {newer : List Table}

/-- What the first of some tables whose index has a key says of it, every index being asked. -/
def searchAll (d : Disk) (key : Bytes) (tables : List Table) : Except Error (Option Version) :=
  match tables.find? fun t => key ∈ t.index.offsets with
  | none => .ok none
  | some t => t.get? d key

theorem get?_of_not_mem (h : key ∉ t.index.offsets) (d : Disk) : t.get? d key = .ok none := by
  have hnone : t.index.offsets[key]? = none := by
    rw [TreeMap.mem_iff_isSome_getElem?, Option.not_isSome_iff_eq_none] at h
    exact h
  rw [Table.get?, Index.lookup_eq_none_iff.2 hnone]
  rfl

/-- A table whose index has a key never passes it on to older tables. -/
theorem get?_ne_none_of_mem (h : key ∈ t.index.offsets) (d : Disk) : t.get? d key ≠ .ok none := by
  rw [TreeMap.mem_iff_isSome_getElem?, Option.isSome_iff_ne_none] at h
  rw [Table.get?]
  cases hl : t.index.lookup (d.content t.file) key with
  | error fault => simp [Except.mapError]
  | ok version? =>
    rintro ⟨⟩
    exact h (Index.lookup_eq_none_iff.1 hl)

theorem lookup_cons_of_mem (h : key ∈ t.index.offsets) (d : Disk) (older : List Table) :
    lookup d key (t :: older) = t.get? d key := by
  have hdecides := get?_ne_none_of_mem h d
  rw [lookup, if_pos (Index.mightContain_of_mem h)]
  cases hg : t.get? d key with
  | error e => rfl
  | ok version? =>
    cases version? with
    | none => exact absurd hg hdecides
    | some version => rfl

theorem lookup_cons_of_not_mem (h : key ∉ t.index.offsets) (d : Disk) (older : List Table) :
    lookup d key (t :: older) = lookup d key older := by
  rw [lookup, get?_of_not_mem h]
  split
  · rfl
  · rfl

theorem lookup_eq_searchAll (d : Disk) (key : Bytes) (tables : List Table) :
    lookup d key tables = searchAll d key tables := by
  induction tables with
  | nil => rfl
  | cons t older ih =>
    by_cases h : key ∈ t.index.offsets
    · rw [lookup_cons_of_mem h, searchAll, List.find?_cons, decide_eq_true h]
    · rw [lookup_cons_of_not_mem h, ih, searchAll, searchAll, List.find?_cons, decide_eq_false h]

/-- The newest table whose index has a key decides alone. -/
theorem searchAll_append (hnewer : ∀ u ∈ newer, key ∉ u.index.offsets) (ht : key ∈ t.index.offsets)
    (d : Disk) (older : List Table) : searchAll d key (newer ++ t :: older) = t.get? d key := by
  induction newer with
  | nil => rw [List.nil_append, ← lookup_eq_searchAll, lookup_cons_of_mem ht]
  | cons u newer ih =>
    rw [List.cons_append, ← lookup_eq_searchAll, lookup_cons_of_not_mem (hnewer u List.mem_cons_self),
      lookup_eq_searchAll, ih fun u hu => hnewer u (List.mem_cons_of_mem _ hu)]

/-- Ranges never change what a shelf gives for a key, a value, none or an error: it is what the search of all
tables gives. In it the newest table whose index has the key decides, whatever older tables there are and
whatever became of their files; if it says that the key was deleted, the key has no value. -/
theorem get?_ignores_ranges (s : Shelf) (d : Disk) (key : Bytes) :
    s.get? d key = (searchAll d key s.tables).map (·.bind Version.live?) ∧
    ∀ newer t older, s.tables = newer ++ t :: older → (∀ u ∈ newer, key ∉ u.index.offsets) →
      key ∈ t.index.offsets →
        s.get? d key = (t.get? d key).map (·.bind Version.live?) ∧
        (t.get? d key = .ok (some .tombstone) → s.get? d key = .ok none) ∧
        ∀ older' d', d'.content t.file = d.content t.file →
          ({ s with tables := newer ++ t :: older' } : Shelf).get? d' key = s.get? d key := by
  have hget : ∀ (s : Shelf) (d : Disk), s.get? d key = (searchAll d key s.tables).map (·.bind Version.live?) := by
    intro s d
    rw [get?, lookup_eq_searchAll]
    rfl
  refine ⟨hget s d, fun newer t older htables hnewer ht => ?_⟩
  have hdecides : s.get? d key = (t.get? d key).map (·.bind Version.live?) := by
    rw [hget, htables, searchAll_append hnewer ht]
  refine ⟨hdecides, fun htombstone => ?_, fun older' d' hcontent => ?_⟩
  · rw [hdecides, htombstone]
    rfl
  · rw [hget, searchAll_append hnewer ht, hdecides, Table.get?, Table.get?, hcontent]

/-- The rows of four tables, the newest first. The first one has no key as large as 98, the second one has a
smaller and a larger key, the third one says that 98 was deleted, and the last one has a value for it. -/
def overlappingRows : List (List Row) :=
  [[([97], .value [1])], [([97], .value [2]), ([99], .value [3])], [([98], .tombstone)], [([98], .value [4])]]

/-- A disk with the files of all but the last of these tables, whose file has lost its bytes. -/
def damagedDisk : Disk where
  contents := (overlappingRows.dropLast.map fun rows => Content.ofBytes (encode rows)).toArray

def overlappingShelf : Shelf where
  dir := []
  tables := overlappingRows.zipIdx.map fun (rows, i) => { path := [], file := i, index := Index.ofRows rows }

/-- A deleted key has no value although the range of a newer table has it and the file of an older table
cannot be read. -/
theorem get?_ignores_ranges_of_damage :
    (∀ rows ∈ overlappingRows, Index.ofBytes (encode rows) = .ok (Index.ofRows rows)) ∧
      overlappingShelf.tables.map (·.index.mightContain [98]) = [false, true, true, true] ∧
      lookup damagedDisk [98] (overlappingShelf.tables.drop 3) = .error (.file .endOfData) ∧
      overlappingShelf.get? damagedDisk [98] = .ok none := by
  have hstorable : ∀ rows ∈ overlappingRows, Storable rows ∧ dataEnd rows < Bytes.bound 8 := by
    intro rows hrows
    refine ⟨⟨?_, ?_⟩, ?_⟩
    · rw [Ascending]
      revert rows
      decide
    · revert rows
      decide
    · revert rows
      decide
  refine ⟨fun rows hrows => Index.ofBytes_encode (hstorable rows hrows).1 (hstorable rows hrows).2,
    ?_, ?_, ?_⟩
  · simp only [overlappingShelf, List.map_map, Function.comp_def, Index.mightContain_ofRows]
    decide
  · exact lookup_cons_of_mem (by decide) damagedDisk []
  · obtain ⟨-, hdecides⟩ := get?_ignores_ranges overlappingShelf damagedDisk [98]
    exact (hdecides (overlappingShelf.tables.take 2) _ (overlappingShelf.tables.drop 3) rfl (by decide)
      (by decide)).2.1 rfl

end Shelf

end KeyedStore
