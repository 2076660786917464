import KeyedStore.Proofs.AcceptedTables

/-!
# Lookups and scans of one table

A lookup follows the index and does not compare the key that stands at the place; a scan reads the
rows and does not look at the index. On a file of a builder they agree. On a file that is merely
accepted they agree exactly if its records are an index of its rows, which no check establishes.
-/

namespace KeyedStore.Table

open Bytes

variable {bs : Bytes} {rows : List Row} {key : Bytes} {v : Version} {i : Index}

namespace Index

/-- A scan gives every key once, and a lookup gives for each key what the scan gives for it. -/
def Agrees (i : Index) (file : Bytes) : Prop :=
  ∃ rows, i.scan file = .ok rows ∧ (rows.map Prod.fst).Nodup ∧
    ∀ key, (∀ v, i.lookup file key = .ok (some v) ↔ (key, v) ∈ rows) ∧
      (i.lookup file key = .ok none ↔ key ∉ rows.map Prod.fst)

theorem scan_eq_ok_iff : i.scan bs = .ok rows ↔
    readRows? (i.dataEnd - headerSize) (bs.drop headerSize) = some rows := by
  rw [scan]
  split
  · next hrows => rw [hrows, Except.ok.injEq, Option.some.injEq]
  · next hrows => simp [hrows]

theorem lookup_eq_none_iff : i.lookup bs key = .ok none ↔ i.offsets[key]? = none := by
  rw [lookup]
  split
  · next hnone => simp [hnone]
  · next offset hoffset =>
    rw [hoffset]
    split
    · simp
    · split <;> simp

theorem lookup_eq_some_iff : i.lookup bs key = .ok (some v) ↔
    ∃ offset < offsetLimit, i.offsets[key]? = some offset ∧ States (bs.drop offset) v := by
  simp only [← readVersion?_eq_some_iff]
  rw [lookup]
  split
  · next hnone => simp [hnone]
  · next offset hoffset =>
    simp only [hoffset, Option.some.injEq]
    split
    · next hlimit =>
      simp only [reduceCtorEq, false_iff, not_exists, not_and]
      rintro _ hlt rfl
      omega
    · next hlimit =>
      constructor
      · intro h
        split at h
        · next version hversion =>
          cases h
          exact ⟨offset, Nat.not_le.1 hlimit, rfl, hversion⟩
        · contradiction
      · rintro ⟨_, -, rfl, hversion⟩
        rw [hversion]

/-- Lookups give what some rows say exactly if the index has the keys of the rows and leads from each to
its version. -/
theorem forall_lookup_iff :
    (∀ key, (∀ v, i.lookup bs key = .ok (some v) ↔ (key, v) ∈ rows) ∧
      (i.lookup bs key = .ok none ↔ key ∉ rows.map Prod.fst)) ↔
    (∀ key, key ∈ i.offsets ↔ key ∈ rows.map Prod.fst) ∧
      ∀ row ∈ rows, ∃ offset < offsetLimit, i.offsets[row.1]? = some offset ∧
        States (bs.drop offset) row.2 := by
  constructor
  · intro h
    refine ⟨fun key => ?_, fun row hrow => lookup_eq_some_iff.1 (((h row.1).1 row.2).2 hrow)⟩
    have hnone := not_congr (h key).2
    rw [lookup_eq_none_iff, not_not] at hnone
    rw [← hnone, Std.TreeMap.mem_iff_isSome_getElem?, Option.isSome_iff_ne_none]
  · rintro ⟨hkeys, hleads⟩ key
    have hgets : ∀ v, (key, v) ∈ rows → i.lookup bs key = .ok (some v) :=
      fun v hrow => lookup_eq_some_iff.2 (hleads (key, v) hrow)
    refine ⟨fun v => ⟨fun hget => ?_, hgets v⟩, ?_⟩
    · obtain ⟨offset, -, hoffset, -⟩ := lookup_eq_some_iff.1 hget
      have hmem := (hkeys key).1 (Std.TreeMap.mem_iff_isSome_getElem?.2 (by simp [hoffset]))
      obtain ⟨⟨_, w⟩, hrow, rfl⟩ := List.mem_map.1 hmem
      rw [hgets w hrow] at hget
      cases hget
      exact hrow
    · rw [lookup_eq_none_iff, ← hkeys, Std.TreeMap.mem_iff_isSome_getElem?,
        Option.not_isSome_iff_eq_none]

end Index

/-- The records of a file are an index of its rows: complete rows with distinct keys stand from the
header up to where they are said to end, the records have the keys of these rows, and the last record
for a key leads to a place that states what the row says. -/
structure Parts.Indexes (p : Parts) (rows : List Row) : Prop where
  fills : Fills p.data.length rows
  lengths : ∀ row ∈ rows, row.1.length < bound 4 ∧ row.2.length < tombstoneMark
  stand : ∃ rest, p.file.drop headerSize = encodeRows rows ++ rest
  nodup : (rows.map Prod.fst).Nodup
  keys : ∀ key, key ∈ p.records.map Prod.fst ↔ key ∈ rows.map Prod.fst
  leads : ∀ row ∈ rows, ∃ offset < Index.offsetLimit, p.records.reverse.lookup row.1 = some offset ∧
    States (p.file.drop offset) row.2

theorem Parts.scan_eq_ok_iff (p : Parts) : p.index.scan p.file = .ok rows ↔
    Fills p.data.length rows ∧ (∀ row ∈ rows, row.1.length < bound 4 ∧ row.2.length < tombstoneMark) ∧
      ∃ rest, p.file.drop headerSize = encodeRows rows ++ rest := by
  rw [Index.scan_eq_ok_iff, index, Nat.add_sub_cancel_left, readRows?_eq_some_iff]

theorem Parts.agrees_iff (p : Parts) : p.index.Agrees p.file ↔ ∃ rows, p.Indexes rows := by
  have hoffset : ∀ key, p.index.offsets[key]? = p.records.reverse.lookup key :=
    getElem?_offsetMap_eq p.records
  refine exists_congr fun rows => ?_
  rw [p.scan_eq_ok_iff]
  constructor
  · rintro ⟨⟨hfills, hlengths, hstand⟩, hn, hgets⟩
    obtain ⟨hkeys, hleads⟩ := Index.forall_lookup_iff.1 hgets
    exact ⟨hfills, hlengths, hstand, hn, fun key => mem_offsetMap.symm.trans (hkeys key),
      by simpa only [hoffset] using hleads⟩
  · intro h
    refine ⟨⟨h.fills, h.lengths, h.stand⟩, h.nodup, Index.forall_lookup_iff.2 ⟨?_, ?_⟩⟩
    · exact fun key => mem_offsetMap.trans (h.keys key)
    · simpa only [hoffset] using h.leads

/-- On the file that a builder makes, lookups and the scan agree. -/
theorem Index.agrees_encode (h : Storable rows) (hd : Table.dataEnd rows ≤ offsetLimit) :
    (ofRows rows).Agrees (encode rows) := by
  have hlookup : ∀ key v, rows.lookup key = some v ↔ (key, v) ∈ rows :=
    fun key v => ⟨mem_of_lookup, h.ascending.lookup_of_mem⟩
  refine ⟨rows, scan_encode h, h.ascending.nodup_keys, fun key => ?_⟩
  rw [lookup_encode h hd]
  refine ⟨fun v => by rw [Except.ok.injEq, hlookup], ?_⟩
  rw [Except.ok.injEq, Option.eq_none_iff_forall_ne_some]
  simp only [ne_eq, hlookup, List.mem_map, Prod.exists, exists_and_right, exists_eq_right, not_exists]

/-- On a file that is accepted, lookups and the scan agree exactly if the records are an index of the
rows. -/
theorem Index.agrees_iff_indexes (h : Index.ofBytes bs = .ok i) :
    ∃ p : Parts, bs = p.file ∧ i = p.index ∧ (i.Agrees bs ↔ ∃ rows, p.Indexes rows) := by
  obtain ⟨p, rfl, rfl⟩ := Index.ofBytes_eq_ok_iff.1 h
  exact ⟨p, rfl, rfl, p.agrees_iff⟩

theorem Index.agrees_iff_indexes_of_built_file :
    Index.ofBytes (encode [([97], .value [50]), ([98], .tombstone)]) =
      .ok (ofRows [([97], .value [50]), ([98], .tombstone)]) ∧
    ∃ p : Parts, encode [([97], .value [50]), ([98], .tombstone)] = p.file ∧
      ∃ rows, p.Indexes rows := by
  have hs : Storable [([97], .value [50]), ([98], .tombstone)] :=
    ⟨by rw [Ascending]; decide, by decide⟩
  have hopen := ofBytes_encode hs (by decide)
  obtain ⟨p, hfile, -, hiff⟩ := agrees_iff_indexes hopen
  exact ⟨hopen, p, hfile, hiff.1 (agrees_encode hs (by decide))⟩

/-- A file with one row, whose only record leads from another key to it. -/
def misindexed : Parts where
  data := encodeRows [([97], .value [50])]
  records := [([98], 14)]
  padding := le 4 0
  dataEnd_lt := by decide
  size_lt := by decide
  records_lt := by decide
  length_padding := rfl

/-- A file can be accepted and yet hold a row that a scan gives and no lookup finds, and give a value
for a key that no row has. -/
theorem misindexed_not_agrees : Index.ofBytes misindexed.file = .ok misindexed.index ∧
    misindexed.index.scan misindexed.file = .ok [([97], .value [50])] ∧
    misindexed.index.lookup misindexed.file [97] = .ok none ∧
    misindexed.index.lookup misindexed.file [98] = .ok (some (.value [50])) ∧
    ¬ misindexed.index.Agrees misindexed.file := by
  have hrows := misindexed.drop_headerSize_file
  have hscan : misindexed.index.scan misindexed.file = .ok [([97], .value [50])] := by
    rw [misindexed.scan_eq_ok_iff, hrows]
    exact ⟨fills_length _, by decide, _, rfl⟩
  have hnone : misindexed.index.lookup misindexed.file [97] = .ok none := by
    rw [Index.lookup_eq_none_iff]
    decide
  refine ⟨misindexed.ofBytes_file, hscan, hnone, ?_, ?_⟩
  · rw [Index.lookup_eq_some_iff]
    refine ⟨14, by decide, rfl, ?_⟩
    rw [← headerSize, hrows]
    exact ⟨1, _, by decide, by decide, rfl, _, rfl⟩
  · rintro ⟨rows, hrows, -, hgets⟩
    rw [hscan] at hrows
    cases hrows
    exact (hgets [97]).2.1 hnone (by decide)

end KeyedStore.Table
