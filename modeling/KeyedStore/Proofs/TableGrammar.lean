import KeyedStore.Proofs.AcceptedTables

/-!
# The grammar of table files

A file is a table exactly if its header, its footer, the bytes of its rows and its index say so: each of
these is looked at where the file has it, and the index is read as records up to its last byte. The number
in the header is that of the different keys in the records, and a key leads to where its last record says.
-/

namespace KeyedStore.Table

open Bytes

variable {bs : Bytes} {records other : List (Bytes × Nat)} {i : Index}

/-! ### Tables -/

/-- The number of different keys in some index records. -/
def keyCount (records : List (Bytes × Nat)) : Nat := (records.map Prod.fst).toFinset.card

/-- A file that is a table with some index records. -/
structure WellFormed (bs : Bytes) (records : List (Bytes × Nat)) : Prop where
  size : 30 ≤ bs.length
  magic : bs.take 4 = [83, 84, 75, 86]
  version : versionField bs = 1
  place_ge : 14 ≤ placeField bs
  place_le : placeField bs ≤ bs.length - 16
  checksum : checksumField bs = Checksum.crc32 (between bs 14 (placeField bs))
  fits : ∀ record ∈ records, record.1.length < bound 4 ∧ record.2 < bound 8
  index : between bs (placeField bs) (bs.length - 16) = records.flatMap encodeRecord
  count : countField bs = keyCount records

/-- A file has the index records of one table only. -/
theorem WellFormed.records_eq (h : WellFormed bs records) (h' : WellFormed bs other) : records = other := by
  have hread := readRecords_flatMap h.fits
  rw [← h.index, h'.index, readRecords_flatMap h'.fits] at hread
  exact (Except.ok.inj hread).symm

/-! ### Keys -/

theorem offsetMap_concat (records : List (Bytes × Nat)) (record : Bytes × Nat) :
    offsetMap (records ++ [record]) = (offsetMap records).insert record.1 record.2 := by
  rw [offsetMap, List.foldl_append]
  rfl

theorem size_offsetMap_eq_keyCount (records : List (Bytes × Nat)) :
    (offsetMap records).size = keyCount records := by
  induction records using List.reverseRec with
  | nil => rfl
  | append_singleton records record ih =>
    have hkeys : ((records ++ [record]).map Prod.fst).toFinset =
        insert record.1 (records.map Prod.fst).toFinset := by
      rw [List.map_append, List.toFinset_append, Finset.union_comm]
      rfl
    rw [offsetMap_concat, Std.TreeMap.size_insert, keyCount, hkeys]
    by_cases hmem : record.1 ∈ offsetMap records
    · have hkey : record.1 ∈ (records.map Prod.fst).toFinset := List.mem_toFinset.2 (mem_offsetMap.1 hmem)
      rw [if_pos (Std.TreeMap.mem_iff_contains.1 hmem), Finset.insert_eq_of_mem hkey, ih, keyCount]
    · have hkey : record.1 ∉ (records.map Prod.fst).toFinset :=
        fun h => hmem (mem_offsetMap.2 (List.mem_toFinset.1 h))
      rw [if_neg (mt Std.TreeMap.mem_iff_contains.2 hmem), Finset.card_insert_of_notMem hkey, ih, keyCount]

/-! ### Opening -/

/-- A file is opened exactly if it is a table, and what is loaded are its index records. -/
theorem Index.ofBytes_eq_ok_iff_wellFormed : ofBytes bs = .ok i ↔
    ∃ records, WellFormed bs records ∧ i = { offsets := offsetMap records, dataEnd := placeField bs } := by
  rw [ofBytes_eq_ite]
  simp only [ite_error_eq_ok_iff]
  constructor
  · rintro ⟨hsize, hmagic, hversion, hplace, hchecksum, h⟩
    cases hread : readRecords (between bs (placeField bs) (bs.length - footerSize)) with
    | error cause =>
      rw [hread] at h
      contradiction
    | ok records =>
      rw [hread, Except.bind, ite_error_eq_ok_iff] at h
      obtain ⟨hcount, ⟨⟩⟩ := h
      obtain ⟨hfits, hindex⟩ := readRecords_eq_ok_iff.1 hread
      rw [not_or, Nat.not_lt, gt_iff_lt, Nat.not_lt] at hplace
      refine ⟨records, ⟨Nat.not_lt.1 hsize, not_not.1 hmagic, not_not.1 hversion, hplace.1, hplace.2,
        (not_not.1 hchecksum).symm, hfits, hindex, ?_⟩, rfl⟩
      rw [← size_offsetMap_eq_keyCount]
      exact (not_not.1 hcount).symm
  · rintro ⟨records, h, rfl⟩
    have hread : readRecords (between bs (placeField bs) (bs.length - footerSize)) = .ok records :=
      readRecords_eq_ok_iff.2 ⟨h.fits, h.index⟩
    have hcount : (offsetMap records).size = countField bs := by
      rw [size_offsetMap_eq_keyCount, h.count]
    refine ⟨Nat.not_lt.2 h.size, not_not.2 h.magic, not_not.2 h.version, ?_, not_not.2 h.checksum.symm, ?_⟩
    · rw [not_or, Nat.not_lt, gt_iff_lt, Nat.not_lt]
      exact ⟨h.place_ge, h.place_le⟩
    · rw [hread]
      exact if_neg (not_not.2 hcount)

end KeyedStore.Table
