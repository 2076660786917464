import Mathlib
import KeyedStore.Proofs.Rows
import KeyedStore.Proofs.TableFields

/-!
# Table files

The file of some rows in ascending order, whose parts have lengths that fit their fields, is opened
again: the index leads from each key to its row, looking a key up gives what the rows say about it,
and a scan gives the rows. A file of the same rows that states another number of rows is refused. A
builder takes such rows without refusing any of them.
-/

namespace KeyedStore.Table

open Std (TreeMap)
open Bytes

variable {rows other : List Row} {row : Row} {key : Bytes} {v : Version} {count offset : Nat}

/-- Rows that a table file can hold. -/
structure Storable (rows : List Row) : Prop where
  ascending : Ascending rows
  lengths : ∀ row ∈ rows, row.1.length < tombstoneMark ∧ row.2.length < tombstoneMark

def dataEnd (rows : List Row) : Nat := headerSize + (encodeRows rows).length

theorem tombstoneMark_lt : tombstoneMark < bound 4 := by
  decide

theorem Storable.tail (h : Storable (row :: rows)) : Storable rows :=
  ⟨h.ascending.tail, fun other ho => h.lengths other (List.mem_cons_of_mem _ ho)⟩

theorem encodeRows_cons (row : Row) (rows : List Row) :
    encodeRows (row :: rows) = encodeRow row ++ encodeRows rows :=
  List.flatMap_cons

theorem dataEnd_cons (row : Row) (rows : List Row) :
    dataEnd (row :: rows) = rowSize row + dataEnd rows := by
  rw [dataEnd, dataEnd, encodeRows_cons, List.length_append, length_encodeRow]
  omega

theorem length_le_dataEnd (rows : List Row) : rows.length ≤ dataEnd rows := by
  induction rows with
  | nil => simp
  | cons row rows ih =>
    rw [dataEnd_cons, List.length_cons, rowSize, rowHeaderSize]
    omega

theorem length_encodeRows (rows : List Row) : (encodeRows rows).length = (rows.map rowSize).sum := by
  induction rows with
  | nil => rfl
  | cons row rows ih => simp [encodeRows_cons, length_encodeRow, ih]

theorem dataEnd_eq (rows : List Row) : dataEnd rows = headerSize + (rows.map rowSize).sum := by
  rw [dataEnd, length_encodeRows]

theorem fileSize_eq (rows : List Row) :
    fileSize rows = headerSize + footerSize + (rows.map spaceOf).sum := by
  induction rows with
  | nil => rfl
  | cons row rows ih =>
    rw [fileSize] at ih ⊢
    rw [List.foldr_cons, ih, List.map_cons, List.sum_cons]
    omega

/-- Different rows that all stand in a list take no more than the list, whatever each of them
takes. -/
theorem sum_map_le_of_subset {f : Row → Nat} (hn : rows.Nodup) (hs : ∀ row ∈ rows, row ∈ other) :
    (rows.map f).sum ≤ (other.map f).sum := by
  induction rows generalizing other with
  | nil => exact Nat.zero_le _
  | cons row rows ih =>
    rw [List.nodup_cons] at hn
    have hrest : ∀ row' ∈ rows, row' ∈ other.erase row := by
      intro row' hrow'
      have hne : row' ≠ row := fun he => hn.1 (he ▸ hrow')
      exact (List.mem_erase_of_ne hne).2 (hs row' (List.mem_cons_of_mem _ hrow'))
    have hperm := (List.perm_cons_erase (hs row List.mem_cons_self)).map f
    rw [hperm.sum_nat, List.map_cons, List.map_cons, List.sum_cons, List.sum_cons]
    exact Nat.add_le_add_left (ih hn.2 hrest) _

theorem sum_map_filter_le (f : Row → Nat) (p : Row → Bool) (rows : List Row) :
    ((rows.filter p).map f).sum ≤ (rows.map f).sum := by
  induction rows with
  | nil => exact Nat.le_refl _
  | cons row rows ih =>
    rw [List.filter_cons, List.map_cons, List.sum_cons]
    split
    · rw [List.map_cons, List.sum_cons]
      omega
    · omega

/-! ### Rows -/

theorem readRow?_encodeRow_append (hk : row.1.length < bound 4)
    (hv : row.2.length < tombstoneMark) (rest : Bytes) :
    readRow? (encodeRow row ++ rest) = some (row, rest) := by
  obtain ⟨key, v⟩ := row
  cases v with
  | value bytes =>
    have hb : bytes.length < bound 4 := Nat.lt_trans hv tombstoneMark_lt
    have hne : bytes.length ≠ tombstoneMark := Nat.ne_of_lt hv
    simp only [readRow?, encodeRow, List.append_assoc, readLE?_le_append hk,
      readLE?_le_append hb, split?_append, Option.bind_eq_bind, Option.bind_some, lengthField,
      if_neg hne, Version.live?, Option.getD_some, Option.pure_def]
  | tombstone =>
    simp only [readRow?, encodeRow, List.append_assoc, readLE?_le_append hk,
      readLE?_le_append tombstoneMark_lt, split?_append, Option.bind_eq_bind, Option.bind_some,
      lengthField, if_true, Version.live?, Option.getD_none, List.nil_append, Option.pure_def]

theorem readVersion?_encodeRow_append (hk : row.1.length < tombstoneMark)
    (hv : row.2.length < tombstoneMark) (rest : Bytes) :
    readVersion? (encodeRow row ++ rest) = some row.2 := by
  obtain ⟨key, v⟩ := row
  have hk' : key.length < bound 4 := Nat.lt_trans hk tombstoneMark_lt
  cases v with
  | value bytes =>
    have hb : bytes.length < bound 4 := Nat.lt_trans hv tombstoneMark_lt
    have hne : bytes.length ≠ tombstoneMark := Nat.ne_of_lt hv
    simp only [readVersion?, encodeRow, List.append_assoc, readLE?_le_append hk',
      readLE?_le_append hb, List.drop_left, split?_append, Option.bind_eq_bind, Option.bind_some,
      lengthField, if_neg hne, Version.live?, Option.getD_some, Option.pure_def]
  | tombstone =>
    simp only [readVersion?, encodeRow, List.append_assoc, readLE?_le_append hk',
      readLE?_le_append tombstoneMark_lt, Option.bind_eq_bind, Option.bind_some, lengthField,
      if_true, Option.pure_def]

theorem readRows?_encodeRows_append (h : Storable rows) (rest : Bytes) :
    readRows? (encodeRows rows).length (encodeRows rows ++ rest) = some rows := by
  induction rows with
  | nil => simp [readRows?, encodeRows]
  | cons row rows ih =>
    have hl := h.lengths row List.mem_cons_self
    have hr := readRow?_encodeRow_append (Nat.lt_trans hl.1 tombstoneMark_lt) hl.2
      (encodeRows rows ++ rest)
    have hs : rowSize row ≠ 0 := by rw [rowSize, rowHeaderSize]; omega
    rw [readRows?, encodeRows_cons, List.length_append, length_encodeRow, if_neg (by omega),
      List.append_assoc]
    split
    · next hn => rw [hr] at hn; contradiction
    · next hn =>
      rw [hr] at hn
      cases hn
      rw [Nat.add_sub_cancel_left, ih h.tail]
      rfl

/-! ### The index -/

theorem readRecords_nil : readRecords [] = .ok [] := by
  rw [readRecords]
  rfl

theorem readRecords_encodeRecord_append (hk : key.length < bound 4) (ho : offset < bound 8)
    (rest : Bytes) :
    readRecords (encodeRecord (key, offset) ++ rest) =
      (readRecords rest).map ((key, offset) :: ·) := by
  have hne : (encodeRecord (key, offset) ++ rest).isEmpty = false := by
    simp [encodeRecord, le]
  rw [readRecords, hne, if_neg Bool.false_ne_true]
  split
  · next hn =>
    simp only [encodeRecord, List.append_assoc, readLE?_le_append hk, readLE?_le_append ho,
      Option.bind_some, Option.map_some] at hn
    contradiction
  · next hn =>
    simp only [encodeRecord, List.append_assoc, readLE?_le_append hk, readLE?_le_append ho,
      Option.bind_some, Option.map_some] at hn
    cases hn
    split
    · next hs => rw [split?_append] at hs; contradiction
    · next hs =>
      rw [split?_append] at hs
      cases hs
      rfl

theorem readRecords_flatMap {records : List (Bytes × Nat)}
    (h : ∀ record ∈ records, record.1.length < bound 4 ∧ record.2 < bound 8) :
    readRecords (records.flatMap encodeRecord) = .ok records := by
  induction records with
  | nil => exact readRecords_nil
  | cons record records ih =>
    have hrecord := h record List.mem_cons_self
    rw [List.flatMap_cons, readRecords_encodeRecord_append hrecord.1 hrecord.2,
      ih fun other ho => h other (List.mem_cons_of_mem _ ho)]
    rfl

theorem lt_of_mem_records (h : Storable rows) (ho : offset + (encodeRows rows).length < bound 8) :
    ∀ record ∈ records offset rows, record.1.length < bound 4 ∧ record.2 < bound 8 := by
  induction rows generalizing offset with
  | nil => exact fun _ hm => absurd hm List.not_mem_nil
  | cons row rows ih =>
    have hl := h.lengths row List.mem_cons_self
    rw [encodeRows_cons, List.length_append, length_encodeRow] at ho
    intro record hm
    rcases List.mem_cons.1 hm with rfl | hm
    · exact ⟨Nat.lt_trans hl.1 tombstoneMark_lt, by dsimp only; omega⟩
    · exact ih h.tail (by omega) record hm

theorem map_fst_records (offset : Nat) (rows : List Row) :
    (records offset rows).map Prod.fst = rows.map Prod.fst := by
  induction rows generalizing offset with
  | nil => rfl
  | cons row rows ih => rw [records, List.map_cons, List.map_cons, ih]

theorem getElem?_foldl_insert (records : List (Bytes × Nat)) (m : TreeMap Bytes Nat)
    (h : (records.map Prod.fst).Nodup) (key : Bytes) :
    (records.foldl (fun m record => m.insert record.1 record.2) m)[key]? =
      (records.lookup key).or m[key]? := by
  induction records generalizing m with
  | nil => simp
  | cons record records ih =>
    rw [List.map_cons, List.nodup_cons] at h
    rw [List.foldl_cons, ih _ h.2, TreeMap.getElem?_insert, List.lookup_cons]
    by_cases hk : record.1 = key
    · have hn : records.lookup key = none := by
        rw [List.lookup_eq_none_iff]
        rintro other ho
        rw [bne_iff_ne]
        rintro rfl
        exact h.1 (hk ▸ List.mem_map_of_mem ho)
      simp [hk, hn]
    · have hb : (key == record.1) = false := beq_eq_false_iff_ne.2 (Ne.symm hk)
      simp [hk, hb]

theorem Ascending.nodup_keys (h : Ascending rows) : (rows.map Prod.fst).Nodup := by
  rw [List.Nodup, List.pairwise_map]
  refine List.Pairwise.imp ?_ h
  intro a b hlt he
  simp [he, Std.ReflOrd.compare_self] at hlt

theorem getElem?_offsetMap (h : Ascending rows) (offset : Nat) (key : Bytes) :
    (offsetMap (records offset rows))[key]? = (records offset rows).lookup key := by
  have hn : ((records offset rows).map Prod.fst).Nodup := by
    rw [map_fst_records]
    exact h.nodup_keys
  rw [offsetMap, getElem?_foldl_insert _ _ hn]
  simp

theorem size_foldl_insert (records : List (Bytes × Nat)) (m : TreeMap Bytes Nat)
    (h : (records.map Prod.fst).Nodup) (hm : ∀ record ∈ records, record.1 ∉ m) :
    (records.foldl (fun m record => m.insert record.1 record.2) m).size = m.size + records.length := by
  induction records generalizing m with
  | nil => simp
  | cons record records ih =>
    rw [List.map_cons, List.nodup_cons] at h
    have hc : m.contains record.1 = false := by
      rw [← Bool.not_eq_true, ← TreeMap.mem_iff_contains]
      exact hm record List.mem_cons_self
    rw [List.foldl_cons, ih _ h.2, TreeMap.size_insert, hc, if_neg Bool.false_ne_true,
      List.length_cons]
    · omega
    · intro other ho hin
      rcases TreeMap.mem_insert.1 hin with he | hin
      · rw [Std.LawfulEqOrd.eq_of_compare he] at h
        exact h.1 (List.mem_map_of_mem ho)
      · exact hm _ (List.mem_cons_of_mem _ ho) hin

theorem size_offsetMap (h : Ascending rows) (offset : Nat) :
    (offsetMap (records offset rows)).size = rows.length := by
  have hn : ((records offset rows).map Prod.fst).Nodup := by
    rw [map_fst_records]
    exact h.nodup_keys
  have hl := congrArg List.length (map_fst_records offset rows)
  rw [List.length_map, List.length_map] at hl
  rw [offsetMap, size_foldl_insert _ _ hn (by simp), hl]
  simp

/-- The index leads to the row of a key, and only of keys that have one. -/
theorem lookup_records (rows : List Row) (offset : Nat) (key : Bytes) :
    ((records offset rows).lookup key = none ∧ rows.lookup key = none) ∨
      ∃ v front back, rows = front ++ (key, v) :: back ∧ rows.lookup key = some v ∧
        (records offset rows).lookup key = some (offset + (encodeRows front).length) := by
  induction rows generalizing offset with
  | nil => exact Or.inl ⟨rfl, rfl⟩
  | cons row rows ih =>
    obtain ⟨k, v⟩ := row
    rw [records, List.lookup_cons, List.lookup_cons]
    by_cases hk : key = k
    · subst hk
      exact Or.inr ⟨v, [], rows, rfl, by simp, by simp [encodeRows]⟩
    · have hb : (key == k) = false := beq_eq_false_iff_ne.2 hk
      rw [hb]
      rcases ih (offset + rowSize (k, v)) with hnone | ⟨w, front, back, rfl, hv, ho⟩
      · exact Or.inl hnone
      · refine Or.inr ⟨w, (k, v) :: front, back, rfl, hv, ?_⟩
        rw [encodeRows_cons, List.length_append, length_encodeRow, ← Nat.add_assoc]
        exact ho

/-! ### Files -/

theorem length_encodeHeader (count : Nat) : (encodeHeader count).length = headerSize := by
  simp [encodeHeader, magic, headerSize]

theorem length_encodeFooter (data : Bytes) : (encodeFooter data).length = footerSize := by
  simp [encodeFooter, footerSize]

theorem length_encodeAs (count : Nat) (rows : List Row) :
    (encodeAs count rows).length = dataEnd rows + (encodeIndex rows).length + footerSize := by
  simp only [encodeAs, List.length_append, length_encodeHeader, length_encodeFooter, dataEnd]
  omega

theorem dataEnd_le_fileSize (rows : List Row) : dataEnd rows ≤ fileSize rows := by
  rw [← length_encode, encode, length_encodeAs]
  omega

/-- A file with the given bytes for rows, whose index has the given records. It states `count` as the
number of its rows. -/
def assemble (count : Nat) (data : Bytes) (records : List (Bytes × Nat)) (padding : Bytes) : Bytes :=
  encodeHeader count ++ (data ++ (records.flatMap encodeRecord ++
    (le 8 (headerSize + data.length) ++ (le 4 (Checksum.crc32 data).toNat ++ padding))))

theorem encodeAs_eq_assemble (count : Nat) (rows : List Row) :
    encodeAs count rows = assemble count (encodeRows rows) (records headerSize rows) (le 4 0) :=
  rfl

theorem length_assemble (count : Nat) (data : Bytes) (records : List (Bytes × Nat)) {padding : Bytes}
    (hp : padding.length = 4) : (assemble count data records padding).length =
      headerSize + data.length + (records.flatMap encodeRecord).length + footerSize := by
  simp only [assemble, List.length_append, length_encodeHeader, length_le, hp, footerSize]
  omega

theorem Footer.ofBytes_append {place : Nat} {checksum : UInt32} (h : place < bound 8) (padding : Bytes) :
    Footer.ofBytes (le 8 place ++ (le 4 checksum.toNat ++ padding)) =
      { indexOffset := place, checksum } := by
  rw [Footer.ofBytes, List.take_left' (length_le _ _), List.drop_left' (length_le _ _),
    List.take_left' (length_le _ _), ofLE_le h, ofLE_le (toNat_lt_bound_four _), UInt32.ofNat_toNat]

namespace Index

def ofRows (rows : List Row) : Index where
  offsets := offsetMap (records headerSize rows)
  dataEnd := Table.dataEnd rows

/-- What opening checks of a file behind its header. -/
theorem ofBytes_of_header {bs : Bytes} (hlen : headerSize + footerSize ≤ bs.length)
    (hc : count < bound 8) (hheader : bs.take headerSize = encodeHeader count) {footer : Footer}
    (hfooter : Footer.ofBytes (bs.drop (bs.length - footerSize)) = footer) :
    ofBytes bs =
      if footer.indexOffset < headerSize ∨ footer.indexOffset > bs.length - footerSize then
        .error (.indexOffset footer.indexOffset)
      else if Checksum.crc32 ((bs.drop headerSize).take (footer.indexOffset - headerSize)) ≠
          footer.checksum then
        .error (.checksum footer.checksum
          (Checksum.crc32 ((bs.drop headerSize).take (footer.indexOffset - headerSize))))
      else
        (readRecords ((bs.drop footer.indexOffset).take
            (bs.length - footerSize - footer.indexOffset))).bind fun records =>
          if (offsetMap records).size ≠ count then
            .error (.countMismatch count (offsetMap records).size)
          else .ok { offsets := offsetMap records, dataEnd := footer.indexOffset } := by
  have hm : magic.length = 4 := rfl
  have hparts : bs = magic ++ (le 2 formatVersion ++ (le 8 count ++ bs.drop headerSize)) := by
    rw [← List.append_assoc (le 2 _), ← List.append_assoc, ← encodeHeader, ← hheader,
      List.take_append_drop]
  have hmagic : bs.take 4 = magic := by
    rw [hparts, List.take_left' hm]
  have hversion : versionField bs = formatVersion := by
    rw [versionField, between, hparts, List.drop_left' hm, List.take_left' (length_le _ _),
      ofLE_le (by decide)]
  have hcount : countField bs = count := by
    rw [countField, between, hparts, ← List.append_assoc, List.drop_left' (by simp [magic]),
      List.take_left' (length_le _ _), ofLE_le hc]
  rw [Footer.ofBytes_drop] at hfooter
  subst hfooter
  rw [ofBytes_eq_ite, if_neg (Nat.not_lt.2 hlen), if_neg (not_not_intro hmagic),
    if_neg (not_not_intro hversion), hcount]
  rfl

theorem take_headerSize_encodeAs (count : Nat) (rows : List Row) :
    (encodeAs count rows).take headerSize = encodeHeader count := by
  rw [encodeAs, List.take_left' (length_encodeHeader count)]

/-- A file is opened exactly if it states the number of the keys in its index. -/
theorem ofBytes_assemble {data padding : Bytes} {records : List (Bytes × Nat)}
    (hd : headerSize + data.length < bound 8) (hc : count < bound 8)
    (hr : ∀ record ∈ records, record.1.length < bound 4 ∧ record.2 < bound 8)
    (hp : padding.length = 4) :
    ofBytes (assemble count data records padding) =
      if (offsetMap records).size = count then
        .ok { offsets := offsetMap records, dataEnd := headerSize + data.length }
      else .error (.countMismatch count (offsetMap records).size) := by
  have hsize := length_assemble count data records hp
  have hheader : (assemble count data records padding).take headerSize = encodeHeader count := by
    rw [assemble, List.take_left' (length_encodeHeader count)]
  have hrest : (assemble count data records padding).drop headerSize =
      data ++ (records.flatMap encodeRecord ++ (le 8 (headerSize + data.length) ++
        (le 4 (Checksum.crc32 data).toNat ++ padding))) := by
    rw [assemble, List.drop_left' (length_encodeHeader count)]
  have hindex : (assemble count data records padding).drop (headerSize + data.length) =
      records.flatMap encodeRecord ++ (le 8 (headerSize + data.length) ++
        (le 4 (Checksum.crc32 data).toNat ++ padding)) := by
    rw [← List.drop_drop, hrest, List.drop_left]
  have hfooter : Footer.ofBytes ((assemble count data records padding).drop
      ((assemble count data records padding).length - footerSize)) =
      { indexOffset := headerSize + data.length, checksum := Checksum.crc32 data } := by
    rw [hsize, Nat.add_sub_cancel, ← List.drop_drop, hindex, List.drop_left, Footer.ofBytes_append hd]
  have hmin : headerSize + footerSize ≤ (assemble count data records padding).length := by
    omega
  rw [ofBytes_of_header hmin hc hheader hfooter]
  dsimp only
  rw [if_neg (by omega), Nat.add_sub_cancel_left, hrest, List.take_left, if_neg (not_not_intro rfl),
    hindex, hsize, Nat.add_sub_cancel, Nat.add_sub_cancel_left, List.take_left, readRecords_flatMap hr,
    Except.bind]
  by_cases hn : (offsetMap records).size = count
  · rw [if_neg (not_not_intro hn), if_pos hn]
  · rw [if_pos hn, if_neg hn]

/-- A file of rows is opened exactly if it states their number. -/
theorem ofBytes_encodeAs (h : Storable rows) (hd : Table.dataEnd rows < bound 8)
    (hc : count < bound 8) :
    ofBytes (encodeAs count rows) =
      if rows.length = count then .ok (ofRows rows)
      else .error (.countMismatch count rows.length) := by
  have hopen := ofBytes_assemble hd hc (lt_of_mem_records h hd) (length_le 4 0)
  rw [size_offsetMap h.ascending] at hopen
  rw [encodeAs_eq_assemble, hopen, ofRows, Table.dataEnd]

theorem ofBytes_encode (h : Storable rows) (hd : Table.dataEnd rows < bound 8) :
    ofBytes (encode rows) = .ok (ofRows rows) := by
  have hc := Nat.lt_of_le_of_lt (length_le_dataEnd rows) hd
  rw [encode, ofBytes_encodeAs h hd hc, if_pos rfl]

theorem lookup_encode (h : Storable rows) (hd : Table.dataEnd rows ≤ offsetLimit) (key : Bytes) :
    (ofRows rows).lookup (encode rows) key = .ok (rows.lookup key) := by
  simp only [lookup, ofRows, getElem?_offsetMap h.ascending]
  rcases lookup_records rows headerSize key with ⟨ho, hv⟩ | ⟨v, front, back, rfl, hv, ho⟩
  · rw [ho, hv]
  · have hrow := h.lengths (key, v) (by simp)
    have hrows : encodeRows (front ++ (key, v) :: back) =
        encodeRows front ++ (encodeRow (key, v) ++ encodeRows back) := by
      simp [encodeRows]
    have hlt : headerSize + (encodeRows front).length < offsetLimit := by
      have hpos : 0 < rowSize (key, v) := by rw [rowSize, rowHeaderSize]; omega
      rw [Table.dataEnd, hrows, List.length_append, List.length_append, length_encodeRow] at hd
      omega
    have hdrop : (encode (front ++ (key, v) :: back)).drop (headerSize + (encodeRows front).length) =
        encodeRow (key, v) ++ (encodeRows back ++ (encodeIndex (front ++ (key, v) :: back) ++
          encodeFooter (encodeRows (front ++ (key, v) :: back)))) := by
      rw [← List.drop_drop, encode, encodeAs, List.drop_left' (length_encodeHeader _), hrows,
        List.append_assoc, List.drop_left, List.append_assoc]
    rw [ho, hv]
    simp only [ge_iff_le, if_neg (Nat.not_le.2 hlt), hdrop,
      readVersion?_encodeRow_append hrow.1 hrow.2]

theorem scan_encode (h : Storable rows) : (ofRows rows).scan (encode rows) = .ok rows := by
  rw [scan, ofRows, Table.dataEnd, Nat.add_sub_cancel_left, encode, encodeAs,
    List.drop_left' (length_encodeHeader _), readRows?_encodeRows_append h]

theorem mightContain_of_mem {i : Index} (h : key ∈ i.offsets) : i.mightContain key = true := by
  have hmin := TreeMap.isSome_minKey?_of_mem h
  have hmax := TreeMap.isSome_maxKey?_of_mem h
  obtain ⟨least, hl⟩ := Option.isSome_iff_exists.1 hmin
  obtain ⟨greatest, hg⟩ := Option.isSome_iff_exists.1 hmax
  have hle : (compare least key).isLE :=
    TreeMap.minKey?_le_of_mem h (Option.get_of_eq_some hmin hl)
  have hge : (compare key greatest).isLE :=
    TreeMap.le_maxKey?_of_mem h (Option.get_of_eq_some hmax hg)
  simp only [mightContain, minKey?, maxKey?, hl, hg, hle, hge, Bool.and_self]

end Index

/-! ### Open tables -/

section

variable {d : Disk} {t : Table}

theorem scan_eq (hs : Storable rows) (hindex : t.index = Index.ofRows rows)
    (hcontent : d.content t.file = encode rows) : t.scan d = .ok rows := by
  rw [scan, hindex, hcontent, Index.scan_encode hs]
  rfl

theorem get?_eq (hs : Storable rows) (hend : dataEnd rows ≤ Index.offsetLimit)
    (hindex : t.index = Index.ofRows rows) (hcontent : d.content t.file = encode rows) (key : Bytes) :
    t.get? d key = .ok (rows.lookup key) := by
  rw [get?, hindex, hcontent, Index.lookup_encode hs hend]
  rfl

end

/-! ### Building -/

namespace Builder

theorem check_eq_ok {b : Builder} (hlast : ∀ last ∈ b.taken.head?, compare last.1 row.1 = .lt)
    (hk : row.1.length < tombstoneMark) (hv : row.2.length < tombstoneMark) :
    b.check row = .ok () := by
  have hlater : (b.taken.head?.any fun last => (compare row.1 last.1).isLE) = false := by
    cases hl : b.taken.head? with
    | none => rfl
    | some last =>
      have hgt : compare row.1 last.1 = .gt := Std.OrientedCmp.gt_iff_lt.2 (hlast last hl)
      simp [hgt]
  simp [check, checkLength, hlater, hk, hv, bind, Except.bind]

theorem addAll_eq_ok {b : Builder} (h : Storable rows)
    (hlast : ∀ last ∈ b.taken.head?, ∀ row ∈ rows, compare last.1 row.1 = .lt) :
    addAll rows b = .ok () { taken := rows.reverse ++ b.taken } := by
  induction rows generalizing b with
  | nil => rfl
  | cons row rows ih =>
    have hl := h.lengths row List.mem_cons_self
    have hc := check_eq_ok (fun last hm => hlast last hm row List.mem_cons_self) hl.1 hl.2
    have hadd : add row b = .ok () { taken := row :: b.taken } := by
      simp [add, bind, EStateM.bind, get, getThe, MonadStateOf.get, EStateM.get, hc, liftResult,
        pure, EStateM.pure, modify, modifyGet, MonadStateOf.modifyGet, EStateM.modifyGet]
    have hrest := ih (b := { taken := row :: b.taken }) h.tail (by
      rintro last ⟨⟩ other ho
      exact List.rel_of_pairwise_cons h.ascending ho)
    rw [addAll] at hrest ⊢
    simp only [List.forM, bind, EStateM.bind, hadd, hrest, List.reverse_cons, List.append_assoc,
      List.singleton_append]

end Builder

end KeyedStore.Table
