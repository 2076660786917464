import KeyedStore.Proofs.TableFiles

/-!
# Accepted table files

Opening takes a table file apart into a header, the bytes of the rows, index records and a footer. A
file is opened exactly if it is put together from such parts. Neither the rows nor the places in
the records are looked at, so the parts need have nothing to do with each other.
-/

namespace KeyedStore.Table

open Bytes

variable {bs rest key : Bytes} {row : Row} {rows : List Row} {v : Version} {n : Nat}
  {records : List (Bytes × Nat)}

/-! ### Reading rows -/

/-- A string begins with the written form of exactly the row that is read from it. -/
theorem readRow?_eq_some_iff : readRow? bs = some (row, rest) ↔
    row.1.length < bound 4 ∧ row.2.length < tombstoneMark ∧ bs = encodeRow row ++ rest := by
  constructor
  · intro h
    simp only [readRow?, Option.bind_eq_bind, Option.bind_eq_some_iff, Prod.exists] at h
    obtain ⟨keyLength, rest₁, h₁, valueLength, rest₂, h₂, key, rest₃, h₃, h⟩ := h
    obtain ⟨hk, rfl⟩ := readLE?_eq_some_iff.1 h₁
    obtain ⟨hv, rfl⟩ := readLE?_eq_some_iff.1 h₂
    obtain ⟨rfl, rfl⟩ := split?_eq_some h₃
    split at h
    · next hmark =>
      cases h
      refine ⟨hk, Nat.zero_lt_succ _, ?_⟩
      simp only [encodeRow, lengthField, Version.live?, Option.getD_none, List.nil_append,
        List.append_assoc, hmark]
    · next hmark =>
      simp only [Option.bind_eq_some_iff, Prod.exists] at h
      obtain ⟨value, rest₄, h₄, h⟩ := h
      cases h
      obtain ⟨rfl, rfl⟩ := split?_eq_some h₄
      refine ⟨hk, ?_, ?_⟩
      · rw [tombstoneMark] at hmark ⊢
        dsimp only [Version.length]
        omega
      · simp only [encodeRow, lengthField, Version.live?, Option.getD_some, List.append_assoc]
  · rintro ⟨hk, hv, rfl⟩
    exact readRow?_encodeRow_append hk hv rest

/-- Two lengths, then as many bytes as the first says, whatever they are, and then the value. What is
missing of the bytes does not matter if no value follows. -/
def States (bs : Bytes) (v : Version) : Prop :=
  ∃ keyLength rest, keyLength < bound 4 ∧ v.length < tombstoneMark ∧
    bs = le 4 keyLength ++ (le 4 (lengthField v) ++ rest) ∧ v.live?.getD [] <+: rest.drop keyLength

theorem readVersion?_eq_some_iff : readVersion? bs = some v ↔ States bs v := by
  constructor
  · intro h
    simp only [readVersion?, Option.bind_eq_bind, Option.bind_eq_some_iff, Prod.exists] at h
    obtain ⟨keyLength, rest₁, h₁, valueLength, rest₂, h₂, h⟩ := h
    obtain ⟨hk, rfl⟩ := readLE?_eq_some_iff.1 h₁
    obtain ⟨hv, rfl⟩ := readLE?_eq_some_iff.1 h₂
    split at h
    · next hmark =>
      cases h
      exact ⟨keyLength, rest₂, hk, by decide, by rw [hmark, lengthField], List.nil_prefix⟩
    · next hmark =>
      simp only [Option.bind_eq_some_iff, Prod.exists] at h
      obtain ⟨value, rest₃, h₃, h⟩ := h
      cases h
      obtain ⟨hrest, rfl⟩ := split?_eq_some h₃
      refine ⟨keyLength, rest₂, hk, ?_, rfl, ⟨rest₃, hrest.symm⟩⟩
      rw [tombstoneMark] at hmark ⊢
      dsimp only [Version.length]
      omega
  · rintro ⟨keyLength, rest₁, hk, hv, rfl, rest₂, hrest⟩
    cases v with
    | value bytes =>
      have hb : bytes.length < bound 4 := Nat.lt_trans hv tombstoneMark_lt
      have hne : bytes.length ≠ tombstoneMark := Nat.ne_of_lt hv
      rw [Version.live?, Option.getD_some] at hrest
      simp only [readVersion?, lengthField, readLE?_le_append hk, readLE?_le_append hb, ← hrest,
        split?_append, if_neg hne, Option.bind_eq_bind, Option.bind_some, Option.pure_def]
    | tombstone =>
      simp only [readVersion?, lengthField, readLE?_le_append hk, readLE?_le_append tombstoneMark_lt,
        if_true, Option.bind_eq_bind, Option.bind_some, Option.pure_def]

/-- Some rows take up `n` bytes: fewer of them would not reach that far. The last may reach further. -/
def Fills (n : Nat) (rows : List Row) : Prop :=
  n ≤ (encodeRows rows).length ∧
    ∀ front, front <+: rows → front ≠ rows → (encodeRows front).length < n

theorem fills_nil : Fills n [] ↔ n = 0 := by
  constructor
  · exact fun h => Nat.le_zero.1 h.1
  · rintro rfl
    exact ⟨Nat.zero_le _, fun front hfront hne => absurd (List.prefix_nil.1 hfront) hne⟩

theorem fills_cons : Fills n (row :: rows) ↔ n ≠ 0 ∧ Fills (n - rowSize row) rows := by
  have hpos : 0 < rowSize row := by rw [rowSize, rowHeaderSize]; omega
  -- What is shorter than all the rows is nothing, or the first row with some of the others.
  constructor
  · rintro ⟨hle, hfront⟩
    have hne : 0 < n := hfront [] List.nil_prefix (List.cons_ne_nil row rows).symm
    rw [encodeRows_cons, List.length_append, length_encodeRow] at hle
    refine ⟨Nat.ne_of_gt hne, by omega, fun front hpre hne => ?_⟩
    have hlt := hfront (row :: front) (List.cons_prefix_cons.2 ⟨rfl, hpre⟩)
      fun he => hne (List.cons.inj he).2
    rw [encodeRows_cons, List.length_append, length_encodeRow] at hlt
    omega
  · rintro ⟨hne, hle, hfront⟩
    refine ⟨?_, fun front hpre hne' => ?_⟩
    · rw [encodeRows_cons, List.length_append, length_encodeRow]
      omega
    · cases front with
      | nil => exact Nat.pos_of_ne_zero hne
      | cons other front =>
        obtain ⟨rfl, hrest⟩ := List.cons_prefix_cons.1 hpre
        have hlt := hfront front hrest fun he => hne' (by rw [he])
        rw [encodeRows_cons, List.length_append, length_encodeRow]
        omega

theorem fills_length (rows : List Row) : Fills (encodeRows rows).length rows := by
  induction rows with
  | nil => exact fills_nil.2 rfl
  | cons row rows ih =>
    rw [fills_cons, encodeRows_cons, List.length_append, length_encodeRow, Nat.add_sub_cancel_left]
    exact ⟨by rw [rowSize, rowHeaderSize]; omega, ih⟩

/-- Rows are read as long as complete rows stand in a string, until they take up the bytes. -/
theorem readRows?_eq_some_iff : readRows? n bs = some rows ↔
    Fills n rows ∧ (∀ row ∈ rows, row.1.length < bound 4 ∧ row.2.length < tombstoneMark) ∧
      ∃ rest, bs = encodeRows rows ++ rest := by
  induction rows generalizing n bs with
  | nil =>
    rw [readRows?, fills_nil]
    by_cases hn : n = 0
    · simp [hn, encodeRows]
    · rw [if_neg hn]
      split <;> simp [hn]
  | cons row rows ih =>
    rw [readRows?, fills_cons]
    by_cases hn : n = 0
    · simp [hn]
    · rw [if_neg hn]
      constructor
      · intro h
        split at h
        · contradiction
        · next row' rest hrow =>
          rw [Option.map_eq_some_iff] at h
          obtain ⟨rows', hrows, he⟩ := h
          cases he
          obtain ⟨hk, hv, rfl⟩ := readRow?_eq_some_iff.1 hrow
          obtain ⟨hfills, hlengths, rest', rfl⟩ := ih.1 hrows
          exact ⟨⟨hn, hfills⟩, List.forall_mem_cons.2 ⟨⟨hk, hv⟩, hlengths⟩, rest',
            by rw [encodeRows_cons, List.append_assoc]⟩
      · rintro ⟨⟨-, hfills⟩, hlengths, rest, rfl⟩
        obtain ⟨⟨hk, hv⟩, hlengths⟩ := List.forall_mem_cons.1 hlengths
        have hrow : readRow? (encodeRows (row :: rows) ++ rest) =
            some (row, encodeRows rows ++ rest) := by
          rw [encodeRows_cons, List.append_assoc]
          exact readRow?_encodeRow_append hk hv _
        split
        · next hnone =>
          rw [hrow] at hnone
          contradiction
        · next hsome =>
          rw [hrow] at hsome
          cases hsome
          rw [ih.2 ⟨hfills, hlengths, rest, rfl⟩, Option.map_some]

/-! ### Reading index records -/

theorem readRecords_eq_ok_iff : readRecords bs = .ok records ↔
    (∀ record ∈ records, record.1.length < bound 4 ∧ record.2 < bound 8) ∧
      bs = records.flatMap encodeRecord := by
  constructor
  · intro h
    -- By induction on the records: each takes its written form off the front of the string.
    induction records generalizing bs with
    | nil =>
      refine ⟨fun _ hm => absurd hm List.not_mem_nil, ?_⟩
      rw [readRecords] at h
      split at h
      · next hempty => exact List.isEmpty_iff.1 hempty
      · split at h
        · contradiction
        · split at h
          · contradiction
          · cases hrest : readRecords _ with
            | error cause => rw [hrest] at h; contradiction
            | ok records => rw [hrest] at h; cases h
    | cons record records ih =>
      rw [readRecords] at h
      split at h
      · cases h
      · split at h
        · contradiction
        · next length offset rest hnumbers =>
          split at h
          · contradiction
          · next key rest' hkey =>
            cases hrest : readRecords rest' with
            | error cause => rw [hrest] at h; contradiction
            | ok records' =>
              rw [hrest] at h
              cases h
              obtain ⟨hlengths, rfl⟩ := ih hrest
              simp only [Option.bind_eq_some_iff, Option.map_eq_some_iff, Prod.exists] at hnumbers
              obtain ⟨_, rest₁, h₁, _, rest₂, h₂, he⟩ := hnumbers
              cases he
              obtain ⟨hl, rfl⟩ := readLE?_eq_some_iff.1 h₁
              obtain ⟨ho, rfl⟩ := readLE?_eq_some_iff.1 h₂
              obtain ⟨rfl, rfl⟩ := split?_eq_some hkey
              exact ⟨List.forall_mem_cons.2 ⟨⟨hl, ho⟩, hlengths⟩,
                by simp only [List.flatMap_cons, encodeRecord, List.append_assoc]⟩
  · rintro ⟨hlengths, rfl⟩
    exact readRecords_flatMap hlengths

/-- Of several records for a key the last decides. -/
theorem getElem?_offsetMap_eq (records : List (Bytes × Nat)) (key : Bytes) :
    (offsetMap records)[key]? = records.reverse.lookup key := by
  induction records using List.reverseRec with
  | nil => simp [offsetMap]
  | append_singleton records record ih =>
    rw [offsetMap, List.foldl_append, List.foldl_cons, List.foldl_nil, ← offsetMap,
      Std.TreeMap.getElem?_insert, ih, List.reverse_append, List.reverse_singleton,
      List.singleton_append, List.lookup_cons]
    by_cases hk : record.1 = key
    · simp [hk]
    · have hb : (key == record.1) = false := beq_eq_false_iff_ne.2 (Ne.symm hk)
      simp [hk, hb]

theorem mem_offsetMap : key ∈ offsetMap records ↔ key ∈ records.map Prod.fst := by
  have hnone : records.reverse.lookup key = none ↔ key ∉ records.map Prod.fst := by
    simp only [List.lookup_eq_none_iff, List.mem_reverse, bne_iff_ne, List.mem_map, not_exists, not_and]
    exact forall₂_congr fun _ _ => ne_comm
  rw [Std.TreeMap.mem_iff_isSome_getElem?, getElem?_offsetMap_eq, Option.isSome_iff_ne_none, ne_eq, hnone,
    not_not]

theorem Index.mem_ofRows : key ∈ (Index.ofRows rows).offsets ↔ key ∈ rows.map Prod.fst := by
  rw [ofRows, mem_offsetMap, map_fst_records]

/-! ### Taking files apart -/

/-- The parts of a table file. -/
structure Parts where
  data : Bytes
  records : List (Bytes × Nat)
  padding : Bytes
  dataEnd_lt : headerSize + data.length < bound 8
  size_lt : (offsetMap records).size < bound 8
  records_lt : ∀ record ∈ records, record.1.length < bound 4 ∧ record.2 < bound 8
  length_padding : padding.length = 4

namespace Parts

/-- The index that is loaded of the file. -/
def index (p : Parts) : Index where
  offsets := offsetMap p.records
  dataEnd := headerSize + p.data.length

/-- The file of some parts; it states the number of the keys in its index. -/
def file (p : Parts) : Bytes := assemble p.index.count p.data p.records p.padding

theorem ofBytes_file (p : Parts) : Index.ofBytes p.file = .ok p.index :=
  (Index.ofBytes_assemble p.dataEnd_lt p.size_lt p.records_lt p.length_padding).trans (if_pos rfl)

theorem drop_headerSize_file (p : Parts) : p.file.drop headerSize =
    p.data ++ (p.records.flatMap encodeRecord ++ (le 8 (headerSize + p.data.length) ++
      (le 4 (Checksum.crc32 p.data).toNat ++ p.padding))) := by
  rw [file, assemble, List.drop_left' (length_encodeHeader _)]

end Parts

/-- The bytes of a number inside a string are its written form. -/
theorem le_ofLE_slice (bs : Bytes) (n w : Nat) (h : n + w ≤ bs.length) :
    ofLE ((bs.drop n).take w) < bound w ∧ le w (ofLE ((bs.drop n).take w)) = (bs.drop n).take w := by
  have hlength : ((bs.drop n).take w).length = w := by
    rw [List.length_take, List.length_drop]
    omega
  have hlt := ofLE_lt ((bs.drop n).take w)
  have heq := le_ofLE ((bs.drop n).take w)
  rw [hlength] at hlt heq
  exact ⟨hlt, heq⟩

theorem Footer.exists_eq_append (h : bs.length = footerSize) :
    (Footer.ofBytes bs).indexOffset < bound 8 ∧ ∃ padding, padding.length = 4 ∧
      bs = le 8 (Footer.ofBytes bs).indexOffset ++
        (le 4 (Footer.ofBytes bs).checksum.toNat ++ padding) := by
  rw [footerSize] at h
  obtain ⟨hfits, hplace⟩ := le_ofLE_slice bs 0 8 (by omega)
  obtain ⟨hlt, hchecksum⟩ := le_ofLE_slice bs 8 4 (by omega)
  rw [List.drop_zero] at hplace
  refine ⟨hfits, bs.drop 12, by rw [List.length_drop]; omega, ?_⟩
  rw [Footer.ofBytes]
  dsimp only
  rw [hplace, UInt32.toNat_ofNat_of_lt' hlt, hchecksum, ← List.drop_drop (i := 4) (j := 8),
    List.take_append_drop, List.take_append_drop]

namespace Index

variable {i : Index}

theorem header_of_ofBytes (h : ofBytes bs = .ok i) : headerSize + footerSize ≤ bs.length ∧
    ∃ count, count < bound 8 ∧ bs.take headerSize = encodeHeader count := by
  rw [ofBytes_eq_ite, ite_error_eq_ok_iff, ite_error_eq_ok_iff, ite_error_eq_ok_iff, not_not, not_not] at h
  obtain ⟨hlen, hmagic, hversion, -⟩ := h
  rw [Nat.not_lt, headerSize, footerSize] at hlen
  rw [versionField, between] at hversion
  obtain ⟨-, hversion'⟩ := le_ofLE_slice bs 4 2 (by omega)
  obtain ⟨hlt, hcount⟩ := le_ofLE_slice bs 6 8 (by omega)
  rw [hversion] at hversion'
  refine ⟨hlen, ofLE ((bs.drop 6).take 8), hlt, ?_⟩
  rw [encodeHeader, hversion', hcount, ← hmagic, headerSize, show 14 = 4 + (2 + 8) from rfl,
    List.take_add, List.take_add, List.drop_drop]

/-- The pieces that opening looks at make up the file. -/
theorem eq_assemble {count place : Nat} {data padding : Bytes} (hplace : headerSize ≤ place)
    (hend : place ≤ bs.length - footerSize) (hheader : bs.take headerSize = encodeHeader count)
    (hdata : (bs.drop headerSize).take (place - headerSize) = data)
    (hindex : (bs.drop place).take (bs.length - footerSize - place) = records.flatMap encodeRecord)
    (hfooter : bs.drop (bs.length - footerSize) =
      le 8 place ++ (le 4 (Checksum.crc32 data).toNat ++ padding)) :
    headerSize + data.length = place ∧ bs = assemble count data records padding := by
  have hlength : headerSize + data.length = place := by
    rw [← hdata, List.length_take, List.length_drop]
    omega
  have hrest : bs.drop place = records.flatMap encodeRecord ++ bs.drop (bs.length - footerSize) := by
    rw [← hindex, ← Nat.add_sub_cancel' hend, ← List.drop_drop, Nat.add_sub_cancel' hend,
      List.take_append_drop]
  have hrows : bs.drop headerSize = data ++ bs.drop place := by
    rw [← hdata, ← Nat.add_sub_cancel' hplace, ← List.drop_drop, Nat.add_sub_cancel' hplace,
      List.take_append_drop]
  refine ⟨hlength, ?_⟩
  rw [assemble, hlength, ← hfooter, ← hrest, ← hrows, ← hheader, List.take_append_drop]

/-- A file is opened exactly if it has the parts of a table file, and what is loaded is their index. -/
theorem ofBytes_eq_ok_iff : ofBytes bs = .ok i ↔ ∃ p : Parts, bs = p.file ∧ i = p.index := by
  constructor
  · intro h
    -- Every check that was passed fixes one more piece of the file.
    obtain ⟨hlen, count, hcount, hheader⟩ := header_of_ofBytes h
    have hlength : (bs.drop (bs.length - footerSize)).length = footerSize := by
      rw [List.length_drop]
      omega
    obtain ⟨hplace, padding, hpadding, htail⟩ := Footer.exists_eq_append hlength
    generalize hfooter : Footer.ofBytes (bs.drop (bs.length - footerSize)) = footer at hplace htail
    rw [ofBytes_of_header hlen hcount hheader hfooter] at h
    split at h
    · contradiction
    · next hrange =>
      rw [not_or, Nat.not_lt, gt_iff_lt, Nat.not_lt] at hrange
      split at h
      · contradiction
      · next hchecksum =>
        cases hrecords : readRecords ((bs.drop footer.indexOffset).take
            (bs.length - footerSize - footer.indexOffset)) with
        | error cause => rw [hrecords] at h; contradiction
        | ok records =>
          rw [hrecords, Except.bind] at h
          split at h
          · contradiction
          · next hsize =>
            cases h
            obtain ⟨hlengths, hindex⟩ := readRecords_eq_ok_iff.1 hrecords
            rw [← not_not.1 hchecksum] at htail
            obtain ⟨hlength, hfile⟩ := eq_assemble hrange.1 hrange.2 hheader rfl hindex htail
            generalize (bs.drop headerSize).take (footer.indexOffset - headerSize) = data
              at hlength hfile
            rw [← hlength] at hplace ⊢
            have hcount' := not_not.1 hsize
            exact ⟨⟨data, records, padding, hplace, hcount' ▸ hcount, hlengths, hpadding⟩,
              hcount' ▸ hfile, rfl⟩
  · rintro ⟨p, rfl, rfl⟩
    exact p.ofBytes_file

end Index

end KeyedStore.Table
