import KeyedStore.Proofs.CheckedSteps
import KeyedStore.Proofs.FilesAtPaths
import KeyedStore.Proofs.TableGrammar

/-!
# Opening tables step by step

A file is gone through: its header, its footer, the bytes of its rows block by block, and the records of its
index one by one. Whatever the file holds, each place that is gone to is in it, no number is taken from a
smaller one, and no read finds the end of the file; so a file that is no table is refused as damaged.
-/

namespace KeyedStore.Table

open Bytes

variable {bs rest file : Bytes} {record : Bytes × Nat} {n pos length offset : Nat}

/-- Damage to the file that a path leads to. -/
def damage (path : Path) (cause : TableFault) : Error := .storage (.table path cause)

/-! ### Going through a file -/

/-- Takes the header of a file apart, down to the number of rows. -/
def checkedHeader (path : Path) : EStateM Halt Bytes Nat := do
  let first ← Checked.take 4
  Checked.refuse (first ≠ magic) (damage path (.badMagic first))
  let version ← Checked.number 2
  Checked.refuse (version ≠ formatVersion) (damage path (.unsupportedVersion version))
  Checked.number 8

/-- Takes the footer of a file apart. -/
def checkedFooter : EStateM Halt Bytes Footer := do
  let indexOffset ← Checked.number 8
  let checksum ← Checked.number 4
  return { indexOffset, checksum := .ofNat checksum }

/-- How many bytes of the rows are read at once. -/
def sumBlockSize : Nat := 65536

/-- Reads the bytes of the rows in blocks, and feeds them to a checksum. -/
def checkedSum (file : Bytes) (crc : UInt32) (remaining : Nat) : EStateM Halt Nat UInt32 :=
  if 0 < remaining then do
    let size := min remaining sumBlockSize
    let block ← Checked.read file size
    -- The difference is checked here, where it is seen that less remains.
    if size ≤ remaining then checkedSum file (Checksum.feed crc block) (remaining - size) else throw .stopped
  else pure crc
termination_by remaining
decreasing_by
  rw [sumBlockSize]
  omega

/-- Takes the record at the front of what is left of an index. -/
def checkedRecord (path : Path) : EStateM Halt Bytes (Bytes × Nat) := do
  Checked.refuse ((← get).length < recordHeaderSize) (damage path .recordCut)
  let length ← Checked.number 4
  let offset ← Checked.number 8
  Checked.refuse ((← get).length < length) (damage path .keyCut)
  let key ← Checked.take length
  return (key, offset)

/-- A string is too short for the numbers of a record, or for the key that they state, or it begins with a
record. -/
inductive Begins : Bytes → Prop
  | recordCut {bs : Bytes} (h : bs.length < recordHeaderSize) : Begins bs
  | keyCut {length offset : Nat} {rest : Bytes} (hlength : length < bound 4) (hoffset : offset < bound 8)
    (h : rest.length < length) : Begins (le 4 length ++ (le 8 offset ++ rest))
  | record {record : Bytes × Nat} (hlength : record.1.length < bound 4) (hoffset : record.2 < bound 8)
    (rest : Bytes) : Begins (encodeRecord record ++ rest)

theorem begins (bs : Bytes) : Begins bs := by
  by_cases h : bs.length < recordHeaderSize
  · exact .recordCut h
  · rw [recordHeaderSize] at h
    obtain ⟨first, back, rfl, hfirst⟩ := exists_append (show 4 ≤ bs.length by omega)
    rw [List.length_append] at h
    obtain ⟨second, rest, rfl, hsecond⟩ := exists_append (show 8 ≤ back.length by omega)
    have hlength := ofLE_lt first
    have hoffset := ofLE_lt second
    rw [hfirst] at hlength
    rw [hsecond] at hoffset
    rw [← le_ofLE first, ← le_ofLE second, hfirst, hsecond]
    by_cases hkey : rest.length < ofLE first
    · exact .keyCut hlength hoffset hkey
    · obtain ⟨key, rest, rfl, hsize⟩ := exists_append (Nat.not_lt.1 hkey)
      have hrecord : Begins (encodeRecord (key, ofLE second) ++ rest) :=
        .record (hsize ▸ hlength) hoffset rest
      rw [encodeRecord, hsize, List.append_assoc, List.append_assoc] at hrecord
      exact hrecord

theorem checkedRecord_of_lt (path : Path) (h : bs.length < recordHeaderSize) :
    checkedRecord path bs = .error (.reported (damage path .recordCut)) bs := by
  rw [checkedRecord, get_bind]
  exact bind_of_error (Checked.refuse_of_true h _ bs)

theorem checkedRecord_of_lt_key (path : Path) (hlength : length < bound 4) (hoffset : offset < bound 8)
    (h : rest.length < length) : checkedRecord path (le 4 length ++ (le 8 offset ++ rest)) =
      .error (.reported (damage path .keyCut)) rest := by
  have hsize : ¬ (le 4 length ++ (le 8 offset ++ rest)).length < recordHeaderSize := by
    rw [List.length_append, List.length_append, length_le, length_le, recordHeaderSize]
    omega
  rw [checkedRecord, get_bind, bind_of_ok (Checked.refuse_of_false hsize _ _),
    bind_of_ok (Checked.number_le_append hlength _), bind_of_ok (Checked.number_le_append hoffset _), get_bind]
  exact bind_of_error (Checked.refuse_of_true h _ rest)

theorem checkedRecord_encodeRecord_append (path : Path) (hlength : record.1.length < bound 4)
    (hoffset : record.2 < bound 8) (rest : Bytes) :
    checkedRecord path (encodeRecord record ++ rest) = .ok record rest := by
  have hsize : ¬ (encodeRecord record ++ rest).length < recordHeaderSize := by
    rw [encodeRecord, List.length_append, List.length_append, List.length_append, length_le, length_le,
      recordHeaderSize]
    omega
  have hkey : ¬ (record.1 ++ rest).length < record.1.length := by
    rw [List.length_append]
    omega
  rw [checkedRecord, get_bind, bind_of_ok (Checked.refuse_of_false hsize _ _), encodeRecord, List.append_assoc,
    List.append_assoc, bind_of_ok (Checked.number_le_append hlength _),
    bind_of_ok (Checked.number_le_append hoffset _), get_bind, bind_of_ok (Checked.refuse_of_false hkey _ _),
    bind_of_ok (Checked.take_append _ _)]
  rfl

theorem length_of_checkedRecord {path : Path} (h : checkedRecord path bs = .ok record rest) :
    rest.length < bs.length := by
  cases begins bs with
  | recordCut hsize => rw [checkedRecord_of_lt path hsize] at h; cases h
  | keyCut hlength hoffset hkey => rw [checkedRecord_of_lt_key path hlength hoffset hkey] at h; cases h
  | record hlength hoffset rest =>
    rw [checkedRecord_encodeRecord_append path hlength hoffset] at h
    cases h
    rw [encodeRecord, List.length_append, List.length_append, length_le]
    omega

/-- Takes all records of an index, and notes the place of each key. -/
def checkedRecords (path : Path) (offsets : Std.TreeMap Bytes Nat) (bs : Bytes) :
    Except Halt (Std.TreeMap Bytes Nat) :=
  if bs.isEmpty then .ok offsets
  else
    match h : checkedRecord path bs with
    | .ok record rest =>
      have : rest.length < bs.length := length_of_checkedRecord h
      checkedRecords path (offsets.insert record.1 record.2) rest
    | .error halt _ => .error halt
termination_by bs.length

/-- Compares the checksum of the rows with the one in the footer. -/
def checkedRows (path : Path) (file : Bytes) (footer : Footer) : EStateM Halt Nat Unit := do
  Checked.seek headerSize
  let crc ← checkedSum file 0xFFFFFFFF (← Checked.subtract footer.indexOffset headerSize)
  Checked.refuse (~~~ crc ≠ footer.checksum) (damage path (.checksum footer.checksum (~~~ crc)))

/-- Loads the index, which starts where the file stands. -/
def checkedIndex (path : Path) (file : Bytes) (count place : Nat) : EStateM Halt Nat Index := do
  let indexEnd ← Checked.subtract file.length footerSize
  let index ← Checked.read file (← Checked.subtract indexEnd place)
  let offsets ← liftResult (checkedRecords path ∅ index)
  Checked.refuse (offsets.size ≠ count) (damage path (.countMismatch count offsets.size))
  return { offsets, dataEnd := place }

/-- Opens a file, from its front on. -/
def checkedOpen (path : Path) (file : Bytes) : EStateM Halt Nat Index := do
  Checked.refuse (file.length < headerSize + footerSize) (damage path (.tooSmall file.length))
  let header ← Checked.read file headerSize
  let count ← liftResult (Checked.resultOf (checkedHeader path) header)
  let indexEnd ← Checked.subtract file.length footerSize
  Checked.seek indexEnd
  let last ← Checked.read file footerSize
  let footer ← liftResult (Checked.resultOf checkedFooter last)
  Checked.refuse (footer.indexOffset < headerSize ∨ footer.indexOffset > indexEnd)
    (damage path (.indexOffset footer.indexOffset))
  checkedRows path file footer
  checkedIndex path file count footer.indexOffset

/-! ### The parts of a file -/

theorem resultOf_checkedHeader (path : Path) (h : headerSize ≤ file.length) :
    Checked.resultOf (checkedHeader path) (file.take headerSize) =
      if file.take 4 ≠ magic then .error (.reported (damage path (.badMagic (file.take 4))))
      else if versionField file ≠ formatVersion then
        .error (.reported (damage path (.unsupportedVersion (versionField file))))
      else .ok (countField file) := by
  have hlength : (file.take headerSize).length = 14 := List.length_take_of_le h
  have hversion : 2 ≤ ((file.take headerSize).drop 4).length := by
    rw [List.length_drop]
    omega
  have hcount : 8 ≤ (((file.take headerSize).drop 4).drop 2).length := by
    rw [List.length_drop, List.length_drop]
    omega
  rw [checkedHeader, Checked.resultOf_bind_of_ok (Checked.take_of_le (by omega)),
    Checked.resultOf_refuse_bind, Checked.resultOf_bind_of_ok (Checked.number_of_le hversion),
    Checked.resultOf_refuse_bind, Checked.resultOf_of_ok (Checked.number_of_le hcount), List.drop_drop,
    List.take_take]
  -- What is taken of the header is what stands there in the file.
  have hfields : ∀ start stop, stop ≤ headerSize →
      ((file.take headerSize).drop start).take (stop - start) = between file start stop :=
    fun _ _ => between_take
  rw [hfields 4 6 (by decide), hfields 6 14 (by decide)]
  rfl

theorem resultOf_checkedFooter (h : footerSize ≤ file.length) :
    Checked.resultOf checkedFooter (file.drop (file.length - footerSize)) =
      .ok { indexOffset := placeField file, checksum := checksumField file } := by
  have hlength : (file.drop (file.length - footerSize)).length = 16 := by
    rw [List.length_drop, Nat.sub_sub_self h, footerSize]
  have hchecksum : 4 ≤ ((file.drop (file.length - footerSize)).drop 8).length := by
    rw [List.length_drop]
    omega
  rw [← Footer.ofBytes_drop, checkedFooter, Checked.resultOf_bind_of_ok (Checked.number_of_le (by omega)),
    Checked.resultOf_bind_of_ok (Checked.number_of_le hchecksum)]
  rfl

/-- The bytes of the rows are fed to the checksum, however they fall into blocks. -/
theorem checkedSum_of_le (crc : UInt32) (h : pos + n ≤ file.length) :
    checkedSum file crc n pos = .ok (Checksum.feed crc ((file.drop pos).take n)) (pos + n) := by
  induction n using Nat.strong_induction_on generalizing crc pos with
  | _ n ih =>
    rw [checkedSum]
    by_cases hn : 0 < n
    · have hmin : min n sumBlockSize ≤ n := Nat.min_le_left _ _
      have hpos : 0 < min n sumBlockSize := Nat.lt_min.2 ⟨hn, by decide⟩
      rw [if_pos hn, bind_of_ok (Checked.read_of_le (by omega)), if_pos hmin,
        ih (n - min n sumBlockSize) (by omega) _ (by omega), ← Checksum.feed_append, ← List.drop_drop,
        ← List.take_add, Nat.add_sub_of_le hmin, Nat.add_assoc, Nat.add_sub_of_le hmin]
    · obtain rfl := Nat.eq_zero_of_not_pos hn
      rfl

theorem readRecords_of_lt (hne : bs ≠ []) (h : bs.length < recordHeaderSize) :
    readRecords bs = .error .recordCut := by
  rw [readRecords, if_neg (mt List.isEmpty_iff.1 hne)]
  split
  · rfl
  · next hnumbers =>
    simp only [Option.bind_eq_some_iff, Option.map_eq_some_iff, Prod.exists] at hnumbers
    obtain ⟨_, _, hfirst, _, _, hsecond, -⟩ := hnumbers
    have hfirst := length_of_readLE? hfirst
    have hsecond := length_of_readLE? hsecond
    rw [recordHeaderSize] at h
    omega

theorem readRecords_of_lt_key (hlength : length < bound 4) (hoffset : offset < bound 8)
    (h : rest.length < length) : readRecords (le 4 length ++ (le 8 offset ++ rest)) = .error .keyCut := by
  rw [readRecords, if_neg (by simp [le])]
  split
  · next hnumbers =>
    simp only [readLE?_le_append hlength, readLE?_le_append hoffset, Option.bind_some,
      Option.map_some] at hnumbers
    contradiction
  · next hnumbers =>
    simp only [readLE?_le_append hlength, readLE?_le_append hoffset, Option.bind_some,
      Option.map_some] at hnumbers
    cases hnumbers
    split
    · rfl
    · next hkey =>
      rw [split?_eq_none_iff.2 h] at hkey
      contradiction

theorem checkedRecords_of_ok {path : Path} (h : checkedRecord path bs = .ok record rest)
    (offsets : Std.TreeMap Bytes Nat) :
    checkedRecords path offsets bs = checkedRecords path (offsets.insert record.1 record.2) rest := by
  have hne : bs ≠ [] := List.ne_nil_of_length_pos (Nat.zero_lt_of_lt (length_of_checkedRecord h))
  rw [checkedRecords, if_neg (mt List.isEmpty_iff.1 hne)]
  split
  · next hrecord =>
    rw [h] at hrecord
    cases hrecord
    rfl
  · next hrecord =>
    rw [h] at hrecord
    cases hrecord

theorem checkedRecords_of_error {path : Path} {halt : Halt} (hne : bs ≠ [])
    (h : checkedRecord path bs = .error halt rest) (offsets : Std.TreeMap Bytes Nat) :
    checkedRecords path offsets bs = .error halt := by
  rw [checkedRecords, if_neg (mt List.isEmpty_iff.1 hne)]
  split
  · next hrecord =>
    rw [h] at hrecord
    cases hrecord
  · next hrecord =>
    rw [h] at hrecord
    cases hrecord
    rfl

/-- One by one, the records are those that are read at once, and the damage to them is the same. -/
theorem checkedRecords_eq (path : Path) (offsets : Std.TreeMap Bytes Nat) (bs : Bytes) :
    checkedRecords path offsets bs =
      ((readRecords bs).map (List.foldl (fun offsets record => offsets.insert record.1 record.2)
        offsets)).mapError (Halt.reported ∘ damage path) := by
  induction hsize : bs.length using Nat.strong_induction_on generalizing offsets bs with
  | _ size ih =>
    by_cases hne : bs = []
    · rw [hne, checkedRecords, readRecords_nil]
      rfl
    cases begins bs with
    | recordCut h =>
      rw [checkedRecords_of_error hne (checkedRecord_of_lt path h), readRecords_of_lt hne h]
      rfl
    | keyCut hlength hoffset h =>
      rw [checkedRecords_of_error hne (checkedRecord_of_lt_key path hlength hoffset h),
        readRecords_of_lt_key hlength hoffset h]
      rfl
    | @record record hlength hoffset rest =>
      have hrecord := checkedRecord_encodeRecord_append path hlength hoffset rest
      have hrest := ih _ (hsize ▸ length_of_checkedRecord hrecord) (offsets.insert record.1 record.2) rest rfl
      rw [checkedRecords_of_ok hrecord, hrest, readRecords_encodeRecord_append hlength hoffset]
      cases readRecords rest with
      | ok records => rfl
      | error cause => rfl

theorem checkedRecords_empty (path : Path) (bs : Bytes) : checkedRecords path ∅ bs =
    ((readRecords bs).map offsetMap).mapError (Halt.reported ∘ damage path) := checkedRecords_eq path ∅ bs

theorem checkedRows_eq (path : Path) {footer : Footer} (hplace : headerSize ≤ footer.indexOffset)
    (hend : footer.indexOffset ≤ file.length) (pos : Nat) : checkedRows path file footer pos =
      Checked.refuse (Checksum.crc32 (between file headerSize footer.indexOffset) ≠ footer.checksum)
        (damage path (.checksum footer.checksum
          (Checksum.crc32 (between file headerSize footer.indexOffset)))) footer.indexOffset := by
  rw [checkedRows, bind_of_ok (Checked.seek_eq headerSize pos), bind_of_ok (Checked.subtract_of_le hplace _),
    bind_of_ok (checkedSum_of_le _ (by omega)), Nat.add_sub_of_le hplace]
  rfl

theorem resultOf_checkedIndex (path : Path) {place : Nat} (hplace : place ≤ file.length - footerSize)
    (hfooter : footerSize ≤ file.length) (count : Nat) :
    Checked.resultOf (checkedIndex path file count place) place =
      ((readRecords (between file place (file.length - footerSize))).bind fun records =>
        if (offsetMap records).size ≠ count then .error (.countMismatch count (offsetMap records).size)
        else .ok { offsets := offsetMap records, dataEnd := place }).mapError
          (Halt.reported ∘ damage path) := by
  rw [checkedIndex, Checked.resultOf_bind_of_ok (Checked.subtract_of_le hfooter _),
    Checked.resultOf_bind_of_ok (Checked.subtract_of_le hplace _),
    Checked.resultOf_bind_of_ok (Checked.read_of_le (by omega)), Checked.resultOf_liftResult_bind,
    checkedRecords_empty, ← between]
  cases readRecords (between file place (file.length - footerSize)) with
  | error cause => rfl
  | ok records =>
    simp only [Except.map, Except.mapError, Except.bind, Checked.resultOf_refuse_bind]
    by_cases hcount : (offsetMap records).size ≠ count
    · rw [if_pos hcount, if_pos hcount]
      rfl
    · rw [if_neg hcount, if_neg hcount]
      rfl

/-! ### The whole file -/

/-- Step by step, a file is opened as it is at once: nothing is stopped, and no read finds the end. -/
theorem resultOf_checkedOpen (path : Path) (file : Bytes) :
    Checked.resultOf (checkedOpen path file) 0 =
      (Index.ofBytes file).mapError (Halt.reported ∘ damage path) := by
  rw [Index.ofBytes_eq_ite, checkedOpen, Checked.resultOf_refuse_bind]
  by_cases hsize : file.length < headerSize + footerSize
  · rw [if_pos hsize, if_pos hsize]
    rfl
  rw [if_neg hsize, if_neg hsize]
  have hheader : headerSize ≤ file.length := by omega
  have hfooter : footerSize ≤ file.length := by omega
  have hlast : (file.drop (file.length - footerSize)).length ≤ footerSize := by
    rw [List.length_drop, Nat.sub_sub_self hfooter]
  rw [Checked.resultOf_bind_of_ok (Checked.read_of_le (by omega)), List.drop_zero,
    Checked.resultOf_liftResult_bind, resultOf_checkedHeader path hheader]
  by_cases hmagic : file.take 4 ≠ magic
  · rw [if_pos hmagic, if_pos hmagic]
    rfl
  rw [if_neg hmagic, if_neg hmagic]
  by_cases hversion : versionField file ≠ formatVersion
  · rw [if_pos hversion, if_pos hversion]
    rfl
  rw [if_neg hversion, if_neg hversion, Except.bind,
    Checked.resultOf_bind_of_ok (Checked.subtract_of_le hfooter _),
    Checked.resultOf_bind_of_ok (Checked.seek_eq _ _),
    Checked.resultOf_bind_of_ok (Checked.read_of_le (by omega)), List.take_of_length_le hlast,
    Checked.resultOf_liftResult_bind, resultOf_checkedFooter hfooter, Except.bind, Checked.resultOf_refuse_bind]
  by_cases hplace : placeField file < headerSize ∨ placeField file > file.length - footerSize
  · rw [if_pos hplace, if_pos hplace]
    rfl
  rw [if_neg hplace, if_neg hplace]
  rw [not_or, Nat.not_lt, gt_iff_lt, Nat.not_lt] at hplace
  obtain ⟨hfront, hend⟩ := hplace
  rw [Checked.resultOf_bind_congr (checkedRows_eq path hfront (Nat.le_trans hend (Nat.sub_le _ _)) _),
    Checked.resultOf_refuse_bind, resultOf_checkedIndex path hend hfooter]
  split
  · rfl
  · rfl

variable {d : Disk} {path : Path} {id : Nat}

theorem openAt_of_file (h : d.file path = .ok id) : openAt d path =
    ((Index.ofBytes (d.content id)).map fun index => { path, file := id, index }).mapError (damage path) := by
  rw [openAt, h]
  cases hindex : Index.ofBytes (d.content id) with
  | ok index => simp only [bind, Except.bind, hindex]; rfl
  | error cause => simp only [bind, Except.bind, hindex]; rfl

/-- A file is opened exactly if it is a table, and then each key leads to where its last record says. Every
other file is refused as damaged. Whatever the file holds, opening comes to the same as going through it
step by step with each place and each difference checked, and so nothing outside of the file is gone to. -/
theorem openAt_iff_wellFormed (h : d.file path = .ok id) :
    ((∃ t, openAt d path = .ok t) ↔ ∃ records, WellFormed (d.content id) records) ∧
    (∀ t, openAt d path = .ok t → t.path = path ∧ t.file = id ∧
      t.index.dataEnd = placeField (d.content id) ∧ t.index.count = countField (d.content id) ∧
      ∀ records, WellFormed (d.content id) records →
        ∀ key, t.index.offsets[key]? = records.reverse.lookup key) ∧
    ((¬ ∃ records, WellFormed (d.content id) records) → ∃ cause,
      openAt d path = .error (.storage (.table path cause))) ∧
    Checked.resultOf (checkedOpen path (d.content id)) 0 =
      ((openAt d path).map Table.index).mapError .reported := by
  rw [openAt_of_file h, resultOf_checkedOpen]
  cases hindex : Index.ofBytes (d.content id) with
  | ok index =>
    obtain ⟨records, hrecords, rfl⟩ := Index.ofBytes_eq_ok_iff_wellFormed.1 hindex
    have hsome : ∃ records, WellFormed (d.content id) records := ⟨records, hrecords⟩
    refine ⟨⟨fun _ => hsome, fun _ => ⟨_, rfl⟩⟩, ?_, fun hnone => absurd hsome hnone, rfl⟩
    rintro t ⟨⟩
    refine ⟨rfl, rfl, rfl, ?_, fun other hother key => ?_⟩
    · exact (size_offsetMap_eq_keyCount records).trans hrecords.count.symm
    · rw [hother.records_eq hrecords]
      exact getElem?_offsetMap_eq records key
  | error cause =>
    have hnone : ¬ ∃ records, WellFormed (d.content id) records := by
      rintro ⟨records, hrecords⟩
      have hopen := Index.ofBytes_eq_ok_iff_wellFormed.2 ⟨records, hrecords, rfl⟩
      rw [hindex] at hopen
      contradiction
    refine ⟨⟨?_, fun hsome => absurd hsome hnone⟩, ?_, fun _ => ⟨cause, rfl⟩, rfl⟩
    · rintro ⟨t, ⟨⟩⟩
    · rintro t ⟨⟩

/-- The index of a file has two records for one key and one for the key of no bytes. If its footer says that
the index starts inside of the header, the file is refused. -/
theorem openAt_of_repeated_key :
    let bs := assemble 2 [] [([97], 5), ([], 0), ([97], 7)] [0, 0, 0, 0]
    let d := ({} : Disk).withFile ["t.sst"] bs
    let d' := ({} : Disk).withFile ["t.sst"] (bs.set 52 13)
    (∃ t, openAt d ["t.sst"] = .ok t ∧ t.index.count = 2 ∧ t.index.offsets[([97] : Bytes)]? = some 7 ∧
      t.index.offsets[([] : Bytes)]? = some 0) ∧
    ∃ cause, openAt d' ["t.sst"] = .error (.storage (.table ["t.sst"] cause)) := by
  intro bs d d'
  have hname : PlainName "t.sst" := .of_not_mem (by decide) (by decide) (by decide)
  have hcontent (file : Bytes) : (({} : Disk).withFile ["t.sst"] file).content 0 = file :=
    Disk.content_withFile_self
  obtain ⟨⟨-, hopen⟩, htable, -⟩ := openAt_iff_wellFormed (Disk.file_alone hname (by decide) bs)
  obtain ⟨-, -, hrefused, -⟩ := openAt_iff_wellFormed (Disk.file_alone hname (by decide) (bs.set 52 13))
  rw [hcontent] at hopen htable hrefused
  have hrecords : WellFormed bs [([97], 5), ([], 0), ([97], 7)] :=
    ⟨by decide, by decide, by decide, by decide, by decide, by decide, by decide, by decide, by decide⟩
  obtain ⟨t, ht⟩ := hopen ⟨_, hrecords⟩
  obtain ⟨-, -, -, hcount, hoffsets⟩ := htable t ht
  refine ⟨⟨t, ht, hcount, hoffsets _ hrecords [97], hoffsets _ hrecords []⟩, hrefused ?_⟩
  rintro ⟨records, hrecords⟩
  exact absurd hrecords.place_ge (by decide)

end KeyedStore.Table
