import KeyedStore.Proofs.ChangedBytes
import KeyedStore.Proofs.ShelfStates
import KeyedStore.Proofs.TableBuilding

/-!
# Table files with a changed byte

A table file in which one byte is changed is refused, if the byte is one of the header, of the rows or
of the stored checksum. The magic word and the version are compared with constants and the number of
rows with the index, and the checksum depends on every byte of the rows.
-/

namespace KeyedStore

namespace Table

open Bytes

variable {rows : List Row} {bs data index padding : Bytes} {stored : UInt32} {count k : Nat} {b : UInt8}

theorem length_magic : magic.length = 4 := rfl

/-! ### Refused files -/

namespace Index

theorem ofBytes_of_magic_ne (hlen : headerSize + footerSize ≤ bs.length) (hmagic : bs.take 4 ≠ magic) :
    ofBytes bs = .error (.badMagic (bs.take 4)) := by
  rw [ofBytes_eq_ite, if_neg (Nat.not_lt.2 hlen), if_pos hmagic]

theorem ofBytes_of_version_ne (hlen : headerSize + footerSize ≤ bs.length) (hmagic : bs.take 4 = magic)
    (hversion : ofLE ((bs.drop 4).take 2) ≠ formatVersion) :
    ofBytes bs = .error (.unsupportedVersion (ofLE ((bs.drop 4).take 2))) := by
  rw [ofBytes_eq_ite, if_neg (Nat.not_lt.2 hlen), if_neg (not_not_intro hmagic)]
  exact if_pos hversion

/-- A file whose rows do not have the stored checksum is refused. -/
theorem ofBytes_of_checksum_ne (hc : count < bound 8) (hd : headerSize + data.length < bound 8)
    (hp : padding.length = 4) (hsum : Checksum.crc32 data ≠ stored) (index : Bytes) :
    ofBytes (encodeHeader count ++ (data ++ (index ++
        (le 8 (headerSize + data.length) ++ (le 4 stored.toNat ++ padding))))) =
      .error (.checksum stored (Checksum.crc32 data)) := by
  generalize hbs : encodeHeader count ++ (data ++ (index ++
    (le 8 (headerSize + data.length) ++ (le 4 stored.toNat ++ padding)))) = bs
  have hsize : bs.length = headerSize + data.length + index.length + footerSize := by
    rw [← hbs]
    simp only [List.length_append, length_encodeHeader, length_le, hp, footerSize]
    omega
  have hheader : bs.take headerSize = encodeHeader count := by
    rw [← hbs, List.take_left' (length_encodeHeader count)]
  have hrest : bs.drop headerSize = data ++ (index ++
      (le 8 (headerSize + data.length) ++ (le 4 stored.toNat ++ padding))) := by
    rw [← hbs, List.drop_left' (length_encodeHeader count)]
  have hfooter : Footer.ofBytes (bs.drop (bs.length - footerSize)) =
      { indexOffset := headerSize + data.length, checksum := stored } := by
    rw [hsize, Nat.add_sub_cancel, Nat.add_assoc, ← List.drop_drop, hrest, ← List.drop_drop,
      List.drop_left, List.drop_left, Footer.ofBytes_append hd]
  rw [ofBytes_of_header (by omega) hc hheader hfooter]
  dsimp only
  rw [if_neg (by omega), Nat.add_sub_cancel_left, hrest, List.take_left, if_pos hsum]

end Index

/-! ### Files with a changed byte -/

theorem encode_eq (rows : List Row) : encode rows = encodeHeader rows.length ++ (encodeRows rows ++
    (encodeIndex rows ++ (le 8 (headerSize + (encodeRows rows).length) ++
      (le 4 (Checksum.crc32 (encodeRows rows)).toNat ++ le 4 0)))) := rfl

theorem headerSize_add_footerSize_le (rows : List Row) : headerSize + footerSize ≤ (encode rows).length := by
  rw [encode, length_encodeAs, dataEnd]
  omega

theorem ofBytes_set_magic (hk : k < 4) (hb : (encode rows)[k]? ≠ some b) :
    Index.ofBytes ((encode rows).set k b) = .error (.badMagic (magic.set k b)) := by
  have hlen : headerSize + footerSize ≤ ((encode rows).set k b).length := by
    rw [List.length_set]
    exact headerSize_add_footerSize_le rows
  rw [encode_eq, encodeHeader, List.append_assoc] at hb hlen ⊢
  rw [List.getElem?_append_left hk] at hb
  rw [List.set_append_left _ _ hk] at hlen ⊢
  have htake : ∀ rest : Bytes, (magic.set k b ++ rest).take 4 = magic.set k b :=
    fun rest => List.take_left' (List.length_set ..)
  rw [Index.ofBytes_of_magic_ne hlen, htake]
  rw [htake]
  exact Bytes.set_ne hk hb

theorem ofBytes_set_version (hk : k < 2) (hb : (encode rows)[4 + k]? ≠ some b) :
    ∃ version, Index.ofBytes ((encode rows).set (4 + k) b) = .error (.unsupportedVersion version) := by
  have hlen : headerSize + footerSize ≤ ((encode rows).set (4 + k) b).length := by
    rw [List.length_set]
    exact headerSize_add_footerSize_le rows
  rw [encode_eq, encodeHeader, List.append_assoc, List.append_assoc, ← length_magic] at hb hlen ⊢
  rw [getElem?_append_add, getElem?_le_append_of_lt hk] at hb
  obtain ⟨version, hversion, hset, hne⟩ := Bytes.exists_le_set hk hb
  rw [set_append_add, set_le_append_of_lt hk, hset] at hlen ⊢
  refine ⟨_, Index.ofBytes_of_version_ne hlen (List.take_left' rfl) ?_⟩
  rw [List.drop_left' length_magic, List.take_left' (length_le 2 version), ofLE_le hversion]
  rintro rfl
  exact hne rfl

theorem ofBytes_set_count (hs : Storable rows) (hend : dataEnd rows < bound 8) (hk : k < 8)
    (hb : (encode rows)[6 + k]? ≠ some b) :
    ∃ count, Index.ofBytes ((encode rows).set (6 + k) b) = .error (.countMismatch count rows.length) := by
  have hsplit : ∀ count, encodeAs count rows = magic ++ (le 2 formatVersion ++ (le 8 count ++
      (encodeRows rows ++ (encodeIndex rows ++ encodeFooter (encodeRows rows))))) := by
    intro count
    simp only [encodeAs, encodeHeader, List.append_assoc]
  rw [encode, hsplit, show 6 + k = magic.length + (2 + k) by rw [length_magic]; omega] at hb ⊢
  rw [getElem?_append_add, getElem?_le_append_add, getElem?_le_append_of_lt hk] at hb
  obtain ⟨count, hcount, hset, hne⟩ := Bytes.exists_le_set hk hb
  rw [set_append_add, set_le_append_add, set_le_append_of_lt hk, hset, ← hsplit,
    Index.ofBytes_encodeAs hs hend hcount, if_neg]
  · exact ⟨count, rfl⟩
  · rintro rfl
    exact hne rfl

theorem ofBytes_set_rows (hend : dataEnd rows < bound 8) (hk : k < (encodeRows rows).length)
    (hb : (encode rows)[headerSize + k]? ≠ some b) :
    ∃ computed, Index.ofBytes ((encode rows).set (headerSize + k) b) =
      .error (.checksum (Checksum.crc32 (encodeRows rows)) computed) := by
  have hcount := Nat.lt_of_le_of_lt (length_le_dataEnd rows) hend
  rw [encode_eq, ← length_encodeHeader rows.length] at hb ⊢
  rw [getElem?_append_add, List.getElem?_append_left hk] at hb
  have hsum := Checksum.crc32_set_ne hk hb
  rw [set_append_add, List.set_append_left _ _ hk, length_encodeHeader]
  have hopen := Index.ofBytes_of_checksum_ne hcount (by rwa [List.length_set]) (length_le 4 0) hsum
    (encodeIndex rows)
  rw [List.length_set] at hopen
  exact ⟨_, hopen⟩

theorem ofBytes_set_checksum (hend : dataEnd rows < bound 8) (hk : k < 4)
    (hb : (encode rows)[fileSize rows - 8 + k]? ≠ some b) :
    ∃ stored, Index.ofBytes ((encode rows).set (fileSize rows - 8 + k) b) =
      .error (.checksum stored (Checksum.crc32 (encodeRows rows))) := by
  have hcount := Nat.lt_of_le_of_lt (length_le_dataEnd rows) hend
  have hplace : fileSize rows - 8 + k = (encodeHeader rows.length).length +
      ((encodeRows rows).length + ((encodeIndex rows).length + (8 + k))) := by
    rw [← length_encode, encode, length_encodeAs, length_encodeHeader, dataEnd, footerSize]
    omega
  rw [hplace, encode_eq] at hb ⊢
  rw [getElem?_append_add, getElem?_append_add, getElem?_append_add, getElem?_le_append_add,
    getElem?_le_append_of_lt hk] at hb
  obtain ⟨stored, hset, hne⟩ := Checksum.exists_le_set hk hb
  rw [set_append_add, set_append_add, set_append_add, set_le_append_add, set_le_append_of_lt hk, hset]
  exact ⟨stored, Index.ofBytes_of_checksum_ne hcount hend (length_le 4 0) hne _⟩

/-- A file is refused when one byte of its header, of its rows or of its checksum is changed. -/
theorem ofBytes_set (hs : Storable rows) (hend : dataEnd rows < bound 8)
    (hk : k < dataEnd rows ∨ fileSize rows - 8 ≤ k ∧ k < fileSize rows - 4)
    (hb : (encode rows)[k]? ≠ some b) : ∃ cause, Index.ofBytes ((encode rows).set k b) = .error cause := by
  rcases hk with hk | ⟨hlow, hhigh⟩
  · by_cases hheader : k < headerSize
    · rw [headerSize] at hheader
      by_cases hmagic : k < 4
      · exact ⟨_, ofBytes_set_magic hmagic hb⟩
      · by_cases hversion : k < 6
        · obtain ⟨j, rfl⟩ := Nat.exists_eq_add_of_le (Nat.not_lt.1 hmagic)
          obtain ⟨version, hopen⟩ := ofBytes_set_version (by omega) hb
          exact ⟨_, hopen⟩
        · obtain ⟨j, rfl⟩ := Nat.exists_eq_add_of_le (Nat.not_lt.1 hversion)
          obtain ⟨count, hopen⟩ := ofBytes_set_count hs hend (by omega) hb
          exact ⟨_, hopen⟩
    · obtain ⟨j, rfl⟩ := Nat.exists_eq_add_of_le (Nat.not_lt.1 hheader)
      rw [dataEnd] at hk
      obtain ⟨computed, hopen⟩ := ofBytes_set_rows hend (by omega) hb
      exact ⟨_, hopen⟩
  · obtain ⟨j, rfl⟩ := Nat.exists_eq_add_of_le hlow
    obtain ⟨stored, hopen⟩ := ofBytes_set_checksum hend (by omega) hb
    exact ⟨_, hopen⟩

/-! ### Built files -/

variable {path : Path} {file : Nat} {d d' d₁ : Disk} {info : TableInfo}

namespace Builder

variable {b b' : Builder} {row : Row} {calls : List (Row × Except Error Unit)}

/-- A row that is not refused has the lengths that a file can state, and its key is the greatest. -/
theorem fits_of_check {b : Builder} (h : b.check row = .ok ()) :
    (∀ last ∈ b.taken.head?, compare last.1 row.1 = .lt) ∧ row.1.length < tombstoneMark ∧
      row.2.length < tombstoneMark := by
  by_cases hlast : ∀ last ∈ b.taken.head?, compare last.1 row.1 = .lt
  · refine ⟨hlast, ?_⟩
    unfold check at h
    simp only [bind, Except.bind] at h
    split at h
    · contradiction
    · split at h
      · contradiction
      · next hkey => exact ⟨checkLength_eq_ok hkey, checkLength_eq_ok h⟩
  · rw [check_eq_error hlast] at h
    contradiction

/-- Whatever a builder answers, its rows can be stored. -/
theorem storable_of_add {answer : Except Error Unit} (hs : Storable b.rows)
    (h : outcome (add row) b = .ok answer b') : Storable b'.rows := by
  cases hcheck : b.check row with
  | ok _ =>
    obtain ⟨hlast, hk, hv⟩ := fits_of_check hcheck
    obtain ⟨_, b₁, hadd, -, -, hs₁⟩ := outcome_add hs hk hv
    rw [h] at hadd
    cases hadd
    exact hs₁
  | error cause =>
    have hadd : add row b = .error cause b :=
      (get_bind _ b).trans (bind_of_error (liftResult_of_error hcheck b))
    rw [outcome_eq_error.2 hadd] at h
    cases h
    exact hs

theorem storable_of_offerAll (hs : Storable b.rows) (h : offerAll rows b = .ok calls b') :
    Storable b'.rows := by
  induction rows generalizing b calls with
  | nil =>
    cases h
    exact hs
  | cons row rows ih =>
    rw [offerAll, List.mapM_cons] at h
    obtain ⟨call, b₁, hcall, hrest⟩ := bind_eq_ok.1 h
    obtain ⟨answer, b₂, hadd, hanswer⟩ := bind_eq_ok.1 hcall
    obtain ⟨-, rfl⟩ := pure_eq_ok.1 hanswer
    obtain ⟨calls', b₃, hcalls, hlast⟩ := bind_eq_ok.1 hrest
    obtain ⟨-, rfl⟩ := pure_eq_ok.1 hlast
    exact ih (storable_of_add hs hadd) hcalls

theorem content_of_finish (hd : d.Intact) (h : b.finish path d = .ok info d₁) :
    info = b.info path ∧ ∃ file, d₁.file path = .ok file ∧ d₁.content file = encode b.rows := by
  obtain ⟨_, d₂, hwrite, hinfo⟩ := bind_eq_ok.1 h
  obtain ⟨rfl, rfl⟩ := pure_eq_ok.1 hinfo
  obtain ⟨file, d₀, hprovide, -⟩ := bind_eq_ok.1 hwrite
  obtain ⟨d₃, hwrite', -, hfile, hcontent⟩ := Disk.write_of_provide hd hprovide b.image
  rw [hwrite] at hwrite'
  cases hwrite'
  exact ⟨rfl, file, hfile, hcontent⟩

/-- When one byte of the header, of the rows or of the stored checksum of a finished table is replaced by
another, the table is not opened. -/
theorem openAt_of_changed_byte (hoffer : offerAll rows {} = .ok calls b) (hd : d.Intact)
    (hfinish : b.finish path d = .ok info d₁) (hend : dataEnd b.rows < bound 8)
    (hfile : d₁.file path = .ok file)
    (hk : k < dataEnd b.rows ∨ info.fileSize - 8 ≤ k ∧ k < info.fileSize - 4) {byte : UInt8}
    (hbyte : (d₁.content file)[k]? ≠ some byte) (hrewrites : d₁.Rewrites d' file)
    (hchanged : d'.content file = (d₁.content file).set k byte) :
    ∃ cause, openAt d' path = .error (.storage (.table path cause)) := by
  have hempty : Storable ({} : Builder).rows := ⟨.nil, fun _ hm => absurd hm List.not_mem_nil⟩
  have hs := storable_of_offerAll hempty hoffer
  obtain ⟨rfl, file', hfile', hcontent⟩ := content_of_finish hd hfinish
  rw [hfile] at hfile'
  cases hfile'
  rw [hcontent] at hbyte hchanged
  obtain ⟨cause, hopen⟩ := ofBytes_set hs hend hk hbyte
  rw [← hchanged] at hopen
  refine ⟨cause, ?_⟩
  simp only [openAt, hrewrites.file_eq, hfile, bind, Except.bind, hopen]
  rfl

/-- A table of one row, in which the key was changed, is not opened. -/
theorem openAt_of_changed_key :
    ∃ (d₁ d' : Disk) (info : TableInfo) (cause : TableFault),
      Table.write ["t.sst"] [([97], .value [49])] {} = .ok info d₁ ∧
      d'.content 0 = (d₁.content 0).set 22 98 ∧
      openAt d' ["t.sst"] = .error (.storage (.table ["t.sst"] cause)) := by
  have hplain : PlainName "t.sst" := .of_not_mem (by decide) (by decide) (by decide)
  have hnew := Disk.provide_empty hplain (by decide)
  let b : Builder := { taken := [([97], .value [49])] }
  have hoffer : offerAll [([97], .value [49])] {} = .ok [(([97], .value [49]), .ok ())] b := rfl
  obtain ⟨d₁, hwrite, -, hfile, hcontent⟩ := Disk.write_of_provide Disk.intact_empty hnew b.image
  have hfinish : b.finish ["t.sst"] {} = .ok (b.info ["t.sst"]) d₁ := bind_of_ok hwrite
  have hinside : 0 < d₁.contents.size := by
    rw [Nat.pos_iff_ne_zero]
    intro hzero
    simp [Disk.content, Array.size_eq_zero_iff.1 hzero, image, b, encode, encodeAs, encodeHeader, magic]
      at hcontent
  have hchanged := Disk.content_change_ofBytes hinside (·.set 22 98)
  have hb : (d₁.content 0)[22]? ≠ some 98 := by
    rw [hcontent]
    decide +kernel
  obtain ⟨cause, hopen⟩ := openAt_of_changed_byte hoffer Disk.intact_empty hfinish (by decide) hfile
    (.inl (by decide)) hb (d₁.rewrites_change 0 _) hchanged
  exact ⟨d₁, _, _, cause, hfinish, hchanged, hopen⟩

end Builder

end Table

end KeyedStore
