import KeyedStore.Proofs.ItemImages

/-!
# Written and read suffixes

A line is read as a suffix exactly if it is a space, a spelling of the flags, a space, a spelling of the length
and a line end. Writing always succeeds and gives at most 34 bytes, the shortest of the lines that are read as
the same flags and length. So the header of an item, which states the length of its suffix in one byte, states
it without loss.
-/

namespace KeyedStore

open Bytes

variable {flags : UInt32} {n : Nat} {bs body front back : Bytes}

namespace Suffix

theorem withoutLineEnd?_eq_some_iff : withoutLineEnd? bs = some body ↔ bs = body ++ Header.terminator := by
  constructor
  · intro h
    rw [withoutLineEnd?] at h
    split at h
    · next rest hreverse =>
      cases h
      rw [← List.reverse_reverse bs, hreverse]
      simp [Header.terminator]
    · contradiction
  · rintro rfl
    simp [withoutLineEnd?, Header.terminator]

theorem eq_append_of_atSpace? (h : atSpace? bs = some (front, back)) : bs = front ++ 32 :: back := by
  rw [atSpace?] at h
  split at h
  · next b after hdrop =>
    cases h
    have hspace := List.head?_dropWhile_not (fun b : UInt8 => decide (b ≠ 32)) bs
    rw [hdrop] at hspace
    have hb : b = 32 := by simpa using hspace
    have hsplit := List.takeWhile_append_dropWhile (p := fun b : UInt8 => decide (b ≠ 32)) (l := bs)
    rw [hdrop, hb] at hsplit
    exact hsplit.symm
  · contradiction

/-- What is read as given flags and a given length: both are spelled between spaces and a line end. -/
theorem parse?_eq_some_iff : parse? bs = some (flags, n) ↔ n < bound 8 ∧ ∃ front back,
    Decimal.Spells flags.toNat front ∧ Decimal.Spells n back ∧
      bs = 32 :: front ++ 32 :: back ++ Header.terminator := by
  constructor
  · intro h
    rw [parse?.eq_def] at h
    split at h
    · simp only [Option.bind_eq_bind, Option.bind_eq_some_iff, Prod.exists, Option.pure_def,
        Option.some.injEq, Prod.mk.injEq, withoutLineEnd?_eq_some_iff, Decimal.decode?_eq_some_iff] at h
      obtain ⟨body, rfl, front, back, hspace, m, ⟨hm, hfront⟩, k, ⟨hk, hback⟩, rfl, rfl⟩ := h
      refine ⟨hk, front, back, ?_, hback, by rw [eq_append_of_atSpace? hspace]; rfl⟩
      rwa [UInt32.toNat_ofNat_of_lt' hm]
    · contradiction
  · rintro ⟨hn, front, back, hfront, hback, rfl⟩
    have hspace : atSpace? (front ++ 32 :: back) = some (front, back) := by
      refine atSpace?_append fun b hb => ?_
      rintro rfl
      have := (hfront.mem 32 hb).1
      contradiction
    have hflags := Decimal.decode?_eq_some_iff.2 ⟨toNat_lt_bound_four flags, hfront⟩
    have hlength := Decimal.decode?_eq_some_iff.2 ⟨hn, hback⟩
    rw [List.cons_append, List.cons_append, parse?]
    simp only [withoutLineEnd?_eq_some_iff.2 rfl, hspace, hflags, hlength, Option.bind_eq_bind,
      Option.bind_some, UInt32.ofNat_toNat, Option.pure_def]

theorem decode_eq_ok_iff : decode bs = .ok (flags, n) ↔ n < bound 8 ∧ ∃ front back,
    Decimal.Spells flags.toNat front ∧ Decimal.Spells n back ∧
      bs = 32 :: front ++ 32 :: back ++ Header.terminator := by
  rw [← parse?_eq_some_iff, decode]
  split
  · next read hread => rw [hread, Except.ok.injEq, Option.some.injEq]
  · next hnone => simp [hnone]

/-- No line that is read as some flags and a length is shorter than the one that is written. -/
theorem length_line_le_of_decode (h : decode bs = .ok (flags, n)) : (line flags n).length ≤ bs.length := by
  obtain ⟨-, front, back, hfront, hback, rfl⟩ := decode_eq_ok_iff.1 h
  have := hfront.length_le
  have := hback.length_le
  simp only [line, List.length_append, List.length_cons]
  omega

theorem six_le_length_line (flags : UInt32) (n : Nat) : 6 ≤ (line flags n).length := by
  have := List.length_pos_iff.2 (Decimal.encode_ne_nil flags.toNat)
  have := List.length_pos_iff.2 (Decimal.encode_ne_nil n)
  simp only [line, List.length_append, List.length_cons, Header.terminator, List.length_nil]
  omega

theorem exists_line (flags : UInt32) (hmin : Header.terminator.length ≤ n) (hn : n < bound 8) :
    encode flags n = .ok (line flags (n - Header.terminator.length)) := by
  have hline := encode_eq_line flags (n := n - Header.terminator.length) (by omega)
  rwa [Nat.sub_add_cancel hmin] at hline

end Suffix

namespace Header

variable {keyLength : Nat} {header : Header} {suffix : Bytes}

theorem fits_of_compute (h : compute keyLength flags n = .ok (header, suffix)) :
    keyLength ≤ maxKeyLength ∧ terminator.length ≤ n ∧ n < bound 4 := by
  rw [compute] at h
  split at h
  · contradiction
  · next hkey =>
    split at h
    · contradiction
    · next hlength =>
      obtain ⟨hmin, hmax⟩ := not_or.1 hlength
      exact ⟨Nat.not_lt.1 hkey, Nat.not_lt.1 hmin, Nat.not_le.1 hmax⟩

theorem compute_of_fits (flags : UInt32) (hkey : keyLength ≤ maxKeyLength) (hmin : terminator.length ≤ n)
    (hmax : n < bound 4) : compute keyLength flags n =
      .ok ({ dataLength := .ofNat n, keyLength := .ofNat keyLength,
             suffixLength := .ofNat (Suffix.line flags (n - terminator.length)).length },
        Suffix.line flags (n - terminator.length)) := by
  have hlength : ¬ (n < terminator.length ∨ n ≥ bound 4) := by omega
  rw [compute, if_neg (Nat.not_lt.2 hkey), if_neg hlength,
    Suffix.exists_line flags hmin (Nat.lt_trans hmax (by decide))]
  rfl

/-- What the header of an item states: the lengths it is made of and that of the suffix, none of them cut. -/
theorem of_compute (h : compute keyLength flags n = .ok (header, suffix)) :
    suffix = Suffix.line flags (n - terminator.length) ∧ header.dataLength.toNat = n ∧
      header.keyLength.toNat = keyLength ∧ header.suffixLength.toNat = suffix.length ∧ header.Valid := by
  obtain ⟨hkey, hmin, hmax⟩ := fits_of_compute h
  have hn : n < bound 8 := Nat.lt_trans hmax (by decide)
  have hline := Suffix.length_line_le flags (n := n - terminator.length) (by omega)
  have hdata : (UInt32.ofNat n).toNat = n := UInt32.toNat_ofNat_of_lt' hmax
  have hkeyLength : (UInt16.ofNat keyLength).toNat = keyLength :=
    UInt16.toNat_ofNat_of_lt' (Nat.lt_of_le_of_lt hkey (by decide))
  have hsuffix := UInt8.toNat_ofNat_of_lt' (Nat.lt_of_le_of_lt hline (by decide))
  rw [compute_of_fits flags hkey hmin hmax] at h
  cases h
  refine ⟨rfl, hdata, hkeyLength, hsuffix, ⟨?_, ?_, ?_⟩⟩
  · rwa [hdata]
  · rwa [hkeyLength]
  · rw [hsuffix]
    exact Nat.le_trans hline (by decide)

theorem smallestItem_le_total (h : compute keyLength flags n = .ok (header, suffix)) :
    smallestItem ≤ header.total := by
  obtain ⟨rfl, -, -, hsuffix, hvalid⟩ := of_compute h
  have hdata := hvalid.data
  have hline := Suffix.six_le_length_line flags (n - terminator.length)
  rw [smallestItem, total, hsuffix]
  omega

end Header

/-- Writing flags and a length succeeds for all numbers of their widths, gives at most 34 bytes, and is read
back. A computed header states its lengths without loss, is read back, and describes no item smaller than the
smallest. And whatever line is read, writing what it states and reading that gives the same again, in no more
bytes. -/
theorem Suffix.written_is_read :
    (∀ (flags : UInt32) (n : Nat), Header.terminator.length ≤ n → n < bound 8 →
      ∃ line, encode flags n = .ok line ∧ line.length ≤ 34 ∧
        decode line = .ok (flags, n - Header.terminator.length)) ∧
    (∀ (keyLength : Nat) (flags : UInt32) (n : Nat) (header : Header) (suffix : Bytes),
      Header.compute keyLength flags n = .ok (header, suffix) →
        (header.dataLength.toNat = n ∧ header.keyLength.toNat = keyLength ∧
          header.suffixLength.toNat = suffix.length) ∧
        Header.decode header.encode = .ok header ∧ Header.smallestItem ≤ header.total) ∧
    (∀ (bs : Bytes) (flags : UInt32) (n : Nat), decode bs = .ok (flags, n) →
      n < bound 8 ∧ (n + Header.terminator.length < bound 8 →
        ∃ line, encode flags (n + Header.terminator.length) = .ok line ∧ decode line = .ok (flags, n) ∧
          line.length ≤ bs.length)) := by
  refine ⟨fun flags n hmin hn => ?_, fun keyLength flags n header suffix h => ?_, fun bs flags n h => ?_⟩
  · have hlt : n - Header.terminator.length < bound 8 := by omega
    exact ⟨_, exists_line flags hmin hn, length_line_le flags hlt, decode_line flags hlt⟩
  · obtain ⟨-, hdata, hkey, hsuffix, hvalid⟩ := Header.of_compute h
    have hdecode := Header.decode_encode_append hvalid []
    rw [List.append_nil] at hdecode
    exact ⟨⟨hdata, hkey, hsuffix⟩, hdecode, Header.smallestItem_le_total h⟩
  · have hn := (decode_eq_ok_iff.1 h).1
    exact ⟨hn, fun _ => ⟨_, encode_eq_line flags hn, decode_line flags hn, length_line_le_of_decode h⟩⟩

/-- The largest numbers, the longest key with the largest data, and a line with a plus sign and more zeros than
needed. -/
theorem Suffix.written_is_read_of_extremes :
    (∃ line, encode 4294967295 18446744073709551615 = .ok line ∧ line.length ≤ 34 ∧
      decode line = .ok (4294967295, 18446744073709551613)) ∧
    (∃ header suffix, Header.compute 250 4294967295 4294967295 = .ok (header, suffix) ∧
      header.dataLength.toNat = 4294967295 ∧ Header.decode header.encode = .ok header) ∧
    decode [32, 43, 48, 55, 32, 48, 48, 13, 10] = .ok (7, 0) ∧
    ∃ line, encode 7 2 = .ok line ∧ decode line = .ok (7, 0) ∧ line.length ≤ 9 := by
  obtain ⟨hwritten, hcomputed, hread⟩ := written_is_read
  have hheader : Header.compute 250 4294967295 4294967295 = .ok _ :=
    Header.compute_of_fits 4294967295 (by decide) (by decide) (by decide)
  have hspelled : decode [32, 43, 48, 55, 32, 48, 48, 13, 10] = .ok (7, 0) := rfl
  obtain ⟨⟨hdata, -, -⟩, hdecode, -⟩ := hcomputed _ _ _ _ _ hheader
  exact ⟨hwritten _ _ (by decide) (by decide), ⟨_, _, hheader, hdata, hdecode⟩, hspelled,
    (hread _ _ _ hspelled).2 (by decide)⟩

end KeyedStore
