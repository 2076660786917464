import KeyedStore.Checksum

/-!
# Changed bytes

A string in which one byte is replaced. Each bit of the division that a checksum is made of can be
undone: the bit that falls out is the highest bit of the register afterwards, because the polynomial
has that bit and a shifted register has not. So the register after some bytes tells what it was before
them and, when all the others are known, what any one of the bytes was. Two strings that differ in one
byte have different checksums, whatever their length.
-/

namespace KeyedStore

namespace Bytes

variable {bs : Bytes} {k n w : Nat} {b : UInt8}

theorem set_ne (hk : k < bs.length) (hb : bs[k]? ≠ some b) : bs.set k b ≠ bs := by
  intro h
  apply hb
  rw [← h, List.getElem?_set_self hk]

/-- A number in which a byte is changed is another number of the same width. -/
theorem exists_le_set (hk : k < w) (hb : (le w n)[k]? ≠ some b) :
    ∃ m < bound w, (le w n).set k b = le w m ∧ le w m ≠ le w n := by
  have hlt := ofLE_lt ((le w n).set k b)
  have hle := le_ofLE ((le w n).set k b)
  rw [List.length_set, length_le] at hlt hle
  refine ⟨_, hlt, hle.symm, ?_⟩
  rw [hle]
  exact set_ne (by rwa [length_le]) hb

theorem set_append_add (front bs : Bytes) (k : Nat) (b : UInt8) :
    (front ++ bs).set (front.length + k) b = front ++ bs.set k b := by
  rw [List.set_append_right _ _ (Nat.le_add_right _ _), Nat.add_sub_cancel_left]

theorem getElem?_append_add (front bs : Bytes) (k : Nat) : (front ++ bs)[front.length + k]? = bs[k]? := by
  rw [List.getElem?_append_right (Nat.le_add_right _ _), Nat.add_sub_cancel_left]

theorem set_le_append_of_lt (hk : k < w) (n : Nat) (bs : Bytes) (b : UInt8) :
    (le w n ++ bs).set k b = (le w n).set k b ++ bs :=
  List.set_append_left k b (by rwa [length_le])

theorem getElem?_le_append_of_lt (hk : k < w) (n : Nat) (bs : Bytes) :
    (le w n ++ bs)[k]? = (le w n)[k]? :=
  List.getElem?_append_left (by rwa [length_le])

theorem set_le_append_add (w n k : Nat) (bs : Bytes) (b : UInt8) :
    (le w n ++ bs).set (w + k) b = le w n ++ bs.set k b := by
  simpa only [length_le] using set_append_add (le w n) bs k b

theorem getElem?_le_append_add (w n k : Nat) (bs : Bytes) : (le w n ++ bs)[w + k]? = bs[k]? := by
  simpa only [length_le] using getElem?_append_add (le w n) bs k

end Bytes

namespace Checksum

variable {k : Nat} {b : UInt8} {bs : Bytes}

theorem and_one_eq_one_iff (crc : UInt32) : crc &&& 1 = 1 ↔ crc.toBitVec.getLsbD 0 = true := by
  rw [← UInt32.toBitVec_inj, UInt32.toBitVec_and]
  constructor
  · intro h
    simpa using congrArg (BitVec.getLsbD · 0) h
  · intro h
    apply BitVec.eq_of_getLsbD_eq
    intro i hi
    cases i with
    | zero => simpa using h
    | succ i => simp

theorem getLsbD_shiftBit (crc : UInt32) :
    (shiftBit crc).toBitVec.getLsbD 31 = crc.toBitVec.getLsbD 0 := by
  unfold shiftBit
  split
  · next h =>
    rw [(and_one_eq_one_iff crc).1 h]
    simp
  · next h =>
    rw [and_one_eq_one_iff, Bool.not_eq_true] at h
    rw [h]
    simp

/-- A register is told by its lowest bit and the others. -/
theorem eq_of_shiftRight_eq {a b : UInt32} (hlow : a.toBitVec.getLsbD 0 = b.toBitVec.getLsbD 0)
    (hhigh : a >>> 1 = b >>> 1) : a = b := by
  apply UInt32.toBitVec_inj.1
  apply BitVec.eq_of_getLsbD_eq
  intro i hi
  cases i with
  | zero => exact hlow
  | succ i =>
    have hbit := congrArg (fun crc : UInt32 => crc.toBitVec.getLsbD i) hhigh
    simpa [Nat.add_comm] using hbit

theorem shiftBit_inj {a b : UInt32} : shiftBit a = shiftBit b ↔ a = b := by
  constructor
  · intro h
    have hlow : a.toBitVec.getLsbD 0 = b.toBitVec.getLsbD 0 := by
      rw [← getLsbD_shiftBit a, ← getLsbD_shiftBit b, h]
    apply eq_of_shiftRight_eq hlow
    unfold shiftBit at h
    simp only [and_one_eq_one_iff, hlow] at h
    split at h
    · exact (UInt32.xor_left_inj _).1 h
    · exact h
  · exact congrArg shiftBit

theorem feedByte_inj {a b : UInt32} (byte byte' : UInt8) :
    feedByte a byte = feedByte b byte' ↔ a ^^^ byte.toUInt32 = b ^^^ byte'.toUInt32 := by
  simp only [feedByte, shiftBit_inj]

theorem feed_inj {a b : UInt32} (bs : Bytes) : feed a bs = feed b bs ↔ a = b := by
  induction bs generalizing a b with
  | nil => rfl
  | cons byte bs ih =>
    change feed (feedByte a byte) bs = feed (feedByte b byte) bs ↔ a = b
    rw [ih, feedByte_inj, UInt32.xor_left_inj]

theorem crc32_inj {as bs : Bytes} : crc32 as = crc32 bs ↔ feed 0xFFFFFFFF as = feed 0xFFFFFFFF bs :=
  UInt32.not_inj

/-- Between the same bytes, a byte is told by the checksum. -/
theorem crc32_append_cons_inj {a b : UInt8} (front rest : Bytes) :
    crc32 (front ++ a :: rest) = crc32 (front ++ b :: rest) ↔ a = b := by
  rw [crc32_inj, feed_append, feed_append]
  change feed (feedByte _ a) rest = feed (feedByte _ b) rest ↔ a = b
  rw [feed_inj, feedByte_inj, UInt32.xor_right_inj]
  exact ⟨fun h => UInt8.toNat_inj.1 (by simpa using congrArg UInt32.toNat h), congrArg _⟩

/-- A string in which one byte is changed has another checksum. -/
theorem crc32_set_ne (hk : k < bs.length) (hb : bs[k]? ≠ some b) : crc32 (bs.set k b) ≠ crc32 bs := by
  intro hcrc
  rw [List.set_eq_take_append_cons_drop, if_pos hk] at hcrc
  have hinj := crc32_append_cons_inj (a := b) (b := bs[k]) (bs.take k) (bs.drop (k + 1))
  rw [List.getElem_cons_drop, List.take_append_drop] at hinj
  rw [List.getElem?_eq_getElem hk, hinj.1 hcrc] at hb
  exact hb rfl

/-- The written form of a checksum in which a byte is changed is that of another one. -/
theorem exists_le_set {crc : UInt32} (hk : k < 4) (hb : (Bytes.le 4 crc.toNat)[k]? ≠ some b) :
    ∃ crc' : UInt32, (Bytes.le 4 crc.toNat).set k b = Bytes.le 4 crc'.toNat ∧ crc ≠ crc' := by
  obtain ⟨n, hn, hset, hne⟩ := Bytes.exists_le_set hk hb
  rw [← UInt32.toNat_ofNat_of_lt' hn] at hset hne
  refine ⟨UInt32.ofNat n, hset, ?_⟩
  rintro rfl
  exact hne rfl

end Checksum

end KeyedStore
