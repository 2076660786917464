/-!
# Byte strings

A byte string is a list of bytes. This module splits them at a length, writes into them at an
offset, and reads and writes numbers of a fixed width with the least (`le`) or the most (`be`)
significant byte first. Main statements: a number that fits its width is read back, and a byte
string is the written form of the number it stands for.
-/

namespace KeyedStore

abbrev Bytes := List UInt8

namespace Bytes

variable {n w : Nat} {bs rest : Bytes}

/-! ### Cutting and patching -/

/-- Moves `n` bytes from the front of a string to `taken`, the latest first. -/
def splitFrom (taken : Bytes) : Nat → Bytes → Option (Bytes × Bytes)
  | 0, bs => some (taken.reverse, bs)
  | n + 1, b :: bs => splitFrom (b :: taken) n bs
  | _ + 1, [] => none

/-- The first `n` bytes and what follows them, when there are that many. -/
def split? (n : Nat) (bs : Bytes) : Option (Bytes × Bytes) := splitFrom [] n bs

theorem splitFrom_eq (taken : Bytes) (n : Nat) (bs : Bytes) :
    splitFrom taken n bs =
      if n ≤ bs.length then some (taken.reverse ++ bs.take n, bs.drop n) else none := by
  induction n generalizing taken bs with
  | zero => simp [splitFrom]
  | succ n ih => cases bs <;> simp [splitFrom, ih]

theorem split?_eq (n : Nat) (bs : Bytes) :
    split? n bs = if n ≤ bs.length then some (bs.take n, bs.drop n) else none := by
  simp [split?, splitFrom_eq]

theorem split?_append (front rest : Bytes) :
    split? front.length (front ++ rest) = some (front, rest) := by
  simp [split?_eq]

theorem split?_eq_some {front : Bytes} (h : split? n bs = some (front, rest)) :
    bs = front ++ rest ∧ front.length = n := by
  rw [split?_eq] at h
  split at h
  · next hn =>
    simp only [Option.some.injEq, Prod.mk.injEq] at h
    obtain ⟨rfl, rfl⟩ := h
    exact ⟨(List.take_append_drop n bs).symm, List.length_take_of_le hn⟩
  · contradiction

theorem split?_eq_none_iff : split? n bs = none ↔ bs.length < n := by
  rw [split?_eq]
  split <;> simp <;> omega

/-- The string cut, or filled up with zeros, to exactly `n` bytes. -/
def resize (n : Nat) (bs : Bytes) : Bytes :=
  bs.take n ++ List.replicate (n - bs.length) 0

@[simp] theorem length_resize : (resize n bs).length = n := by
  simp [resize]; omega

theorem resize_of_le (h : n ≤ bs.length) : resize n bs = bs.take n := by
  simp [resize, Nat.sub_eq_zero_of_le h]

/-- Puts `new` at offset `pos`; a gap before it is filled with zeros. -/
def writeAt (pos : Nat) (new bs : Bytes) : Bytes :=
  resize pos bs ++ new ++ bs.drop (pos + new.length)

theorem writeAt_length (new bs : Bytes) : writeAt bs.length new bs = bs ++ new := by
  simp [writeAt, resize]

/-- Lays `new` over the front of a buffer, whose length stays as it was. -/
def overlay (new bs : Bytes) : Bytes :=
  new.take bs.length ++ bs.drop new.length

@[simp] theorem length_overlay (new bs : Bytes) : (overlay new bs).length = bs.length := by
  simp [overlay]; omega

/-- Changes the byte at offset `pos` by exclusive or with `mask`. -/
def xorAt (pos : Nat) (mask : UInt8) (bs : Bytes) : Bytes :=
  bs.modify pos (· ^^^ mask)

/-! ### Numbers of a fixed width -/

/-- The number of byte strings of length `w`: the first number that does not fit `w` bytes. -/
def bound : Nat → Nat
  | 0 => 1
  | w + 1 => 256 * bound w

/-- The low `w` bytes of `n`, least significant first. -/
def le : Nat → Nat → Bytes
  | 0, _ => []
  | w + 1, n => UInt8.ofNat n :: le w (n / 256)

/-- The number that a string stands for, least significant byte first. -/
def ofLE : Bytes → Nat
  | [] => 0
  | b :: bs => b.toNat + 256 * ofLE bs

/-- The low `w` bytes of `n`, most significant first. -/
def be (w n : Nat) : Bytes := (le w n).reverse

/-- The number that a string stands for, most significant byte first. -/
def ofBE (bs : Bytes) : Nat := ofLE bs.reverse

@[simp] theorem length_le (w n : Nat) : (le w n).length = w := by
  induction w generalizing n with
  | zero => rfl
  | succ w ih => simp [le, ih]

@[simp] theorem length_be (w n : Nat) : (be w n).length = w := by
  simp [be]

theorem bound_four : bound 4 = 4294967296 := rfl

theorem bound_eight : bound 8 = 18446744073709551616 := rfl

theorem toNat_lt_bound_four (n : UInt32) : n.toNat < bound 4 := by
  rw [bound_four]
  exact n.toNat_lt

theorem toNat_lt_bound_eight (n : UInt64) : n.toNat < bound 8 := by
  rw [bound_eight]
  exact n.toNat_lt

theorem ofLE_lt (bs : Bytes) : ofLE bs < bound bs.length := by
  induction bs with
  | nil => simp [ofLE, bound]
  | cons b bs ih =>
    have hb := b.toNat_lt
    simp only [ofLE, List.length_cons, bound]
    omega

theorem ofLE_le (h : n < bound w) : ofLE (le w n) = n := by
  induction w generalizing n with
  | zero => simp [le, ofLE, bound] at *; omega
  | succ w ih =>
    simp only [le, ofLE, UInt8.toNat_ofNat']
    rw [ih (by simp only [bound] at h; omega)]
    omega

theorem le_ofLE (bs : Bytes) : le bs.length (ofLE bs) = bs := by
  induction bs with
  | nil => rfl
  | cons b bs ih =>
    have hb := b.toNat_lt
    simp only [List.length_cons, le, ofLE]
    rw [show (b.toNat + 256 * ofLE bs) / 256 = ofLE bs by omega, ih]
    congr 1
    apply UInt8.toNat_inj.1
    simp only [UInt8.toNat_ofNat']
    omega

theorem ofBE_be (h : n < bound w) : ofBE (be w n) = n := by
  simp [ofBE, be, ofLE_le h]

theorem be_ofBE (bs : Bytes) : be bs.length (ofBE bs) = bs := by
  have h := le_ofLE bs.reverse
  rw [List.length_reverse] at h
  simp [be, ofBE, h]

/-- Reads a number of `w` bytes from the front, least significant byte first. -/
def readLE? (w : Nat) (bs : Bytes) : Option (Nat × Bytes) :=
  (split? w bs).map fun (front, rest) => (ofLE front, rest)

/-- Reads a number of `w` bytes from the front, most significant byte first. -/
def readBE? (w : Nat) (bs : Bytes) : Option (Nat × Bytes) :=
  (split? w bs).map fun (front, rest) => (ofBE front, rest)

theorem length_of_readLE? (h : readLE? w bs = some (n, rest)) : bs.length = w + rest.length := by
  simp only [readLE?, Option.map_eq_some_iff, Prod.mk.injEq, Prod.exists] at h
  obtain ⟨front, rest', hs, _, rfl⟩ := h
  obtain ⟨rfl, rfl⟩ := split?_eq_some hs
  simp

theorem readLE?_le_append (h : n < bound w) (rest : Bytes) :
    readLE? w (le w n ++ rest) = some (n, rest) := by
  have hs := split?_append (le w n) rest
  rw [length_le] at hs
  simp [readLE?, hs, ofLE_le h]

/-- A string begins with exactly one number of a width, if it is long enough. -/
theorem readLE?_eq_some_iff : readLE? w bs = some (n, rest) ↔ n < bound w ∧ bs = le w n ++ rest := by
  constructor
  · intro h
    simp only [readLE?, Option.map_eq_some_iff, Prod.mk.injEq, Prod.exists] at h
    obtain ⟨front, rest', hs, rfl, rfl⟩ := h
    obtain ⟨rfl, rfl⟩ := split?_eq_some hs
    exact ⟨ofLE_lt front, by rw [le_ofLE]⟩
  · rintro ⟨h, rfl⟩
    exact readLE?_le_append h rest

theorem readBE?_be_append (h : n < bound w) (rest : Bytes) :
    readBE? w (be w n ++ rest) = some (n, rest) := by
  have hs := split?_append (be w n) rest
  rw [length_be] at hs
  simp [readBE?, hs, ofBE_be h]

/-- A string begins with exactly one number of a width, if it is long enough. -/
theorem readBE?_eq_some_iff : readBE? w bs = some (n, rest) ↔ n < bound w ∧ bs = be w n ++ rest := by
  constructor
  · intro h
    simp only [readBE?, Option.map_eq_some_iff, Prod.mk.injEq, Prod.exists] at h
    obtain ⟨front, rest', hsplit, rfl, rfl⟩ := h
    obtain ⟨rfl, rfl⟩ := split?_eq_some hsplit
    have hlt := ofLE_lt front.reverse
    rw [List.length_reverse] at hlt
    exact ⟨hlt, by rw [be_ofBE]⟩
  · rintro ⟨h, rfl⟩
    exact readBE?_be_append h rest

end Bytes

end KeyedStore
