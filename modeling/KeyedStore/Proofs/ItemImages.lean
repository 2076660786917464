import KeyedStore.Proofs.Decimals
import KeyedStore.Proofs.ItemParts

/-!
# Images of items

The image of an item is the header, the key, a separator, the suffix, the value and the terminator, one
after the other. A buffer with an image in front has its layout, and every part of the item is read back
from it, whatever stands in the rest of the buffer.
-/

namespace KeyedStore

open Bytes

variable {flags : UInt32} {n : Nat} {key value rest : Bytes}

namespace Suffix

/-- The suffix of an item with given flags and a value of a given length. -/
def line (flags : UInt32) (n : Nat) : Bytes :=
  32 :: Decimal.encode flags.toNat ++ 32 :: Decimal.encode n ++ Header.terminator

theorem length_line_le (flags : UInt32) (h : n < bound 8) : (line flags n).length ≤ 34 := by
  have hflags : (Decimal.encode flags.toNat).length ≤ 10 :=
    Decimal.length_encode_le (w := 9) (Nat.lt_trans (toNat_lt_bound_four flags) (by decide))
  have hlength : (Decimal.encode n).length ≤ 20 :=
    Decimal.length_encode_le (w := 19) (Nat.lt_trans h (by decide))
  simp only [line, List.length_append, List.length_cons, Header.terminator, List.length_nil]
  omega

theorem encode_eq_line (flags : UInt32) (h : n < bound 8) :
    encode flags (n + Header.terminator.length) = .ok (line flags n) := by
  have hline := length_line_le flags h
  rw [encode, if_neg (Nat.not_lt.2 (Nat.le_add_left _ n)), Nat.add_sub_cancel]
  change (if (line flags n).length > Header.maxSuffixLength then _ else _) = _
  rw [if_neg (by rw [Header.maxSuffixLength]; omega)]
  rfl

theorem atSpace?_append {front back : Bytes} (h : ∀ b ∈ front, b ≠ 32) :
    atSpace? (front ++ 32 :: back) = some (front, back) := by
  have hfront : ∀ b ∈ front, decide (b ≠ 32) = true := fun b hb => decide_eq_true (h b hb)
  rw [atSpace?, List.dropWhile_append_of_pos hfront, List.takeWhile_append_of_pos hfront]
  simp

/-- The flags and the length are read back from a suffix. -/
theorem decode_line (flags : UInt32) (h : n < bound 8) : decode (line flags n) = .ok (flags, n) := by
  have hend : withoutLineEnd? (Decimal.encode flags.toNat ++ 32 :: Decimal.encode n ++ [13, 10]) =
      some (Decimal.encode flags.toNat ++ 32 :: Decimal.encode n) := by
    rw [withoutLineEnd?, List.reverse_append]
    simp
  have hspace : atSpace? (Decimal.encode flags.toNat ++ 32 :: Decimal.encode n) =
      some (Decimal.encode flags.toNat, Decimal.encode n) := by
    refine atSpace?_append fun b hb => ?_
    rintro rfl
    have := (Decimal.mem_encode flags.toNat 32 hb).1
    contradiction
  have hparse : parse? (line flags n) = some (flags, n) := by
    rw [line, List.cons_append, List.cons_append, Header.terminator, parse?]
    simp only [hend, hspace, Decimal.decode?_encode (toNat_lt_bound_four flags),
      Decimal.decode?_encode h, Option.bind_eq_bind, Option.bind_some, UInt32.ofNat_toNat]
    rfl
  rw [decode, hparse]

end Suffix

namespace Item

/-- The header of an item with a value of `n` bytes. -/
def headerOf (key : Bytes) (flags : UInt32) (n : Nat) : Header where
  dataLength := .ofNat (n + Header.terminator.length)
  keyLength := .ofNat key.length
  suffixLength := .ofNat (Suffix.line flags n).length

/-- What stands in front of a value of `n` bytes. -/
def front (key : Bytes) (flags : UInt32) (n : Nat) : Bytes :=
  (headerOf key flags n).encode ++ key ++ 0 :: Suffix.line flags n

def image (key : Bytes) (flags : UInt32) (value : Bytes) : Bytes :=
  front key flags value.length ++ (value ++ Header.terminator)

/-- An item can have this key and a value of this length. -/
structure Fits (key : Bytes) (n : Nat) : Prop where
  key : key.length ≤ Header.maxKeyLength
  value : n + Header.terminator.length < bound 4

theorem length_front (key : Bytes) (flags : UInt32) (n : Nat) :
    (front key flags n).length = Header.size + (key.length + 1) + (Suffix.line flags n).length := by
  simp only [front, List.length_append, Header.length_encode, List.length_cons]
  omega

theorem length_image (key : Bytes) (flags : UInt32) (value : Bytes) :
    (image key flags value).length =
      (front key flags value.length).length + (value.length + Header.terminator.length) := by
  rw [image, List.length_append, List.length_append]

namespace Fits

variable (hf : Fits key n) (flags)

include hf

theorem lt_bound : n < bound 8 :=
  Nat.lt_of_le_of_lt (Nat.le_add_right _ _) (Nat.lt_trans hf.value (by decide))

theorem toNat_dataLength : (headerOf key flags n).dataLength.toNat = n + Header.terminator.length :=
  UInt32.toNat_ofNat_of_lt' hf.value

theorem toNat_keyLength : (headerOf key flags n).keyLength.toNat = key.length :=
  UInt16.toNat_ofNat_of_lt' (Nat.lt_of_le_of_lt hf.key (by decide))

theorem toNat_suffixLength :
    (headerOf key flags n).suffixLength.toNat = (Suffix.line flags n).length :=
  UInt8.toNat_ofNat_of_lt' (Nat.lt_of_le_of_lt (Suffix.length_line_le flags hf.lt_bound) (by decide))

theorem valid : (headerOf key flags n).Valid where
  data := by
    rw [hf.toNat_dataLength]
    exact Nat.le_add_left _ _
  key := by
    rw [hf.toNat_keyLength]
    exact hf.key
  suffix := by
    rw [hf.toNat_suffixLength]
    exact Nat.le_trans (Suffix.length_line_le flags hf.lt_bound) (by decide)

theorem compute_eq : Header.compute key.length flags (n + Header.terminator.length) =
    .ok (headerOf key flags n, Suffix.line flags n) := by
  have hlength : ¬ (n + Header.terminator.length < Header.terminator.length ∨
      n + Header.terminator.length ≥ bound 4) := by
    rintro (h | h)
    · exact Nat.not_lt.2 (Nat.le_add_left _ _) h
    · exact Nat.not_le.2 hf.value h
  rw [Header.compute, if_neg (Nat.not_lt.2 hf.key), if_neg hlength,
    Suffix.encode_eq_line flags hf.lt_bound]
  rfl

theorem total_eq : (headerOf key flags n).total =
    (front key flags n).length + (n + Header.terminator.length) := by
  rw [Header.total, hf.toNat_dataLength, hf.toNat_keyLength, hf.toNat_suffixLength, length_front]

/-- The parts of a buffer with room for the value behind what stands in front of it. -/
def parts {data : Bytes} (hdata : data.length = n + Header.terminator.length) (rest : Bytes) : Parts where
  header := headerOf key flags n
  key := key
  separator := 0
  suffix := Suffix.line flags n
  data := data
  rest := rest
  valid := hf.valid flags
  length_key := (hf.toNat_keyLength flags).symm
  length_suffix := (hf.toNat_suffixLength flags).symm
  length_data := hdata.trans (hf.toNat_dataLength flags).symm

theorem item_parts {data : Bytes} (hdata : data.length = n + Header.terminator.length) (rest : Bytes) :
    (hf.parts flags hdata rest).item = { buffer := front key flags n ++ (data ++ rest) } := by
  simp only [parts, Parts.item, Parts.front, front, List.append_assoc]

/-- The part of a layout that holds the value and its terminator. -/
theorem data_eq : Layout.data { header := headerOf key flags n } =
    { start := (front key flags n).length,
      stop := (front key flags n).length + (n + Header.terminator.length) } := by
  simp only [Layout.data, Layout.suffix, Layout.key, hf.toNat_dataLength, hf.toNat_keyLength,
    hf.toNat_suffixLength, length_front, Span.mk.injEq]
  omega

/-- Room for the value behind what stands in front of it is all that a buffer needs to have the layout
of the item. -/
theorem layout_eq (hroom : n + Header.terminator.length ≤ rest.length) :
    layout { buffer := front key flags n ++ rest } = .ok { header := headerOf key flags n } := by
  obtain ⟨data, back, rfl, hdata⟩ := exists_append hroom
  rw [← hf.item_parts flags hdata back]
  exact (hf.parts flags hdata back).layout_item

end Fits

/-! ### The parts of an image -/

section

variable (hf : Fits key value.length) (flags) (rest : Bytes)

include hf

theorem Fits.item_image :
    (hf.parts flags (List.length_append : (value ++ Header.terminator).length = _) rest).item =
      { buffer := image key flags value ++ rest } := by
  rw [hf.item_parts]
  simp only [image, List.append_assoc]

theorem Fits.layout_image :
    layout { buffer := image key flags value ++ rest } =
      .ok { header := headerOf key flags value.length } := by
  rw [← hf.item_image]
  exact Parts.layout_item _

theorem Fits.total_image : (headerOf key flags value.length).total = (image key flags value).length := by
  rw [hf.total_eq, length_image]

theorem Fits.bytes_image :
    Item.bytes { buffer := image key flags value ++ rest } = .ok (image key flags value) := by
  rw [← hf.item_image, Parts.bytes_item]
  simp only [Fits.parts, Parts.front, front, image, List.append_assoc]

theorem Fits.key_image : Item.key { buffer := image key flags value ++ rest } = .ok key := by
  rw [← hf.item_image]
  exact Parts.key_item _

theorem Fits.suffix_image :
    suffix { buffer := image key flags value ++ rest } = .ok (Suffix.line flags value.length) := by
  rw [← hf.item_image]
  exact Parts.suffix_item _

theorem Fits.flags_image : Item.flags { buffer := image key flags value ++ rest } = .ok flags := by
  simp only [Item.flags, hf.suffix_image, Suffix.decode_line flags hf.lt_bound, bind, Except.bind, pure,
    Except.pure]

theorem Fits.value_image : Item.value { buffer := image key flags value ++ rest } = .ok value := by
  rw [← hf.item_image, Parts.value_item]
  simp only [Fits.parts, List.length_append, Nat.add_sub_cancel, List.take_left]

/-- A value of the length that the header states makes a buffer hold the image of its item. -/
theorem Fits.setValue_front (hroom : value.length + Header.terminator.length ≤ rest.length) :
    setValue { buffer := front key flags value.length ++ rest } value =
      .ok { buffer := image key flags value ++
        rest.drop (value.length + Header.terminator.length) } := by
  obtain ⟨data, back, rfl, hdata⟩ := exists_append hroom
  have hlength : (value ++ Header.terminator).length = (hf.parts flags hdata back).data.length :=
    List.length_append.trans hdata.symm
  rw [← hf.item_parts flags hdata back, ← hdata, List.drop_left, ← hf.item_image]
  exact Parts.setValue_item _ hlength

end

end Item

end KeyedStore
