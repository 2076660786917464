import KeyedStore.Proofs.Decimals
import KeyedStore.Proofs.Places
import KeyedStore.Shelf

/-!
# Names of table files

The name of a table file is a plain name of at most 32 bytes, and the number of the table is read
back from it, so tables with different numbers have files with different names. The same number is
read from every name in which it is spelled between the same fixed parts.
-/

namespace KeyedStore

namespace Ascii

variable {bs : Bytes}

theorem toNat_ofNat {n : Nat} (h : n < 128) : (Char.ofNat n).toNat = n := by
  have hvalid : n.isValidChar := Or.inl (by omega)
  rw [Char.ofNat, dif_pos hvalid]
  rfl

theorem utf8ByteSize_ofBytes (h : ∀ b ∈ bs, b.toNat < 128) : (ofBytes bs).utf8ByteSize = bs.length := by
  induction bs with
  | nil => rfl
  | cons b bs ih =>
    have hb := h b List.mem_cons_self
    have hsize : (Char.ofNat b.toNat).utf8Size = 1 := by
      rw [Char.utf8Size_eq_one_iff, UInt32.le_iff_toNat_le]
      change (Char.ofNat b.toNat).toNat ≤ 127
      rw [toNat_ofNat hb]
      omega
    have ih := ih (fun b' hb' => h b' (List.mem_cons_of_mem _ hb'))
    rw [ofBytes] at ih ⊢
    rw [List.map_cons, String.ofList_cons, String.utf8ByteSize_append,
      String.utf8ByteSize_singleton, hsize, ih, List.length_cons]
    omega

theorem toBytes?_ofBytes (h : ∀ b ∈ bs, b.toNat < 128) : toBytes? (ofBytes bs) = some bs := by
  rw [toBytes?, ofBytes, String.toList_ofList]
  induction bs with
  | nil => rfl
  | cons b bs ih =>
    have hb := h b List.mem_cons_self
    have hcode : code? (Char.ofNat b.toNat) = some b := by
      rw [code?, toNat_ofNat hb, if_pos hb, UInt8.ofNat_toNat]
    rw [List.map_cons, List.mapM_cons, hcode, ih (fun b' hb' => h b' (List.mem_cons_of_mem _ hb'))]
    rfl

end Ascii

namespace Shelf

open Bytes

variable {id other : Nat} {raw digits : Bytes}

def nameBytes (id : Nat) : Bytes := nameFront ++ Decimal.padded 6 id ++ nameBack

theorem mem_nameBytes (id : Nat) : ∀ b ∈ nameBytes id, 46 ≤ b.toNat ∧ b.toNat < 128 := by
  have hfixed : (nameFront ++ nameBack).all fun b => 46 ≤ b.toNat ∧ b.toNat < 128 := by decide
  rw [List.all_eq_true] at hfixed
  intro b hb
  rw [nameBytes, List.mem_append, List.mem_append] at hb
  rcases hb with (hb | hb) | hb
  · exact of_decide_eq_true (hfixed b (List.mem_append_left _ hb))
  · have := Decimal.mem_padded 6 id b hb
    omega
  · exact of_decide_eq_true (hfixed b (List.mem_append_right _ hb))

theorem length_nameBytes (id : Nat) : (nameBytes id).length = (Decimal.padded 6 id).length + 12 := by
  simp only [nameBytes, List.length_append]
  change 8 + _ + 4 = _
  omega

theorem length_padded_le (h : id < bound 8) : (Decimal.padded 6 id).length ≤ 20 := by
  have hlen : (Decimal.encode id).length ≤ 20 :=
    Decimal.length_encode_le (w := 19) (Nat.lt_of_lt_of_le h (by decide))
  rw [Decimal.padded, List.length_append, List.length_replicate]
  omega

theorem utf8ByteSize_tableName (id : Nat) :
    (tableName id).utf8ByteSize = (nameBytes id).length :=
  Ascii.utf8ByteSize_ofBytes (fun b hb => (mem_nameBytes id b hb).2)

theorem utf8ByteSize_tableName_lt (h : id < bound 8) : (tableName id).utf8ByteSize < 33 := by
  have := length_padded_le h
  rw [utf8ByteSize_tableName, length_nameBytes]
  omega

theorem plainName_tableName (h : id < bound 8) : PlainName (tableName id) := by
  have hshort := utf8ByteSize_tableName_lt h
  have hlong : 12 ≤ (tableName id).utf8ByteSize := by
    rw [utf8ByteSize_tableName, length_nameBytes]
    omega
  refine ⟨?_, ?_, ?_, ?_, by rw [Disk.maxNameLength]; omega⟩
  · intro he
    rw [he] at hlong
    contradiction
  · intro he
    rw [he] at hlong
    contradiction
  · intro he
    rw [he] at hlong
    contradiction
  · rw [String.contains_char_eq, decide_eq_false_iff_not, tableName, Ascii.ofBytes,
      String.toList_ofList, List.mem_map]
    rintro ⟨b, hb, he⟩
    have hrange := mem_nameBytes id b hb
    have := congrArg Char.toNat he
    rw [Ascii.toNat_ofNat hrange.2] at this
    change b.toNat = 0 at this
    omega

/-- A file name in which a number is spelled between the fixed parts. -/
def Names (id : Nat) (raw : Bytes) : Prop :=
  id < bound 8 ∧ ∃ digits, Decimal.Spells id digits ∧ raw = nameFront ++ digits ++ nameBack

theorem names_nameBytes (h : id < bound 8) : Names id (nameBytes id) :=
  ⟨h, _, Decimal.spells_padded 6 id, rfl⟩

theorem mem_front_digits (hdigits : Decimal.Spells id digits) : ∀ b ∈ nameFront ++ digits, b.toNat < 128 := by
  intro b hb
  rcases List.mem_append.1 hb with hb | hb
  · exact (mem_nameBytes 0 b (List.mem_append_left _ (List.mem_append_left _ hb))).2
  · have := hdigits.mem b hb
    omega

theorem Names.mem (h : Names id raw) : ∀ b ∈ raw, b.toNat < 128 := by
  obtain ⟨-, digits, hdigits, rfl⟩ := h
  intro b hb
  rcases List.mem_append.1 hb with hb | hb
  · exact mem_front_digits hdigits b hb
  · exact (mem_nameBytes 0 b (List.mem_append_right _ hb)).2

theorem tableId?_eq (name : String) : tableId? name =
    (Ascii.toBytes? name).bind fun raw =>
      if nameFront.isPrefixOf raw ∧ nameBack.isSuffixOf raw then
        Decimal.decode? (bound 8) ((raw.drop nameFront.length).take
          (raw.length - nameFront.length - nameBack.length))
      else none := rfl

/-- The number that is spelled in a name is read from it. -/
theorem tableId?_ofBytes (h : Names id raw) : tableId? (Ascii.ofBytes raw) = some id := by
  have hbytes := Ascii.toBytes?_ofBytes h.mem
  obtain ⟨hlt, digits, hdigits, rfl⟩ := h
  have hfront : nameFront.isPrefixOf (nameFront ++ digits ++ nameBack) = true := by
    rw [List.isPrefixOf_iff_prefix, List.append_assoc]
    exact List.prefix_append _ _
  have hback : nameBack.isSuffixOf (nameFront ++ digits ++ nameBack) = true := by
    rw [List.isSuffixOf_iff_suffix]
    exact List.suffix_append _ _
  have hlen : (nameFront ++ digits ++ nameBack).length - nameFront.length - nameBack.length = digits.length := by
    rw [List.length_append, List.length_append]
    omega
  rw [tableId?_eq, hbytes, Option.bind_some, if_pos ⟨hfront, hback⟩, hlen, List.append_assoc, List.drop_left,
    List.take_left]
  exact Decimal.decode?_eq_some_iff.2 ⟨hlt, hdigits⟩

/-- The number in the name of a table file is read back. -/
theorem tableId?_tableName (h : id < bound 8) : tableId? (tableName id) = some id :=
  tableId?_ofBytes (names_nameBytes h)

theorem tableName_inj (h : id < bound 8) (ho : other < bound 8) (he : tableName id = tableName other) :
    id = other := by
  have := tableId?_tableName h
  rw [he, tableId?_tableName ho, Option.some.injEq] at this
  exact this.symm

end Shelf

end KeyedStore
