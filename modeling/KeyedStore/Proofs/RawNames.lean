import KeyedStore.Proofs.LossyText

/-!
# File names of any bytes

The name of a file is a byte string and need not be text. Its number is read from the text that is shown for what
stands before its extension. That text is ASCII text only if the name is, so a number is read from a name exactly if
it is spelled there, and names that are not text have none.
-/

namespace KeyedStore.Shelf

open Bytes

variable {id : Nat} {name : String} {raw stem extension digits : Bytes}

/-- The fixed parts of a name with something between them do not overlap. -/
theorem eq_append_of_fixed (hfront : nameFront.isPrefixOf raw = true) (hback : nameBack.isSuffixOf raw = true)
    (hdigits : (raw.drop nameFront.length).take (raw.length - nameFront.length - nameBack.length) = digits)
    (hne : digits ≠ []) : raw = nameFront ++ digits ++ nameBack := by
  rw [List.isPrefixOf_iff_prefix] at hfront
  rw [List.isSuffixOf_iff_suffix, List.suffix_iff_eq_drop] at hback
  obtain ⟨rest, rfl⟩ := hfront
  rw [List.drop_left, List.length_append, Nat.add_sub_cancel_left] at hdigits
  have hlen : nameBack.length ≤ rest.length := by
    rcases Nat.lt_or_ge rest.length nameBack.length with hlt | hge
    · rw [Nat.sub_eq_zero_of_le (Nat.le_of_lt hlt), List.take_zero] at hdigits
      exact absurd hdigits.symm hne
    · exact hge
  rw [List.length_append, Nat.add_sub_assoc hlen, List.drop_length_add_append] at hback
  rw [List.append_assoc, hback, ← hdigits, List.take_append_drop]

/-- A name is read as a number exactly if the number is spelled in it. -/
theorem tableId?_eq_some_iff : tableId? name = some id ↔ Names id (Utf8.encode name) := by
  constructor
  · intro h
    rw [tableId?_eq] at h
    obtain ⟨raw, hraw, hid⟩ := Option.bind_eq_some_iff.1 h
    obtain ⟨rfl, hlow⟩ := Ascii.eq_ofBytes hraw
    rw [Utf8.encode_ofBytes hlow]
    split at hid
    · next hfixed =>
      obtain ⟨hlt, hdigits⟩ := Decimal.decode?_eq_some_iff.1 hid
      exact ⟨hlt, _, hdigits, eq_append_of_fixed hfixed.1 hfixed.2 rfl hdigits.ne_nil⟩
    · contradiction
  · intro h
    have hname : name = Ascii.ofBytes (Utf8.encode name) := by
      rw [← Utf8.encode_inj, Utf8.encode_ofBytes h.mem]
    rw [hname]
    exact tableId?_ofBytes h

/-! ### Names that are not text -/

/-- A file name cut at its last dot, unless it has none or nothing stands before it. -/
def splitAtDot? (raw : Bytes) : Option (Bytes × Bytes) :=
  match raw.reverse.dropWhile (· ≠ 46) with
  | _ :: stem => if stem = [] then none else some (stem.reverse, (raw.reverse.takeWhile (· ≠ 46)).reverse)
  | [] => none

/-- The number that is read from a file name of any bytes: with the right extension, from the text that is
shown for what stands before it. -/
def rawTableId? (raw : Bytes) : Option Nat := do
  let (stem, extension) ← splitAtDot? raw
  if extension = nameBack.tail then
    let shown ← Ascii.toBytes? (Utf8.lossy stem)
    if nameFront.isPrefixOf shown then Decimal.decode? (bound 8) (shown.drop nameFront.length) else none
  else none

theorem eq_of_splitAtDot? (h : splitAtDot? raw = some (stem, extension)) : raw = stem ++ 46 :: extension := by
  have hsplit := List.takeWhile_append_dropWhile (p := fun b : UInt8 => decide (b ≠ 46)) (l := raw.reverse)
  rw [splitAtDot?] at h
  split at h
  · next b back hback =>
    have hdot : b = 46 := by
      have hhead := List.head?_dropWhile_not (fun b : UInt8 => decide (b ≠ 46)) raw.reverse
      rw [hback] at hhead
      simpa using hhead
    split at h
    · contradiction
    · cases h
      rw [hback, hdot] at hsplit
      have hraw := congrArg List.reverse hsplit
      rw [List.reverse_reverse, List.reverse_append, List.reverse_cons, List.append_assoc] at hraw
      exact hraw.symm
  · contradiction

theorem splitAtDot?_append (hstem : stem ≠ []) (hextension : 46 ∉ extension) :
    splitAtDot? (stem ++ 46 :: extension) = some (stem, extension) := by
  have hreverse : (stem ++ 46 :: extension).reverse = extension.reverse ++ 46 :: stem.reverse := by simp
  have hpass : ∀ b ∈ extension.reverse, decide (b ≠ 46) = true := by
    intro b hb
    rw [decide_eq_true_eq]
    rintro rfl
    exact hextension (List.mem_reverse.1 hb)
  rw [splitAtDot?, hreverse, List.dropWhile_append_of_pos hpass, List.takeWhile_append_of_pos hpass]
  simp [hstem]

/-- A file name of any bytes is read as a number exactly if the number is spelled in it. -/
theorem rawTableId?_eq_some_iff : rawTableId? raw = some id ↔ Names id raw := by
  constructor
  · intro h
    obtain ⟨⟨stem, extension⟩, hsplit, h⟩ := Option.bind_eq_some_iff.1 h
    dsimp only at h
    split at h
    · next hextension =>
      obtain ⟨shown, hshown, h⟩ := Option.bind_eq_some_iff.1 h
      split at h
      · next hfront =>
        rw [Utf8.toBytes?_lossy] at hshown
        split at hshown
        · cases hshown
          obtain ⟨digits, rfl⟩ := List.isPrefixOf_iff_prefix.1 hfront
          rw [List.drop_left] at h
          obtain ⟨hlt, hdigits⟩ := Decimal.decode?_eq_some_iff.1 h
          refine ⟨hlt, digits, hdigits, ?_⟩
          rw [eq_of_splitAtDot? hsplit, hextension]
          rfl
        · contradiction
      · contradiction
    · contradiction
  · rintro ⟨hlt, digits, hdigits, rfl⟩
    have hsplit : splitAtDot? (nameFront ++ digits ++ nameBack) = some (nameFront ++ digits, nameBack.tail) :=
      splitAtDot?_append (List.append_ne_nil_of_left_ne_nil (by decide) _) (by decide)
    have hshown : Ascii.toBytes? (Utf8.lossy (nameFront ++ digits)) = some (nameFront ++ digits) := by
      rw [Utf8.toBytes?_lossy, if_pos]
      rw [List.all_eq_true]
      exact fun b hb => decide_eq_true (mem_front_digits hdigits b hb)
    have hfront : nameFront.isPrefixOf (nameFront ++ digits) = true := by
      rw [List.isPrefixOf_iff_prefix]
      exact List.prefix_append _ _
    simp only [rawTableId?, hsplit, hshown, hfront, Option.bind_eq_bind, Option.bind_some, if_true,
      List.drop_left]
    exact Decimal.decode?_eq_some_iff.2 ⟨hlt, hdigits⟩

theorem rawTableId?_encode (name : String) : rawTableId? (Utf8.encode name) = tableId? name := by
  apply Option.ext
  intro id
  rw [rawTableId?_eq_some_iff, tableId?_eq_some_iff]

end KeyedStore.Shelf
