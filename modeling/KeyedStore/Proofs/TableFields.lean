import KeyedStore.Table.Index

/-!
# What table files state

A table file states a version, the number of its rows, the place of its index and the checksum of its rows,
each at a place of its own. Opening compares them one after the other with what it finds; this is the only
place where its definition is taken apart.
-/

namespace KeyedStore.Table

open Bytes

variable {bs : Bytes} {n start stop : Nat}

/-- The bytes of a string from one position up to another. -/
def between (bs : Bytes) (start stop : Nat) : Bytes := (bs.drop start).take (stop - start)

theorem between_take (h : stop ≤ n) : between (bs.take n) start stop = between bs start stop := by
  rw [between, between, List.drop_take, List.take_take, Nat.min_eq_left (Nat.sub_le_sub_right h start)]

/-- What a file states as its version. -/
def versionField (bs : Bytes) : Nat := ofLE (between bs 4 6)

/-- What a file states as the number of its rows. -/
def countField (bs : Bytes) : Nat := ofLE (between bs 6 14)

/-- What a file states as the place of its index. -/
def placeField (bs : Bytes) : Nat := ofLE (between bs (bs.length - 16) (bs.length - 16 + 8))

/-- What a file states as the checksum of its rows. -/
def checksumField (bs : Bytes) : UInt32 :=
  .ofNat (ofLE (between bs (bs.length - 16 + 8) (bs.length - 16 + 12)))

theorem Footer.ofBytes_drop (bs : Bytes) : ofBytes (bs.drop (bs.length - footerSize)) =
    { indexOffset := placeField bs, checksum := checksumField bs } := by
  rw [placeField, checksumField, between, between, Nat.add_sub_cancel_left, Nat.add_sub_add_left,
    ← List.drop_drop]
  rfl

/-- The checks that opening makes, one after the other. -/
theorem Index.ofBytes_eq_ite (bs : Bytes) : ofBytes bs =
    if bs.length < headerSize + footerSize then .error (.tooSmall bs.length)
    else if bs.take 4 ≠ magic then .error (.badMagic (bs.take 4))
    else if versionField bs ≠ formatVersion then .error (.unsupportedVersion (versionField bs))
    else if placeField bs < headerSize ∨ placeField bs > bs.length - footerSize then
      .error (.indexOffset (placeField bs))
    else if Checksum.crc32 (between bs headerSize (placeField bs)) ≠ checksumField bs then
      .error (.checksum (checksumField bs) (Checksum.crc32 (between bs headerSize (placeField bs))))
    else
      (readRecords (between bs (placeField bs) (bs.length - footerSize))).bind fun records =>
        if (offsetMap records).size ≠ countField bs then
          .error (.countMismatch (countField bs) (offsetMap records).size)
        else .ok { offsets := offsetMap records, dataEnd := placeField bs } := by
  simp only [ofBytes, bind, pure, Except.pure, throw, throwThe, MonadExceptOf.throw, Except.bind,
    Footer.ofBytes_drop]
  rfl

theorem ite_error_eq_ok_iff {ε α : Type} {p : Prop} [Decidable p] {e : ε} {x : Except ε α} {a : α} :
    (if p then .error e else x) = .ok a ↔ ¬ p ∧ x = .ok a := by
  by_cases h : p
  · simp [h]
  · simp [h]

end KeyedStore.Table
