import KeyedStore.Proofs.TableNames
import KeyedStore.Text.Utf8

/-!
# ASCII text in byte strings

The text that is shown for a byte string has only characters below 128 exactly if the string has only bytes below
128, and then they are its codes: a longer character stands for a code of 128 or more, and an ill-formed part is
shown as U+FFFD. The encoded form of ASCII text is the byte string that it came from.
-/

namespace KeyedStore

namespace Utf8

variable {n code c : Nat} {low high b : UInt8} {bs rest : Bytes} {l : Lead}

/-! ### Codes of longer characters -/

theorem follow_succ (h : (follow (n + 1) low high code bs).1 = some c) : ∃ (b : UInt8) (rest : Bytes),
    low.toNat ≤ b.toNat ∧ b.toNat ≤ high.toNat ∧
      (follow n 0x80 0xBF (code * 64 + b.toNat % 64) rest).1 = some c := by
  cases bs with
  | nil => contradiction
  | cons b rest =>
    rw [follow] at h
    split at h
    · next hb => exact ⟨b, rest, UInt8.le_iff_toNat_le.1 hb.1, UInt8.le_iff_toNat_le.1 hb.2, h⟩
    · contradiction

theorem eq_of_follow_one (h : (follow 1 low high code bs).1 = some c) : ∃ x,
    low.toNat ≤ x ∧ x ≤ high.toNat ∧ c = code * 64 + x % 64 := by
  obtain ⟨b, rest, hlow, hhigh, h⟩ := follow_succ h
  cases h
  exact ⟨_, hlow, hhigh, rfl⟩

theorem div_of_follow_two (h : (follow 2 low high code bs).1 = some c) : ∃ x,
    low.toNat ≤ x ∧ x ≤ high.toNat ∧ c / 64 = code * 64 + x % 64 := by
  obtain ⟨b, rest, hlow, hhigh, h⟩ := follow_succ h
  obtain ⟨y, -, -, rfl⟩ := eq_of_follow_one h
  exact ⟨_, hlow, hhigh, by omega⟩

theorem div_of_follow_three (h : (follow 3 low high code bs).1 = some c) : ∃ x,
    low.toNat ≤ x ∧ x ≤ high.toNat ∧ c / 64 / 64 = code * 64 + x % 64 := by
  obtain ⟨b, rest, hlow, hhigh, h⟩ := follow_succ (n := 2) h
  generalize hfront : code * 64 + b.toNat % 64 = front at h
  obtain ⟨y, -, -, hdiv⟩ := div_of_follow_two h
  exact ⟨_, hlow, hhigh, by omega⟩

/-- The code of a character of two or more bytes. -/
theorem code_of_lead (hl : lead? b = some l) (htails : l.tails ≠ 0)
    (h : (follow l.tails l.low l.high l.bits bs).1 = some c) : 128 ≤ c ∧ c.isValidChar := by
  simp only [lead?, UInt8.le_iff_toNat_le, UInt8.lt_iff_toNat_lt, ← UInt8.toNat_inj,
    UInt8.reduceToNat] at hl
  simp only [Nat.isValidChar]
  -- One case for each range of first bytes; each narrows the code by the bits that it gives.
  repeat' split at hl
  all_goals cases hl
  all_goals dsimp only at h
  · contradiction
  · obtain ⟨x, -, -, rfl⟩ := eq_of_follow_one h
    omega
  iterate 3
    obtain ⟨x, hlow, hhigh, hdiv⟩ := div_of_follow_two h
    simp only [UInt8.reduceToNat] at hlow hhigh
    omega
  iterate 3
    obtain ⟨x, hlow, hhigh, hdiv⟩ := div_of_follow_three h
    simp only [UInt8.reduceToNat] at hlow hhigh
    omega

/-! ### Pieces -/

theorem go_eq (done : List (Option Char)) (bs : Bytes) : pieces.go done bs = done.reverse ++ pieces bs := by
  have hgo : ∀ (n : Nat) (done : List (Option Char)) (bs : Bytes), bs.length ≤ n →
      pieces.go done bs = done.reverse ++ pieces.go [] bs := by
    intro n
    induction n with
    | zero =>
      intro done bs hlen
      rw [List.eq_nil_of_length_eq_zero (Nat.le_zero.1 hlen), pieces.go, pieces.go]
      simp
    | succ n ih =>
      intro done bs hlen
      cases bs with
      | nil =>
        rw [pieces.go, pieces.go]
        simp
      | cons b bs =>
        rw [List.length_cons] at hlen
        rw [pieces.go, pieces.go]
        split
        · rw [ih _ bs (by omega), ih [none] bs (by omega), List.reverse_cons, List.append_assoc]
          rfl
        · next l hl =>
          have hnext := length_follow_le l.tails l.low l.high l.bits bs
          dsimp only
          rw [ih _ _ (by omega), ih [_] _ (by omega), List.reverse_cons, List.append_assoc]
          rfl
  exact hgo bs.length done bs (Nat.le_refl _)

theorem pieces_nil : pieces [] = [] := by
  rw [pieces, pieces.go]
  rfl

theorem pieces_cons (b : UInt8) (bs : Bytes) : pieces (b :: bs) =
    match lead? b with
    | none => none :: pieces bs
    | some l =>
      (follow l.tails l.low l.high l.bits bs).1.map Char.ofNat ::
        pieces (follow l.tails l.low l.high l.bits bs).2 := by
  rw [pieces, pieces.go]
  cases lead? b with
  | none => exact go_eq _ _
  | some l => exact go_eq _ _

theorem pieces_cons_of_lt (h : b.toNat < 128) (bs : Bytes) :
    pieces (b :: bs) = some (Char.ofNat b.toNat) :: pieces bs := by
  have hlead : lead? b = some { tails := 0, bits := b.toNat } := by
    rw [lead?, if_pos (UInt8.le_iff_toNat_le.2 (Nat.le_of_lt_succ h))]
  rw [pieces_cons, hlead]
  rfl

/-- The piece at the front of a string that begins with a byte of 128 or more. -/
theorem code?_of_le (h : 128 ≤ b.toNat) (bs : Bytes) : ∃ piece rest,
    pieces (b :: bs) = piece :: rest ∧ Ascii.code? (piece.getD '\uFFFD') = none := by
  rw [pieces_cons]
  split
  · exact ⟨none, _, rfl, by decide⟩
  · next l hl =>
    refine ⟨_, _, rfl, ?_⟩
    cases hc : (follow l.tails l.low l.high l.bits bs).1 with
    | none => decide
    | some c =>
      have htails : l.tails ≠ 0 := by
        intro hzero
        simp only [lead?, UInt8.le_iff_toNat_le, UInt8.reduceToNat] at hl
        repeat' split at hl
        all_goals cases hl
        all_goals first | contradiction | omega
      obtain ⟨hc, hvalid⟩ := code_of_lead hl htails hc
      have htoNat : (Char.ofNat c).toNat = c := by
        rw [Char.ofNat, dif_pos hvalid]
        rfl
      rw [Option.map_some, Option.getD_some, Ascii.code?, htoNat, if_neg (Nat.not_lt.2 hc)]

/-- The text shown for a string is ASCII text exactly if the string is, and it is the same. -/
theorem toBytes?_lossy (bs : Bytes) :
    Ascii.toBytes? (lossy bs) = if bs.all fun b => b.toNat < 128 then some bs else none := by
  rw [Ascii.toBytes?, lossy, String.toList_ofList]
  induction bs with
  | nil =>
    rw [pieces_nil]
    rfl
  | cons b bs ih =>
    by_cases hb : b.toNat < 128
    · have hcode : Ascii.code? (Char.ofNat b.toNat) = some b := by
        rw [Ascii.code?, Ascii.toNat_ofNat hb, if_pos hb, UInt8.ofNat_toNat]
      rw [pieces_cons_of_lt hb, List.map_cons, List.mapM_cons, Option.getD_some, hcode, ih, List.all_cons,
        decide_eq_true hb, Bool.true_and]
      split
      · rfl
      · rfl
    · obtain ⟨piece, rest, hpieces, hcode⟩ := code?_of_le (Nat.not_lt.1 hb) bs
      rw [hpieces, List.map_cons, List.mapM_cons, hcode, List.all_cons, decide_eq_false hb, Bool.false_and]
      rfl

/-! ### Encoding -/

theorem toList_eq_data (bytes : ByteArray) : bytes.toList = bytes.data.toList := by
  have hloop : ∀ (i : Nat) (done : Bytes),
      ByteArray.toList.loop bytes i done = done.reverse ++ bytes.data.toList.drop i := by
    intro i done
    fun_induction ByteArray.toList.loop bytes i done with
    | case1 i done hi ih =>
      have hlt : i < bytes.data.toList.length := hi
      have hget : bytes.get! i = bytes.data.toList[i] := getElem!_pos bytes.data i hi
      rw [ih, List.drop_eq_getElem_cons hlt, hget, List.reverse_cons, List.append_assoc]
      rfl
    | case2 i done hi =>
      rw [List.drop_eq_nil_of_le (Nat.not_lt.1 hi), List.append_nil]
  exact hloop 0 []

theorem encode_inj {s t : String} : encode s = encode t ↔ s = t := by
  rw [encode, encode, toList_eq_data, toList_eq_data, Array.toList_inj, ← String.toByteArray_inj]
  exact ⟨ByteArray.ext, congrArg ByteArray.data⟩

theorem encode_ofBytes (h : ∀ b ∈ bs, b.toNat < 128) : encode (Ascii.ofBytes bs) = bs := by
  have hflat : (bs.map fun b => Char.ofNat b.toNat).flatMap String.utf8EncodeChar = bs := by
    induction bs with
    | nil => rfl
    | cons b bs ih =>
      have hb : (Char.ofNat b.toNat).val.toNat = b.toNat := Ascii.toNat_ofNat (h b List.mem_cons_self)
      have hle : b.toNat ≤ 127 := Nat.le_of_lt_succ (h b List.mem_cons_self)
      rw [List.map_cons, List.flatMap_cons, ih fun b' hb' => h b' (List.mem_cons_of_mem _ hb'),
        String.utf8EncodeChar, hb, if_pos hle, UInt8.ofNat_toNat, List.singleton_append]
  rw [encode, toList_eq_data, String.toUTF8_eq_toByteArray, Ascii.ofBytes, String.toByteArray_ofList,
    List.utf8Encode, hflat, List.data_toByteArray]

end Utf8

namespace Ascii

variable {bs : Bytes}

theorem eq_map_of_mapM {cs : List Char} (h : cs.mapM code? = some bs) :
    cs = bs.map (fun b => Char.ofNat b.toNat) ∧ ∀ b ∈ bs, b.toNat < 128 := by
  induction cs generalizing bs with
  | nil =>
    cases h
    exact ⟨rfl, by simp⟩
  | cons c cs ih =>
    rw [List.mapM_cons] at h
    obtain ⟨b, hb, h⟩ := Option.bind_eq_some_iff.1 h
    obtain ⟨rest, hrest, h⟩ := Option.bind_eq_some_iff.1 h
    cases h
    obtain ⟨hcs, hlow⟩ := ih hrest
    rw [code?] at hb
    split at hb
    · next hc =>
      cases hb
      have htoNat : (UInt8.ofNat c.toNat).toNat = c.toNat := by
        rw [UInt8.toNat_ofNat']
        omega
      rw [List.map_cons, htoNat, Char.ofNat_toNat, ← hcs, List.forall_mem_cons, htoNat]
      exact ⟨rfl, hc, hlow⟩
    · contradiction

/-- Text that has a form in bytes is the text of these bytes. -/
theorem eq_ofBytes {s : String} (h : toBytes? s = some bs) : s = ofBytes bs ∧ ∀ b ∈ bs, b.toNat < 128 := by
  obtain ⟨hs, hlow⟩ := eq_map_of_mapM h
  exact ⟨by rw [ofBytes, ← hs, String.ofList_toList], hlow⟩

end Ascii

end KeyedStore
