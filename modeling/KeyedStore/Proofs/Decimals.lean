import KeyedStore.Text.Decimal

/-!
# Reading decimal numbers back

The digits of a number, with any number of zeros in front, are read back as that number, as long as
it is below the bound of the reader. Apart from a plus sign in front of them these are the only texts that are
read as the number.
-/

namespace KeyedStore.Decimal

variable {n m bound w : Nat} {b : UInt8} {bs text : Bytes}

theorem mem_encode (n : Nat) : ∀ b ∈ encode n, 48 ≤ b.toNat ∧ b.toNat ≤ 57 := by
  induction n using encode.induct with
  | case1 n hn =>
    intro b hb
    rw [encode, if_pos hn, List.mem_singleton] at hb
    subst b
    rw [UInt8.toNat_ofNat']
    omega
  | case2 n hn ih =>
    intro b hb
    rw [encode, if_neg hn, List.mem_append, List.mem_singleton] at hb
    rcases hb with hb | rfl
    · exact ih b hb
    · rw [UInt8.toNat_ofNat']
      omega

theorem mem_padded (w n : Nat) : ∀ b ∈ padded w n, 48 ≤ b.toNat ∧ b.toNat ≤ 57 := by
  intro b hb
  rw [padded, List.mem_append] at hb
  rcases hb with hb | hb
  · rw [List.eq_of_mem_replicate hb]
    decide
  · exact mem_encode n b hb

theorem encode_ne_nil (n : Nat) : encode n ≠ [] := by
  rw [encode]
  split <;> simp

theorem length_encode_le (h : n < Nat.repeat (10 * ·) (w + 1) 1) : (encode n).length ≤ w + 1 := by
  induction n using encode.induct generalizing w with
  | case1 n hlt =>
    rw [encode, if_pos hlt, List.length_singleton]
    omega
  | case2 n hge ih =>
    rw [encode, if_neg hge, List.length_append, List.length_singleton]
    cases w with
    | zero =>
      simp only [Nat.repeat] at h
      omega
    | succ w =>
      have := ih (w := w) (by rw [Nat.repeat] at h; omega)
      omega

theorem readDigits?_cons (m : Nat) {k : Nat} (hk : k < 10) (h : 10 * m + k < bound) (rest : Bytes) :
    readDigits? bound m (UInt8.ofNat (48 + k) :: rest) = readDigits? bound (10 * m + k) rest := by
  have htoNat : (UInt8.ofNat (48 + k)).toNat = 48 + k := by
    rw [UInt8.toNat_ofNat']
    omega
  have hdigit : 48 ≤ UInt8.ofNat (48 + k) ∧ UInt8.ofNat (48 + k) ≤ 57 := by
    rw [UInt8.le_iff_toNat_le, UInt8.le_iff_toNat_le, htoNat]
    exact ⟨Nat.le_add_right 48 k, by change 48 + k ≤ 57; omega⟩
  rw [readDigits?, if_pos hdigit, htoNat, Nat.add_sub_cancel_left]
  exact if_pos h

theorem readDigits?_encode_append (h : n < bound) (rest : Bytes) :
    readDigits? bound 0 (encode n ++ rest) = readDigits? bound n rest := by
  induction n using encode.induct generalizing rest with
  | case1 n hlt =>
    rw [encode, if_pos hlt, List.singleton_append, readDigits?_cons 0 hlt (by omega)]
    simp
  | case2 n hge ih =>
    rw [encode, if_neg hge, List.append_assoc, ih (by omega), List.singleton_append,
      readDigits?_cons (n / 10) (Nat.mod_lt n (by omega)) (by omega), Nat.div_add_mod]

theorem readDigits?_zeros_append (h : 0 < bound) (k : Nat) (rest : Bytes) :
    readDigits? bound 0 (List.replicate k 48 ++ rest) = readDigits? bound 0 rest := by
  induction k with
  | zero => rfl
  | succ k ih =>
    rw [List.replicate_succ, List.cons_append, ← ih]
    exact readDigits?_cons 0 (show 0 < 10 by omega) (by omega) (List.replicate k 48 ++ rest)

theorem padded_ne_nil (w n : Nat) : padded w n ≠ [] :=
  List.append_ne_nil_of_right_ne_nil _ (encode_ne_nil n)

theorem readDigits?_padded (w : Nat) (h : n < bound) : readDigits? bound 0 (padded w n) = some n := by
  rw [padded, readDigits?_zeros_append (by omega), ← List.append_nil (encode n),
    readDigits?_encode_append h, readDigits?]

theorem decode?_padded (w : Nat) (h : n < bound) : decode? bound (padded w n) = some n := by
  have hread := readDigits?_padded w h
  have hmem := mem_padded w n
  cases hp : padded w n with
  | nil => exact absurd hp (padded_ne_nil w n)
  | cons b bs =>
    rw [hp] at hread hmem
    have hb : b ≠ 43 := by
      rintro rfl
      have := (hmem 43 List.mem_cons_self).1
      contradiction
    rw [← hread, decode?]
    intro _ _ he
    exact absurd he hb

/-- A number is read back from its digits. -/
theorem decode?_encode (h : n < bound) : decode? bound (encode n) = some n := by
  have hp := decode?_padded 0 h
  rwa [padded, Nat.zero_sub, List.replicate_zero, List.nil_append] at hp

/-! ### Spellings -/

/-- A text that a reader takes for a number: its digits, filled up with zeros, and perhaps a plus sign in
front of them. -/
def Spells (n : Nat) (text : Bytes) : Prop := ∃ w, text = padded w n ∨ text = 43 :: padded w n

theorem spells_padded (w n : Nat) : Spells n (padded w n) := ⟨w, Or.inl rfl⟩

theorem padded_add (n zeros : Nat) :
    padded ((encode n).length + zeros) n = List.replicate zeros 48 ++ encode n := by
  rw [padded, Nat.add_sub_cancel_left]

theorem Spells.length_le (h : Spells n text) : (encode n).length ≤ text.length := by
  obtain ⟨w, rfl | rfl⟩ := h
  · rw [padded, List.length_append]
    omega
  · rw [List.length_cons, padded, List.length_append]
    omega

theorem Spells.ne_nil (h : Spells n text) : text ≠ [] := by
  have hpos := List.length_pos_iff.2 (encode_ne_nil n)
  exact List.length_pos_iff.1 (Nat.lt_of_lt_of_le hpos h.length_le)

theorem Spells.mem (h : Spells n text) : ∀ b ∈ text, 43 ≤ b.toNat ∧ b.toNat ≤ 57 := by
  intro b hb
  obtain ⟨w, rfl | rfl⟩ := h
  · have := mem_padded w n b hb
    omega
  · rcases List.mem_cons.1 hb with rfl | hb
    · decide
    · have := mem_padded w n b hb
      omega

/-- One more digit has been read. -/
theorem readDigits?_cons_eq_some (h : readDigits? bound m (b :: bs) = some n) :
    ∃ k < 10, b = UInt8.ofNat (48 + k) ∧ 10 * m + k < bound ∧ readDigits? bound (10 * m + k) bs = some n := by
  rw [readDigits?] at h
  split at h
  · next hdigit =>
    rw [UInt8.le_iff_toNat_le, UInt8.le_iff_toNat_le] at hdigit
    have hlow : 48 ≤ b.toNat := hdigit.1
    have hhigh : b.toNat ≤ 57 := hdigit.2
    dsimp only at h
    split at h
    · next hlt =>
      refine ⟨b.toNat - 48, by omega, ?_, hlt, h⟩
      rw [Nat.add_sub_cancel' hlow, UInt8.ofNat_toNat]
    · contradiction
  · contradiction

theorem encode_concat {k : Nat} (hm : 0 < m) (hk : k < 10) :
    encode (10 * m + k) = encode m ++ [UInt8.ofNat (48 + k)] := by
  rw [encode, if_neg (by omega)]
  have hdiv : (10 * m + k) / 10 = m := by omega
  have hmod : (10 * m + k) % 10 = k := by omega
  rw [hdiv, hmod]

/-- Digits that are read behind those of a number continue them. -/
theorem encode_append_eq (hm : 0 < m) (h : readDigits? bound m bs = some n) :
    encode m ++ bs = encode n := by
  induction bs generalizing m with
  | nil =>
    rw [readDigits?, Option.some.injEq] at h
    rw [h, List.append_nil]
  | cons b bs ih =>
    obtain ⟨k, hk, rfl, -, hrest⟩ := readDigits?_cons_eq_some h
    rw [← ih (by omega) hrest, encode_concat hm hk, List.append_assoc, List.singleton_append]

theorem eq_padded (hne : bs ≠ []) (h : readDigits? bound 0 bs = some n) : ∃ w, bs = padded w n := by
  induction bs with
  | nil => contradiction
  | cons b bs ih =>
    obtain ⟨k, hk, rfl, -, hrest⟩ := readDigits?_cons_eq_some h
    rw [Nat.mul_zero, Nat.zero_add] at hrest
    by_cases hzero : k = 0
    · subst hzero
      cases bs with
      | nil =>
        rw [readDigits?, Option.some.injEq] at hrest
        subst hrest
        exact ⟨0, by rw [padded, encode]; rfl⟩
      | cons b' bs =>
        obtain ⟨w, hbs⟩ := ih (List.cons_ne_nil _ _) hrest
        refine ⟨(encode n).length + (w - (encode n).length + 1), ?_⟩
        rw [hbs, padded_add, padded]
        rfl
    · refine ⟨0, ?_⟩
      rw [padded, Nat.zero_sub, List.replicate_zero, List.nil_append,
        ← encode_append_eq (Nat.pos_of_ne_zero hzero) hrest, encode, if_pos hk]
      rfl

theorem lt_of_readDigits? (hne : bs ≠ []) (h : readDigits? bound m bs = some n) : n < bound := by
  induction bs generalizing m with
  | nil => contradiction
  | cons b bs ih =>
    obtain ⟨k, -, -, hlt, hrest⟩ := readDigits?_cons_eq_some h
    cases bs with
    | nil =>
      rw [readDigits?, Option.some.injEq] at hrest
      rwa [← hrest]
    | cons b' bs => exact ih (List.cons_ne_nil _ _) hrest

/-- A text is read as a number exactly if it is a spelling of it and the number is below the bound. -/
theorem decode?_eq_some_iff : decode? bound text = some n ↔ n < bound ∧ Spells n text := by
  constructor
  · intro h
    have hread : ∀ bs : Bytes, bs ≠ [] → readDigits? bound 0 bs = some n →
        n < bound ∧ ∃ w, bs = padded w n :=
      fun bs hne hr => ⟨lt_of_readDigits? hne hr, eq_padded hne hr⟩
    rw [decode?.eq_def] at h
    split at h
    · obtain ⟨hlt, w, hbs⟩ := hread _ (List.cons_ne_nil _ _) h
      exact ⟨hlt, w, Or.inr (by rw [hbs])⟩
    · obtain ⟨hlt, w, hbs⟩ := hread _ (List.cons_ne_nil _ _) h
      exact ⟨hlt, w, Or.inl hbs⟩
    · contradiction
  · rintro ⟨hlt, w, rfl | rfl⟩
    · exact decode?_padded w hlt
    · obtain ⟨b, bs, hbs⟩ := List.exists_cons_of_ne_nil (padded_ne_nil w n)
      rw [hbs, decode?, ← hbs, readDigits?_padded w hlt]

end KeyedStore.Decimal
