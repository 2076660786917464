import KeyedStore.Item.Basic

/-!
# Parts of items

A buffer whose layout can be read is put together from a header, a key, a separator, a suffix, data and
whatever stands behind them, and the header states the lengths of the parts. What is read of such a buffer
are its parts, and a value that is written replaces the data and nothing else.
-/

namespace KeyedStore

open Bytes

variable {bs value : Bytes} {header : Header} {err : Error}

/-- A string that is long enough begins with a string of a given length. -/
theorem Bytes.exists_append {n : Nat} (h : n ≤ bs.length) :
    ∃ front back, bs = front ++ back ∧ front.length = n :=
  ⟨bs.take n, bs.drop n, (List.take_append_drop n bs).symm, List.length_take_of_le h⟩

/-! ### Headers and layouts -/

namespace Header

/-- A header whose lengths are all in their ranges. -/
structure Valid (h : Header) : Prop where
  data : terminator.length ≤ h.dataLength.toNat
  key : h.keyLength.toNat ≤ maxKeyLength
  suffix : h.suffixLength.toNat ≤ maxSuffixLength

theorem decode_encode_append (hv : header.Valid) (rest : Bytes) :
    decode (header.encode ++ rest) = .ok header := by
  have hdata : ofLE (le 4 header.dataLength.toNat) = header.dataLength.toNat :=
    ofLE_le (toNat_lt_bound_four _)
  have hkey : ofLE (le 2 header.keyLength.toNat) = header.keyLength.toNat :=
    ofLE_le header.keyLength.toNat_lt
  simp only [le] at hdata hkey
  simp only [encode, le, List.cons_append, List.nil_append, decode, hdata, hkey,
    ne_eq, not_true_eq_false, if_false, if_neg (Nat.not_lt.2 hv.data), if_neg (Nat.not_lt.2 hv.key),
    if_neg (Nat.not_lt.2 hv.suffix), UInt32.ofNat_toNat, UInt16.ofNat_toNat]

/-- A header is read from a buffer exactly if its written form is in front and its lengths are in their
ranges. -/
theorem decode_eq_ok_iff : decode bs = .ok header ↔ header.Valid ∧ header.encode <+: bs := by
  constructor
  · intro h
    rw [decode.eq_def] at h
    split at h
    · next d0 d1 d2 d3 k0 k1 suffixLength mark rest =>
      have hdata := ofLE_lt [d0, d1, d2, d3]
      have hkey := ofLE_lt [k0, k1]
      have hdata' : le 4 (ofLE [d0, d1, d2, d3]) = [d0, d1, d2, d3] := le_ofLE [d0, d1, d2, d3]
      have hkey' : le 2 (ofLE [k0, k1]) = [k0, k1] := le_ofLE [k0, k1]
      dsimp only at h
      split at h
      · contradiction
      · next hmark =>
        split at h
        · contradiction
        · next hdataLength =>
          split at h
          · contradiction
          · next hkeyLength =>
            split at h
            · contradiction
            · next hsuffixLength =>
              cases h
              refine ⟨⟨?_, ?_, Nat.not_lt.1 hsuffixLength⟩, rest, ?_⟩
              · rw [UInt32.toNat_ofNat_of_lt' hdata]
                exact Nat.not_lt.1 hdataLength
              · rw [UInt16.toNat_ofNat_of_lt' hkey]
                exact Nat.not_lt.1 hkeyLength
              · rw [encode, UInt32.toNat_ofNat_of_lt' hdata, UInt16.toNat_ofNat_of_lt' hkey, hdata', hkey',
                  ← Decidable.not_not.1 hmark]
                rfl
    · contradiction
  · rintro ⟨hv, rest, rfl⟩
    exact decode_encode_append hv rest

theorem malformed_of_decode (h : decode bs = .error err) : ∃ fault, err = .malformedItem fault := by
  rw [decode.eq_def] at h
  split at h
  · dsimp only at h
    repeat' split at h
    all_goals cases h
    all_goals exact ⟨_, rfl⟩
  · cases h
    exact ⟨_, rfl⟩

end Header

namespace Layout

variable {buffer : Bytes} {layout : Layout}

theorem parse_eq_ok :
    parse buffer = .ok layout ↔ Header.decode buffer = .ok layout.header ∧ layout.total ≤ buffer.length := by
  rw [parse]
  cases hd : Header.decode buffer with
  | error e => simp [bind, Except.bind]
  | ok header =>
    simp only [bind, Except.bind]
    by_cases hfits : header.total > buffer.length
    · rw [if_pos hfits]
      constructor
      · intro h
        contradiction
      · rintro ⟨⟨⟩, htotal⟩
        exact absurd htotal (Nat.not_le.2 hfits)
    · rw [if_neg hfits]
      constructor
      · rintro ⟨⟩
        exact ⟨rfl, Nat.not_lt.1 hfits⟩
      · rintro ⟨⟨⟩, -⟩
        rfl

theorem malformed_of_parse (h : parse buffer = .error err) : ∃ fault, err = .malformedItem fault := by
  rw [parse] at h
  cases hd : Header.decode buffer with
  | error e' =>
    rw [hd] at h
    cases h
    exact Header.malformed_of_decode hd
  | ok header =>
    simp only [hd, bind, Except.bind] at h
    split at h
    · cases h
      exact ⟨_, rfl⟩
    · contradiction

end Layout

namespace Span

variable {span : Span} {part : Bytes}

/-- The span is where a string has these bytes. -/
def Covers (span : Span) (part bs : Bytes) : Prop :=
  ∃ front rest, bs = front ++ (part ++ rest) ∧
    span = { start := front.length, stop := front.length + part.length }

namespace Covers

variable (h : span.Covers part bs)

include h

theorem slice_eq : span.slice bs = part := by
  obtain ⟨front, rest, rfl, rfl⟩ := h
  simp [slice]

theorem length_eq : span.length = part.length := by
  obtain ⟨front, rest, rfl, rfl⟩ := h
  exact Nat.add_sub_cancel_left _ _

theorem inside : span.start ≤ span.stop ∧ span.stop ≤ bs.length := by
  obtain ⟨front, rest, rfl, rfl⟩ := h
  refine ⟨Nat.le_add_right _ _, ?_⟩
  rw [List.length_append, List.length_append, ← Nat.add_assoc]
  exact Nat.le_add_right _ _

end Covers

theorem replace_append (front old new rest : Bytes) :
    replace { start := front.length, stop := front.length + old.length } new (front ++ (old ++ rest)) =
      front ++ (new ++ rest) := by
  simp [replace]

end Span

/-! ### Items by their parts -/

namespace Item

/-- The parts of a buffer that holds an item, and what stands behind the item. -/
structure Parts where
  header : Header
  key : Bytes
  separator : UInt8
  suffix : Bytes
  data : Bytes
  rest : Bytes
  valid : header.Valid
  length_key : key.length = header.keyLength.toNat
  length_suffix : suffix.length = header.suffixLength.toNat
  length_data : data.length = header.dataLength.toNat

namespace Parts

/-- What stands in front of the data. -/
def front (p : Parts) : Bytes := p.header.encode ++ (p.key ++ (p.separator :: p.suffix))

/-- The parts one behind the other. -/
def item (p : Parts) : Item := { buffer := p.front ++ (p.data ++ p.rest) }

def layout (p : Parts) : Layout := { header := p.header }

/-- The same parts with other data of the same length. -/
def withData (p : Parts) (data : Bytes) (h : data.length = p.data.length) : Parts :=
  { p with data, length_data := h.trans p.length_data }

variable (p : Parts)

theorem length_front : p.front.length = Header.size + (p.key.length + 1) + p.suffix.length := by
  simp only [front, List.length_append, Header.length_encode, List.length_cons]
  omega

theorem total_eq : p.layout.total = p.front.length + p.data.length := by
  rw [length_front, p.length_key, p.length_suffix, p.length_data]
  rfl

theorem covers_key : p.layout.key.Covers p.key p.item.buffer := by
  refine ⟨p.header.encode, p.separator :: (p.suffix ++ (p.data ++ p.rest)), ?_, ?_⟩
  · simp only [item, front, List.append_assoc, List.cons_append]
  · rw [Header.length_encode, p.length_key]
    rfl

theorem covers_suffix : p.layout.suffix.Covers p.suffix p.item.buffer := by
  refine ⟨p.header.encode ++ (p.key ++ [p.separator]), p.data ++ p.rest, ?_, ?_⟩
  · simp only [item, front, List.append_assoc, List.cons_append, List.nil_append]
  · simp only [List.length_append, Header.length_encode, List.length_singleton, ← Nat.add_assoc,
      p.length_key, p.length_suffix]
    rfl

theorem data_span : p.layout.data =
    { start := p.front.length, stop := p.front.length + p.data.length } := by
  rw [length_front, ← Nat.add_assoc, p.length_key, p.length_suffix, p.length_data]
  rfl

theorem covers_data : p.layout.data.Covers p.data p.item.buffer := ⟨p.front, p.rest, rfl, p.data_span⟩

theorem covers_whole :
    Span.Covers { start := 0, stop := p.layout.total } (p.front ++ p.data) p.item.buffer := by
  refine ⟨[], p.rest, ?_, ?_⟩
  · rw [item, List.nil_append, List.append_assoc]
  · rw [total_eq, List.length_append, List.length_nil, Nat.zero_add]

/-! ### What is read -/

theorem layout_item : p.item.layout = .ok p.layout := by
  have hdecode : Header.decode p.item.buffer = .ok p.header := by
    rw [item, front, List.append_assoc]
    exact Header.decode_encode_append p.valid _
  exact Layout.parse_eq_ok.2 ⟨hdecode, p.covers_whole.inside.2⟩

theorem total_item : p.item.total = .ok p.layout.total := by
  rw [Item.total, layout_item]
  rfl

theorem key_item : p.item.key = .ok p.key := by
  rw [Item.key, layout_item, ← p.covers_key.slice_eq]
  rfl

theorem suffix_item : p.item.suffix = .ok p.suffix := by
  rw [Item.suffix, layout_item, ← p.covers_suffix.slice_eq]
  rfl

theorem data_item : p.item.data = .ok p.data := by
  rw [Item.data, layout_item, ← p.covers_data.slice_eq]
  rfl

theorem value_item : p.item.value = .ok (p.data.take (p.data.length - Header.terminator.length)) := by
  rw [Item.value, data_item]
  rfl

theorem bytes_item : p.item.bytes = .ok (p.front ++ p.data) := by
  rw [Item.bytes, total_item, ← p.covers_whole.slice_eq]
  rfl

/-! ### What is written -/

/-- A value of the right length takes the place of the data. -/
theorem setValue_item (h : (value ++ Header.terminator).length = p.data.length) :
    p.item.setValue value = .ok (p.withData (value ++ Header.terminator) h).item := by
  have hreplace := Span.replace_append p.front p.data (value ++ Header.terminator) p.rest
  rw [← data_span] at hreplace
  have hwritten : ({ buffer := p.layout.data.replace (value ++ Header.terminator) p.item.buffer } : Item) =
      (p.withData (value ++ Header.terminator) h).item := congrArg Item.mk hreplace
  have hlength : p.layout.data.length = value.length + Header.terminator.length := by
    rw [p.covers_data.length_eq, ← h, List.length_append]
  rw [setValue, layout_item, ← hwritten]
  exact if_neg (not_not_intro hlength)

end Parts

variable {item : Item} {layout : Layout}

theorem bytes_of_layout (h : item.layout = .ok layout) : item.bytes = .ok (item.buffer.take layout.total) := by
  rw [bytes, total, h]
  rfl

/-- A layout is read exactly of a buffer that has the parts which the layout describes. -/
theorem layout_eq_ok_iff : item.layout = .ok layout ↔ ∃ p : Parts, item = p.item ∧ layout = p.layout := by
  constructor
  · intro h
    obtain ⟨buffer⟩ := item
    obtain ⟨hdecode, htotal⟩ := Layout.parse_eq_ok.1 h
    obtain ⟨hv, body, hbody⟩ := Header.decode_eq_ok_iff.1 hdecode
    dsimp only at hbody
    subst hbody
    rw [Layout.total, Header.total, List.length_append, Header.length_encode] at htotal
    -- The parts are cut off the front of what stands behind the header, one after the other.
    obtain ⟨key, body, rfl, hkey⟩ := exists_append (show layout.header.keyLength.toNat ≤ body.length by omega)
    rw [List.length_append] at htotal
    obtain ⟨separator, body, rfl⟩ : ∃ separator back, body = separator :: back :=
      List.exists_cons_of_length_pos (by omega)
    rw [List.length_cons] at htotal
    obtain ⟨suffix, body, rfl, hsuffix⟩ :=
      exists_append (show layout.header.suffixLength.toNat ≤ body.length by omega)
    rw [List.length_append] at htotal
    obtain ⟨data, rest, rfl, hdata⟩ :=
      exists_append (show layout.header.dataLength.toNat ≤ body.length by omega)
    refine ⟨⟨layout.header, key, separator, suffix, data, rest, hv, hkey, hsuffix, hdata⟩, ?_, rfl⟩
    simp only [Parts.item, Parts.front, List.append_assoc, List.cons_append]
  · rintro ⟨p, rfl, rfl⟩
    exact p.layout_item

end Item

end KeyedStore
