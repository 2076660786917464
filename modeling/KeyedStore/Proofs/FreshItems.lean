import KeyedStore.Proofs.PoolReturns

/-!
# Fresh items

A fresh item is given its value in place. Its buffer may hold anything behind the suffix, but the value
and the terminator cover all of that which belongs to the item: its bytes are those of its parts, one
after the other, and each part is read back from them. A value of another length is refused, and then the
buffer is not touched; and where a key or a length is refused, no buffer is taken.
-/

namespace KeyedStore

variable {key value : Bytes} {flags : UInt32} {n : Nat}

/-! ### Writing a value in place -/

namespace Span

/-- Two runs of bytes that follow one another can be replaced one at a time. -/
theorem replace_append_eq {start mid stop : Nat} {front back bs : Bytes} (hstart : start ≤ bs.length)
    (hfront : mid = start + front.length) (hstop : mid ≤ stop) :
    replace { start, stop } (front ++ back) bs =
      replace { start := mid, stop } back (replace { start, stop := mid } front bs) := by
  have hhead : (bs.take start ++ front).length = mid := by
    rw [List.length_append, List.length_take_of_le hstart, hfront]
  have htake : (bs.take start ++ front ++ bs.drop mid).take mid = bs.take start ++ front :=
    List.take_left' hhead
  have hdrop : (bs.take start ++ front ++ bs.drop mid).drop stop = bs.drop stop := by
    obtain ⟨k, rfl⟩ := Nat.exists_eq_add_of_le hstop
    rw [← List.drop_drop, List.drop_left' hhead, List.drop_drop]
  rw [replace, replace, replace, htake, hdrop]
  simp only [List.append_assoc]

end Span

namespace Item

variable {item : Item} {layout : Layout}

/-- Puts bytes in the place of those inside the span. -/
def put (span : Span) (new : Bytes) (item : Item) : Item := { buffer := span.replace new item.buffer }

/-- Writes a value into the buffer of an item, and then its terminator. -/
def writeValue (value : Bytes) : EStateM Error Item Unit := do
  let span := (← liftResult (← get).layout).data
  if span.length ≠ value.length + Header.terminator.length then
    throw (.valueLength (value.length + Header.terminator.length))
  let mid := span.start + value.length
  modify (put { start := span.start, stop := mid } value)
  modify (put { start := mid, stop := span.stop } Header.terminator)

theorem setValue_of_error {e : Error} (h : item.layout = .error e) : item.setValue value = .error e := by
  rw [setValue, h]
  rfl

theorem setValue_of_ne (h : item.layout = .ok layout)
    (hne : layout.data.length ≠ value.length + Header.terminator.length) :
    item.setValue value = .error (.valueLength (value.length + Header.terminator.length)) := by
  rw [setValue, h]
  exact if_pos hne

theorem setValue_of_eq (h : item.layout = .ok layout)
    (heq : layout.data.length = value.length + Header.terminator.length) :
    item.setValue value = .ok (item.put layout.data (value ++ Header.terminator)) := by
  rw [setValue, h]
  exact if_neg (Decidable.not_not.2 heq)

theorem put_append {front back : Bytes} (h : item.layout = .ok layout)
    (hlength : layout.data.length = front.length + back.length) :
    item.put layout.data (front ++ back) =
      (item.put { start := layout.data.start, stop := layout.data.start + front.length } front).put
        { start := layout.data.start + front.length, stop := layout.data.stop } back := by
  have htotal := (Layout.parse_eq_ok.1 h).2
  have hstart : layout.data.start ≤ item.buffer.length := by
    apply Nat.le_trans _ htotal
    simp only [Layout.data, Layout.suffix, Layout.key, Layout.total, Header.total]
    omega
  have hdata : layout.data.stop = layout.data.start + layout.data.length :=
    (Nat.add_sub_cancel' (Nat.le_add_right _ _)).symm
  have hstop : layout.data.start + front.length ≤ layout.data.stop := by
    rw [hdata, hlength]
    omega
  rw [put, put, put, ← Span.replace_append_eq hstart rfl hstop]

/-- A value that is written in place gives the item that it gives at once, and one that is refused leaves
the item as it was. -/
theorem writeValue_eq (value : Bytes) (item : Item) :
    writeValue value item = match item.setValue value with
      | .ok item' => .ok () item'
      | .error e => .error e item := by
  cases hlayout : item.layout with
  | error e =>
    rw [writeValue, get_bind, bind_of_error (liftResult_of_error hlayout item), setValue_of_error hlayout]
  | ok layout =>
    rw [writeValue, get_bind, bind_of_ok (liftResult_of_ok hlayout item)]
    by_cases hlength : layout.data.length = value.length + Header.terminator.length
    · rw [setValue_of_eq hlayout hlength, put_append hlayout hlength]
      exact congrFun (if_neg (Decidable.not_not.2 hlength)) item
    · rw [setValue_of_ne hlayout hlength]
      exact congrFun (if_pos hlength) item

theorem Fits.writeValue_front (hf : Fits key value.length) (flags : UInt32) {rest : Bytes}
    (hroom : value.length + Header.terminator.length ≤ rest.length) :
    writeValue value { buffer := front key flags value.length ++ rest } =
      .ok () { buffer := image key flags value ++ rest.drop (value.length + Header.terminator.length) } := by
  rw [writeValue_eq, hf.setValue_front flags rest hroom]

/-- A value of another length than the header states is refused. -/
theorem Fits.writeValue_of_ne (hf : Fits key n) (hlayout : item.layout = .ok ⟨headerOf key flags n⟩)
    (hne : value.length ≠ n) :
    writeValue value item = .error (.valueLength (value.length + Header.terminator.length)) item := by
  have hlength : (Layout.data ⟨headerOf key flags n⟩).length ≠
      value.length + Header.terminator.length := by
    rw [hf.data_eq, Span.length, Nat.add_sub_cancel_left]
    exact fun h => hne (Nat.add_right_cancel h).symm
  rw [writeValue_eq, setValue_of_ne hlayout hlength]

/-! ### Items with a value -/

/-- What an item is that was made for a key, flags and a value: its bytes are its parts one after the
other, each part is read back, no value of another length is taken, and the bytes are an item of
their own. -/
structure Holds (key : Bytes) (flags : UInt32) (value : Bytes) (item : Item) : Prop where
  bytes_eq : ∃ header : Header,
    header.dataLength.toNat = value.length + Header.terminator.length ∧
    header.keyLength.toNat = key.length ∧
    header.suffixLength.toNat = (Suffix.line flags value.length).length ∧
    item.bytes = .ok (header.encode ++ key ++ 0 :: Suffix.line flags value.length ++
      (value ++ Header.terminator))
  key_eq : item.key = .ok key
  flags_eq : item.flags = .ok flags
  value_eq : item.value = .ok value
  fixed : ∀ other : Bytes, other.length ≠ value.length →
    writeValue other item = .error (.valueLength (other.length + Header.terminator.length)) item
  alone : ∀ bytes, item.bytes = .ok bytes → Item.total { buffer := bytes } = .ok bytes.length

theorem Fits.holds_image (hf : Fits key value.length) (flags : UInt32) (rest : Bytes) :
    Holds key flags value { buffer := image key flags value ++ rest } where
  bytes_eq := ⟨headerOf key flags value.length, hf.toNat_dataLength flags, hf.toNat_keyLength flags,
    hf.toNat_suffixLength flags, hf.bytes_image flags rest⟩
  key_eq := hf.key_image flags rest
  flags_eq := hf.flags_image flags rest
  value_eq := hf.value_image flags rest
  fixed _ hne := hf.writeValue_of_ne (hf.layout_image flags rest) hne
  alone bytes h := by
    rw [hf.bytes_image flags rest] at h
    cases h
    have hlayout := hf.layout_image flags []
    rw [List.append_nil] at hlayout
    rw [Item.total, hlayout, ← hf.total_image flags]
    rfl

end Item

namespace Pool

variable {p : Pool}

/-- The size of a buffer for an item: that of the pool's buffers, or that of the item if it is larger. -/
def bufferFor (p : Pool) (total : Nat) : Nat := if total ≤ p.bufferSize then p.bufferSize else total

theorem bufferFor_eq (p : Pool) (total : Nat) : p.bufferFor total = max total p.bufferSize := by
  rw [bufferFor]
  split <;> omega

theorem allocFresh_of_refused (h : Header.maxKeyLength < key.length ∨ n < Header.terminator.length ∨
    Bytes.bound 4 ≤ n) (flags : UInt32) (p : Pool) :
    Pool.allocFresh key flags n p = .error
      (if Header.maxKeyLength < key.length then .keyTooLong key.length else .valueLength n) p := by
  apply allocFresh_of_error
  rw [Header.compute]
  by_cases hkey : Header.maxKeyLength < key.length
  · rw [if_pos hkey, if_pos hkey]
  · rw [if_neg hkey, if_neg hkey, if_pos (h.resolve_left hkey)]

/-- Whatever a buffer held before, an item that is made in it holds its key, its flags and its value and
nothing else; and where a key or a length is refused, the pool is left as it was. -/
theorem Uniform.fresh_item_holds (hp : p.Uniform) (key : Bytes) (flags : UInt32) :
    (∀ value, Item.Fits key value.length → ∃ fresh p' item total,
      Pool.allocFresh key flags (value.length + Header.terminator.length) p = .ok fresh p' ∧
      Item.writeValue value fresh = .ok () item ∧ item.Holds key flags value ∧
      item.total = .ok total ∧ item.capacity = p.bufferFor total ∧
      ∀ other : Bytes, other.length ≠ value.length → Item.writeValue other fresh =
        .error (.valueLength (other.length + Header.terminator.length)) fresh) ∧
    ∀ n, (Header.maxKeyLength < key.length ∨ n < Header.terminator.length ∨ Bytes.bound 4 ≤ n) →
      Pool.allocFresh key flags n p = .error
        (if Header.maxKeyLength < key.length then .keyTooLong key.length else .valueLength n) p := by
  refine ⟨?_, fun n h => allocFresh_of_refused h flags p⟩
  intro value hf
  obtain ⟨rest, p', halloc, hlength, hroom, -⟩ := hp.allocFresh hf flags
  refine ⟨_, p', _, (Item.headerOf key flags value.length).total, halloc,
    hf.writeValue_front flags hroom, hf.holds_image flags _, ?_, ?_, ?_⟩
  · rw [Item.total, hf.layout_image flags]
    rfl
  · rw [bufferFor_eq, ← hlength, Item.capacity, List.length_append, Item.length_image, List.length_drop]
    omega
  · intro other hne
    exact hf.writeValue_of_ne (hf.layout_eq flags hroom) hne

/-- An item in a recycled buffer, a value that is too short for it, and one without its line end. -/
theorem Uniform.fresh_item_holds_of_recycled :
    let p : Pool :=
      { bufferSize := 24, buffers := [List.replicate 24 255], size := 1, capacity := 1, ceiling := 1 }
    p.Uniform ∧ Item.Fits [97] [118].length ∧
      (∃ fresh p' item, Pool.allocFresh [97] 7 3 p = .ok fresh p' ∧
        Item.writeValue [118] fresh = .ok () item ∧ item.Holds [97] 7 [118] ∧
        Item.writeValue [] fresh = .error (.valueLength 2) fresh) ∧
      Pool.allocFresh [97] 7 1 p = .error (.valueLength 1) p := by
  intro p
  have hp : p.Uniform := uniform_of_default rfl (by simp [p]) (by decide)
  have hf : Item.Fits [97] [118].length := ⟨by decide, by decide⟩
  obtain ⟨hheld, hrefused⟩ := hp.fresh_item_holds [97] 7
  obtain ⟨fresh, p', item, total, halloc, hwrite, hitem, -, -, hother⟩ := hheld [118] hf
  exact ⟨hp, hf, ⟨fresh, p', item, halloc, hwrite, hitem, hother [] (by decide)⟩,
    hrefused 1 (Or.inr (Or.inl (by decide)))⟩

end Pool

end KeyedStore
