import KeyedStore.Proofs.CheckedSteps
import KeyedStore.Proofs.FreshItems

/-!
# Access to items

A buffer may hold anything. Either its header describes an item that is all there, and then the parts of
the item lie one behind the other inside of the buffer and a value that is written stays where the data
was; or every access is refused for the same reason, and nothing is written. No access reaches past the
buffer: it comes to the same as one that checks every place before it goes there.
-/

namespace KeyedStore

open Bytes

variable {value : Bytes} {err : Error}

/-! ### Buffers with a layout -/

namespace Header

/-- What the front of a buffer states as the length of the data. -/
def dataField (buffer : Bytes) : Nat := ofLE (buffer.take 4)

/-- What the front of a buffer states as the length of the key. -/
def keyField (buffer : Bytes) : Nat := ofLE ((buffer.drop 4).take 2)

/-- What the front of a buffer states as the length of the suffix. -/
def suffixField (buffer : Bytes) : Nat := ofLE ((buffer.drop 6).take 1)

section

variable (header : Header) (rest : Bytes)

theorem dataField_append : dataField (header.encode ++ rest) = header.dataLength.toNat :=
  ofLE_le (toNat_lt_bound_four _)

theorem keyField_append : keyField (header.encode ++ rest) = header.keyLength.toNat := by
  have hkey : ofLE (le 2 header.keyLength.toNat) = header.keyLength.toNat :=
    ofLE_le header.keyLength.toNat_lt
  exact hkey

theorem suffixField_append : suffixField (header.encode ++ rest) = header.suffixLength.toNat :=
  Nat.add_zero _

theorem mark_append : (header.encode ++ rest)[7]? = some magic := rfl

end

/-- Every eight bytes of which the last is the mark are the written form of a header. -/
theorem exists_encode_append {buffer : Bytes} (h : size ≤ buffer.length) (hmark : buffer[7]? = some magic) :
    ∃ (header : Header) (rest : Bytes), buffer = header.encode ++ rest := by
  rw [size] at h
  obtain ⟨data, back, rfl, hdata⟩ := exists_append (show 4 ≤ buffer.length by omega)
  rw [List.length_append] at h
  obtain ⟨key, back, rfl, hkey⟩ := exists_append (show 2 ≤ back.length by omega)
  rw [List.length_append] at h
  obtain ⟨suffixLength, back, rfl⟩ := List.exists_cons_of_length_pos (l := back) (by omega)
  rw [List.length_cons] at h
  obtain ⟨mark, rest, rfl⟩ := List.exists_cons_of_length_pos (l := back) (by omega)
  have hdataLt := ofLE_lt data
  have hkeyLt := ofLE_lt key
  have hdata' := le_ofLE data
  have hkey' := le_ofLE key
  rw [hdata] at hdata' hdataLt
  rw [hkey] at hkey' hkeyLt
  rw [List.getElem?_append_right (by omega), List.getElem?_append_right (by omega), hdata, hkey] at hmark
  cases hmark
  refine ⟨⟨.ofNat (ofLE data), .ofNat (ofLE key), suffixLength⟩, rest, ?_⟩
  rw [encode, UInt32.toNat_ofNat_of_lt' hdataLt, UInt16.toNat_ofNat_of_lt' hkeyLt, hdata', hkey']
  simp only [List.append_assoc, List.cons_append, List.nil_append]

end Header

namespace Layout

/-- A buffer whose front states the lengths of an item that the buffer holds in full. -/
structure Described (buffer : Bytes) : Prop where
  header : 8 ≤ buffer.length
  mark : buffer[7]? = some 0xA7
  data : 2 ≤ Header.dataField buffer
  key : Header.keyField buffer ≤ 250
  suffix : Header.suffixField buffer ≤ 40
  room : 8 + Header.keyField buffer + 1 + Header.suffixField buffer + Header.dataField buffer ≤
    buffer.length

theorem exists_parse_iff (buffer : Bytes) : (∃ layout, parse buffer = .ok layout) ↔ Described buffer := by
  constructor
  · rintro ⟨⟨header⟩, h⟩
    obtain ⟨hdecode, htotal⟩ := parse_eq_ok.1 h
    obtain ⟨hv, rest, rfl⟩ := Header.decode_eq_ok_iff.1 hdecode
    refine ⟨?_, Header.mark_append header rest, ?_, ?_, ?_, ?_⟩
    · rw [List.length_append, Header.length_encode]
      exact Nat.le_add_right _ _
    · rw [Header.dataField_append]
      exact hv.data
    · rw [Header.keyField_append]
      exact hv.key
    · rw [Header.suffixField_append]
      exact hv.suffix
    · rw [Header.keyField_append, Header.suffixField_append, Header.dataField_append]
      exact htotal
  · rintro ⟨hsize, hmark, hdata, hkey, hsuffix, hroom⟩
    obtain ⟨header, rest, rfl⟩ := Header.exists_encode_append hsize hmark
    rw [Header.dataField_append] at hdata hroom
    rw [Header.keyField_append] at hkey hroom
    rw [Header.suffixField_append] at hsuffix hroom
    exact ⟨⟨header⟩, parse_eq_ok.2 ⟨Header.decode_encode_append ⟨hdata, hkey, hsuffix⟩ rest, hroom⟩⟩

end Layout

namespace Item

variable {item : Item} {layout : Layout}

/-! ### What is inside -/

/-- The parts of an item lie one behind the other in its buffer, and each is what is read as such. -/
structure Tiled (item : Item) (layout : Layout) (p : Parts) : Prop where
  layout_eq : layout = p.layout
  buffer_eq : item.buffer =
    p.header.encode ++ p.key ++ [p.separator] ++ p.suffix ++ p.data ++ p.rest
  header_eq : item.buffer.take Header.size = p.header.encode
  key_start : layout.key.start = Header.size
  suffix_start : layout.suffix.start = layout.key.stop + 1
  data_start : layout.data.start = layout.suffix.stop
  data_stop : layout.data.stop = layout.total
  total_le : layout.total ≤ item.capacity
  total_eq : item.total = .ok layout.total
  key_eq : item.key = .ok p.key
  suffix_eq : item.suffix = .ok p.suffix
  data_eq : item.data = .ok p.data
  value_eq : item.value = .ok (p.data.take (p.data.length - Header.terminator.length))
  bytes_eq : item.bytes = .ok (item.buffer.take layout.total)

theorem Parts.buffer_eq (p : Parts) : p.item.buffer =
    p.header.encode ++ p.key ++ [p.separator] ++ p.suffix ++ p.data ++ p.rest := by
  simp only [Parts.item, Parts.front, List.append_assoc, List.cons_append, List.nil_append]

theorem Parts.tiled (p : Parts) : Tiled p.item p.layout p where
  layout_eq := rfl
  buffer_eq := p.buffer_eq
  header_eq := by
    rw [Parts.item, Parts.front, List.append_assoc, List.take_left' (Header.length_encode _)]
  key_start := rfl
  suffix_start := rfl
  data_start := rfl
  data_stop := by
    rw [p.data_span, p.total_eq]
  total_le := p.covers_whole.inside.2
  total_eq := p.total_item
  key_eq := p.key_item
  suffix_eq := p.suffix_item
  data_eq := p.data_item
  value_eq := p.value_item
  bytes_eq := bytes_of_layout p.layout_item

/-- Outside of the data, other data makes no difference. -/
theorem Parts.getElem?_withData (p : Parts) {data : Bytes} (h : data.length = p.data.length) {n : Nat}
    (hn : n < p.layout.data.start ∨ p.layout.data.stop ≤ n) :
    (p.withData data h).item.buffer[n]? = p.item.buffer[n]? := by
  rw [p.data_span] at hn
  change (p.front ++ (data ++ p.rest))[n]? = (p.front ++ (p.data ++ p.rest))[n]?
  rcases hn with hn | hn
  · rw [List.getElem?_append_left hn, List.getElem?_append_left hn]
  · have hfront : p.front.length ≤ n := Nat.le_trans (Nat.le_add_right _ _) hn
    have hdata : p.data.length ≤ n - p.front.length := Nat.le_sub_of_add_le' hn
    rw [List.getElem?_append_right hfront, List.getElem?_append_right hfront,
      List.getElem?_append_right hdata, List.getElem?_append_right (h ▸ hdata), h]

/-- What a value that is written leaves as it was, and what it does not. -/
structure Rewritten (item : Item) (layout : Layout) (value : Bytes) (item' : Item) : Prop where
  data_eq : item'.data = .ok (value ++ Header.terminator)
  value_eq : item'.value = .ok value
  outside : ∀ n, n < layout.data.start ∨ layout.data.stop ≤ n → item'.buffer[n]? = item.buffer[n]?
  capacity_eq : item'.capacity = item.capacity
  layout_eq : item'.layout = item.layout
  total_eq : item'.total = item.total
  key_eq : item'.key = item.key
  suffix_eq : item'.suffix = item.suffix
  flags_eq : item'.flags = item.flags

theorem Parts.rewritten (p : Parts) (h : (value ++ Header.terminator).length = p.data.length) :
    Rewritten p.item p.layout value (p.withData (value ++ Header.terminator) h).item where
  data_eq := Parts.data_item _
  value_eq := by
    rw [Parts.value_item]
    simp only [Parts.withData, List.length_append, Nat.add_sub_cancel, List.take_left]
  outside _ hn := p.getElem?_withData h hn
  capacity_eq := by
    simp only [Item.capacity, Parts.item, Parts.withData, Parts.front, List.length_append, ← h]
  layout_eq := (Parts.layout_item _).trans p.layout_item.symm
  total_eq := (Parts.total_item _).trans p.total_item.symm
  key_eq := (Parts.key_item _).trans p.key_item.symm
  suffix_eq := (Parts.suffix_item _).trans p.suffix_item.symm
  flags_eq := by
    rw [Item.flags, Item.flags, Parts.suffix_item, p.suffix_item]
    rfl

/-! ### What is refused -/

/-- Every access is refused for the same reason. -/
structure Refuses (item : Item) (err : Error) : Prop where
  total : item.total = .error err
  key : item.key = .error err
  suffix : item.suffix = .error err
  data : item.data = .error err
  value : item.value = .error err
  flags : item.flags = .error err
  bytes : item.bytes = .error err
  setValue : ∀ value, item.setValue value = .error err
  fillData : ∀ byte, item.fillData byte = .error err

theorem refuses_of_layout (h : item.layout = .error err) : item.Refuses err where
  total := by
    rw [Item.total, h]
    rfl
  key := by
    rw [Item.key, h]
    rfl
  suffix := by
    rw [Item.suffix, h]
    rfl
  data := by
    rw [Item.data, h]
    rfl
  value := by
    rw [Item.value, Item.data, h]
    rfl
  flags := by
    rw [Item.flags, Item.suffix, h]
    rfl
  bytes := by
    rw [Item.bytes, Item.total, h]
    rfl
  setValue _ := setValue_of_error h
  fillData _ := by
    rw [Item.fillData, h]
    rfl

/-! ### Checked access -/

/-- Takes the bytes of a part of an item. -/
def checkedPart (span : Layout → Span) : EStateM Halt Item Bytes := do
  let layout ← Checked.report (← get).layout
  Checked.slice (span layout) (← get).buffer

/-- Takes the data of an item without the terminator. -/
def checkedValue : EStateM Halt Item Bytes := do
  let data ← checkedPart Layout.data
  let stop ← Checked.subtract data.length Header.terminator.length
  Checked.slice { start := 0, stop } data

/-- Puts bytes in the place of as many others. -/
def checkedPut (span : Span) (new : Bytes) : EStateM Halt Item Unit := do
  let old ← Checked.slice span (← get).buffer
  if old.length = new.length then modify (put span new) else throw .stopped

/-- Writes a value into the data of an item, and behind it the terminator. -/
def checkedSetValue (value : Bytes) : EStateM Halt Item Unit := do
  let span := (← Checked.report (← get).layout).data
  let data ← Checked.slice span (← get).buffer
  Checked.refuse (data.length ≠ value.length + Header.terminator.length)
    (.valueLength (value.length + Header.terminator.length))
  let mid := span.start + value.length
  checkedPut { start := span.start, stop := mid } value
  checkedPut { start := mid, stop := span.stop } Header.terminator

/-- Checked access comes to what access without checks comes to, and so is never stopped. What is only read
stays as it was. -/
structure Unstopped (item : Item) : Prop where
  key : checkedPart Layout.key item = Checked.report item.key item
  suffix : checkedPart Layout.suffix item = Checked.report item.suffix item
  data : checkedPart Layout.data item = Checked.report item.data item
  bytes : checkedPart (fun layout => { start := 0, stop := layout.total }) item =
    Checked.report item.bytes item
  value : checkedValue item = Checked.report item.value item
  setValue : ∀ value, checkedSetValue value item = match item.setValue value with
    | .ok item' => .ok () item'
    | .error e => .error (.reported e) item

theorem checkedPart_of_error (span : Layout → Span) (h : item.layout = .error err) :
    checkedPart span item = .error (.reported err) item := by
  rw [checkedPart, get_bind, bind_of_error (Checked.report_of_error h item)]

theorem checkedPart_of_covers {span : Layout → Span} {part : Bytes} (h : item.layout = .ok layout)
    (hpart : (span layout).Covers part item.buffer) : checkedPart span item = .ok part item := by
  rw [checkedPart, get_bind, bind_of_ok (Checked.report_of_ok h item), get_bind,
    Checked.slice_of_covers hpart]

theorem checkedPut_append (front rest : Bytes) {old new : Bytes} (h : old.length = new.length) :
    checkedPut { start := front.length, stop := front.length + old.length } new
      { buffer := front ++ (old ++ rest) } = .ok () { buffer := front ++ (new ++ rest) } := by
  have hcovers : Span.Covers ⟨front.length, front.length + old.length⟩ old (front ++ (old ++ rest)) :=
    ⟨front, rest, rfl, rfl⟩
  have hslice := Checked.slice_of_covers hcovers (Item.mk (front ++ (old ++ rest)))
  rw [checkedPut, get_bind, bind_of_ok hslice, if_pos h]
  exact congrArg (fun buffer => EStateM.Result.ok () (Item.mk buffer))
    (Span.replace_append front old new rest)

theorem unstopped_of_error (h : item.layout = .error err) : item.Unstopped where
  key := by
    rw [checkedPart_of_error _ h, Checked.report_of_error (refuses_of_layout h).key]
  suffix := by
    rw [checkedPart_of_error _ h, Checked.report_of_error (refuses_of_layout h).suffix]
  data := by
    rw [checkedPart_of_error _ h, Checked.report_of_error (refuses_of_layout h).data]
  bytes := by
    rw [checkedPart_of_error _ h, Checked.report_of_error (refuses_of_layout h).bytes]
  value := by
    rw [checkedValue, bind_of_error (checkedPart_of_error _ h),
      Checked.report_of_error (refuses_of_layout h).value]
  setValue value := by
    rw [checkedSetValue, get_bind, bind_of_error (Checked.report_of_error h item), setValue_of_error h]

namespace Parts

variable (p : Parts)

theorem checkedValue_item : checkedValue p.item =
    .ok (p.data.take (p.data.length - Header.terminator.length)) p.item := by
  have hlength : Header.terminator.length ≤ p.data.length := by
    rw [p.length_data]
    exact p.valid.data
  rw [checkedValue, bind_of_ok (checkedPart_of_covers p.layout_item p.covers_data),
    bind_of_ok (Checked.subtract_of_le hlength p.item), Checked.slice_take (Nat.sub_le _ _)]

theorem checkedSetValue_of_ne (h : p.data.length ≠ value.length + Header.terminator.length) :
    checkedSetValue value p.item =
      .error (.reported (.valueLength (value.length + Header.terminator.length))) p.item := by
  rw [checkedSetValue, get_bind, bind_of_ok (Checked.report_of_ok p.layout_item p.item), get_bind,
    bind_of_ok (Checked.slice_of_covers p.covers_data p.item)]
  exact bind_of_error (Checked.refuse_of_true h _ p.item)

/-- The value and the terminator are put in the place of the data one after the other. -/
theorem checkedSetValue_item (h : (value ++ Header.terminator).length = p.data.length) :
    checkedSetValue value p.item = .ok () (p.withData (value ++ Header.terminator) h).item := by
  have hlength := h.symm.trans List.length_append
  obtain ⟨body, tail, hdata, hbody⟩ := exists_append (show value.length ≤ p.data.length by omega)
  have htail : tail.length = Header.terminator.length := by
    rw [hdata, List.length_append, hbody] at hlength
    exact Nat.add_left_cancel hlength
  have hvalue : checkedPut { start := p.layout.data.start, stop := p.layout.data.start + value.length } value
      p.item = .ok () { buffer := p.front ++ (value ++ (tail ++ p.rest)) } := by
    have hput := checkedPut_append p.front (tail ++ p.rest) hbody
    rw [hbody, ← List.append_assoc body, ← hdata, ← item] at hput
    rwa [p.data_span]
  have hterminator : checkedPut { start := p.layout.data.start + value.length, stop := p.layout.data.stop }
      Header.terminator { buffer := p.front ++ (value ++ (tail ++ p.rest)) } =
        .ok () (p.withData (value ++ Header.terminator) h).item := by
    have hput := checkedPut_append (p.front ++ value) p.rest htail
    have hstop : (p.front ++ value).length + tail.length = p.front.length + p.data.length := by
      rw [hdata, List.length_append, List.length_append, hbody, Nat.add_assoc]
    rw [hstop, List.length_append, List.append_assoc, List.append_assoc,
      ← List.append_assoc value Header.terminator] at hput
    rw [p.data_span]
    exact hput
  rw [checkedSetValue, get_bind, bind_of_ok (Checked.report_of_ok p.layout_item p.item), get_bind,
    bind_of_ok (Checked.slice_of_covers p.covers_data p.item),
    bind_of_ok (Checked.refuse_of_false (not_not_intro hlength) _ p.item), bind_of_ok hvalue, hterminator]

theorem unstopped : p.item.Unstopped where
  key := by
    rw [checkedPart_of_covers p.layout_item p.covers_key, Checked.report_of_ok p.key_item]
  suffix := by
    rw [checkedPart_of_covers p.layout_item p.covers_suffix, Checked.report_of_ok p.suffix_item]
  data := by
    rw [checkedPart_of_covers p.layout_item p.covers_data, Checked.report_of_ok p.data_item]
  bytes := by
    rw [checkedPart_of_covers p.layout_item p.covers_whole, Checked.report_of_ok p.bytes_item]
  value := by
    rw [checkedValue_item, Checked.report_of_ok p.value_item]
  setValue value := by
    by_cases h : (value ++ Header.terminator).length = p.data.length
    · rw [p.checkedSetValue_item h, p.setValue_item h]
    · rw [List.length_append, eq_comm] at h
      rw [p.checkedSetValue_of_ne h,
        setValue_of_ne p.layout_item fun heq => h (p.covers_data.length_eq.symm.trans heq)]

end Parts

/-- Whatever a buffer holds, its layout is read exactly if an item is described that is all there. Then its
parts tile the front of the buffer, and a value of the right length changes the data and nothing else;
a value of another length is refused. Where no layout is read, every access is refused as malformed. In
each case no access reaches past the buffer, and one that is refused changes nothing. -/
theorem access_stays_inside (item : Item) :
    ((∃ layout, item.layout = .ok layout) ↔ Layout.Described item.buffer) ∧
    (∀ layout, item.layout = .ok layout → (∃ p, item.Tiled layout p) ∧ ∀ value,
      (value.length + Header.terminator.length = layout.data.length →
        ∃ item', item.setValue value = .ok item' ∧ item.Rewritten layout value item') ∧
      (value.length + Header.terminator.length ≠ layout.data.length →
        item.setValue value = .error (.valueLength (value.length + Header.terminator.length)))) ∧
    (∀ err, item.layout = .error err → (∃ fault, err = .malformedItem fault) ∧ item.Refuses err) ∧
    item.Unstopped := by
  refine ⟨Layout.exists_parse_iff item.buffer, ?_, ?_, ?_⟩
  · intro layout h
    obtain ⟨p, rfl, rfl⟩ := layout_eq_ok_iff.1 h
    refine ⟨⟨p, p.tiled⟩, fun value => ⟨fun hlength => ?_, fun hne => setValue_of_ne h (Ne.symm hne)⟩⟩
    rw [p.covers_data.length_eq, ← List.length_append] at hlength
    exact ⟨_, p.setValue_item hlength, p.rewritten hlength⟩
  · intro err h
    exact ⟨Layout.malformed_of_parse h, refuses_of_layout h⟩
  · cases h : item.layout with
    | error err => exact unstopped_of_error h
    | ok layout =>
      obtain ⟨p, rfl, -⟩ := layout_eq_ok_iff.1 h
      exact p.unstopped

/-- An item whose suffix makes no sense, with two more bytes behind it, and the same item cut short. -/
theorem access_stays_inside_of_slack :
    let buffer : Bytes := [3, 0, 0, 0, 1, 0, 2, 0xA7, 97, 0, 7, 7, 118, 13, 10, 9, 9]
    let layout : Layout := ⟨⟨3, 1, 2⟩⟩
    Item.layout { buffer } = .ok layout ∧
      (∃ p item', Tiled { buffer } layout p ∧ Item.setValue { buffer } [120] = .ok item' ∧
        Rewritten { buffer } layout [120] item') ∧
      Item.setValue { buffer } [] = .error (.valueLength 2) ∧
      Item.layout { buffer := buffer.take 14 } = .error (.malformedItem (.overrun 15 14)) ∧
      Refuses { buffer := buffer.take 14 } (.malformedItem (.overrun 15 14)) := by
  intro buffer layout
  have hlayout : Item.layout { buffer } = .ok layout := rfl
  have hcut : Item.layout { buffer := buffer.take 14 } = .error (.malformedItem (.overrun 15 14)) := rfl
  obtain ⟨⟨p, htiled⟩, hset⟩ := (access_stays_inside { buffer }).2.1 layout hlayout
  obtain ⟨item', hwritten, hrewritten⟩ := (hset [120]).1 (by decide)
  exact ⟨hlayout, ⟨p, item', htiled, hwritten, hrewritten⟩, (hset []).2 (by decide), hcut,
    ((access_stays_inside { buffer := buffer.take 14 }).2.2.1 _ hcut).2⟩

end Item

end KeyedStore
