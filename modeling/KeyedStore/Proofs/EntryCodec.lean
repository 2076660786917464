import KeyedStore.Journal.Cursor
import KeyedStore.Proofs.JournalRecovery

/-!
# Decoding entries

The frame of an entry is decoded from a string in memory and by a cursor from a file. Both go by the
header of the frame: there have to be as many bytes as it declares, and what follows them has no say.
They accept the same frames and find the same entries in them.
-/

namespace KeyedStore.Journal

open Bytes

variable {bs rest payload : Bytes} {e : Entry} {header : Opened} {c : Cursor} {d : Disk} {path : Path}
  {offset size n : Nat}

/-! ### Headers -/

/-- The checksum in the header of a frame. -/
def storedChecksum (bs : Bytes) : Nat := ofLE ((bs.drop 8).take 4)

/-- The length that the header of a frame declares for its payload. -/
def declaredLength (bs : Bytes) : Nat := ofLE ((bs.drop 12).take 4)

theorem fields_of_opened? (h : opened? bs = some header) :
    storedChecksum bs = header.stored.toNat ∧ declaredLength bs = header.length := by
  obtain ⟨hlength, hbs⟩ := eq_of_opened? h
  have hbehind : bs.drop 8 = le 4 header.stored.toNat ++ (le 4 header.length ++ header.rest) := by
    rw [hbs, List.drop_left' (length_le 8 _)]
  constructor
  · rw [storedChecksum, hbehind, List.take_left' (length_le 4 _),
      ofLE_le (toNat_lt_bound_four header.stored)]
  · rw [declaredLength, show 12 = 8 + 4 from rfl, ← List.drop_drop, hbehind,
      List.drop_left' (length_le 4 _), List.take_left' (length_le 4 _), ofLE_le hlength]

theorem Entry.storedChecksum_frame (h : e.Fits) : storedChecksum e.frame = e.checksum.toNat := by
  have hopened := opened?_encodeFrame_append e.lsn h []
  rw [List.append_nil] at hopened
  exact (fields_of_opened? hopened).1

/-! ### Decoding -/

/-- A reader that finds an entry goes on behind as many bytes as the header declares. -/
theorem eq_of_head (h : head offset bs = .entry e size rest) :
    size = headerSize + declaredLength bs ∧ rest = bs.drop size := by
  obtain ⟨frame, ⟨payload, hframe, hlen, -⟩, rfl, rfl⟩ := isFrame_of_head h
  have hopened := opened?_encodeFrame_append e.lsn hlen rest
  rw [← hframe] at hopened
  refine ⟨?_, List.drop_left.symm⟩
  rw [(fields_of_opened? hopened).2, hframe, length_encodeFrame]

/-- Decoding gives the entry that a reader finds at the front, wherever the reader stands. -/
theorem Entry.decode_eq_ok_iff (offset : Nat) :
    Entry.decode bs = .ok e ↔ ∃ size rest, head offset bs = .entry e size rest := by
  unfold Entry.decode head
  cases opened? bs with
  | none => cases bs.isEmpty <;> simp
  | some header =>
    by_cases hlen : header.length > maxPayload
    · simp [hlen]
    · cases hs : split? header.length header.rest with
      | none => simp [hlen, hs]
      | some parts => cases he : header.entry parts.1 <;> simp [hlen, hs, he, Except.mapError]

theorem Entry.decode_frame_append (h : e.Fits) (rest : Bytes) : Entry.decode (e.frame ++ rest) = .ok e :=
  (Entry.decode_eq_ok_iff 0).2 ⟨_, _, h.isFrame.head_append 0 rest⟩

/-- Of a frame that is cut short either the header or the payload is found missing. -/
theorem Entry.decode_take_frame (h : e.Fits) (hn : n < e.size) :
    Entry.decode (e.frame.take n) = .error (.journal
      (if n < headerSize then .headerCut n else .payloadCut e.payload.length (n - headerSize))) := by
  have hl : (e.frame.take n).length = n := by
    rw [List.length_take, e.length_frame]
    omega
  unfold Entry.decode
  by_cases hh : n < headerSize
  · rw [opened?_eq_none (by omega), if_pos hh]
    simp only [hl]
  · have ho : opened? (e.frame.take n) = _ := opened?_take_encodeFrame e.lsn h (Nat.not_lt.1 hh)
    have hs : split? e.payload.length (e.payload.take (n - headerSize)) = none := by
      rw [Entry.size] at hn
      rw [split?_eq_none_iff, List.length_take]
      omega
    rw [if_neg hh, ho]
    simp only [hs, hl, ite_self]

/-! ### Cursors -/

namespace Cursor

theorem next_of_head (hrest : c.rest = .ok bs) (h : head c.validLength bs = .entry e size rest) :
    c.next = (.ok (some e), { c with rest := .ok rest, validLength := c.validLength + size }) := by
  unfold next
  rw [hrest]
  simp only [h]

theorem head_of_next (hrest : c.rest = .ok bs) (h : c.next.1 = .ok (some e)) :
    ∃ size rest, head c.validLength bs = .entry e size rest := by
  unfold next at h
  rw [hrest] at h
  cases hhead : head c.validLength bs with
  | done => simp [hhead] at h
  | torn => simp [hhead] at h
  | refused cause rest => simp [hhead] at h
  | entry e' size rest =>
    simp only [hhead, Except.ok.injEq, Option.some.injEq] at h
    exact ⟨size, rest, by rw [h]⟩

theorem next_eq_entry_iff (hrest : c.rest = .ok bs) :
    c.next.1 = .ok (some e) ↔ Entry.decode bs = .ok e := by
  rw [Entry.decode_eq_ok_iff c.validLength]
  constructor
  · exact head_of_next hrest
  · rintro ⟨size, rest, hhead⟩
    rw [next_of_head hrest hhead]

theorem next_of_decode (hrest : c.rest = .ok bs) (h : Entry.decode bs = .ok e) :
    c.next.2 = { c with
      rest := .ok (bs.drop (headerSize + declaredLength bs))
      validLength := c.validLength + (headerSize + declaredLength bs) } := by
  obtain ⟨size, rest, hhead⟩ := (Entry.decode_eq_ok_iff c.validLength).1 h
  obtain ⟨rfl, rfl⟩ := eq_of_head hhead
  rw [next_of_head hrest hhead]

theorem openAt_of_read (h : d.read path = .ok bs) : openAt d path = .ok { rest := .ok bs } := by
  unfold Disk.read Disk.file at h
  unfold openAt
  cases hfind : d.find path with
  | error fault => simp [hfind, bind, Except.bind] at h
  | ok found =>
    obtain ⟨place, node⟩ := found
    cases node with
    | directory => simp [hfind, bind, Except.bind] at h
    | file id =>
      simp only [hfind, bind, Except.bind, pure, Except.pure, Except.ok.injEq] at h
      simp only [h]

end Cursor

/-! ### Round trips -/

/-- An entry that fits has a frame, of the size and with the checksum that are computed for it, and is
decoded from it whatever follows; cut short anywhere, the frame is refused. From any bytes, decoding
gives the entries that a cursor gives, at the start of a file of these bytes as at any later place; the
cursor counts the header and what it declares as read. -/
theorem Entry.frame_round_trip :
    (∀ e : Entry, e.payload.length ≤ maxPayload → ∃ frame, e.encode = .ok frame ∧ frame.length = e.size ∧
      storedChecksum frame = e.checksum.toNat ∧
      (∀ rest, Entry.decode (frame ++ rest) = .ok e) ∧
      ∀ n < frame.length, Entry.decode (frame.take n) = .error (.journal
        (if n < headerSize then .headerCut n else .payloadCut e.payload.length (n - headerSize)))) ∧
    (∀ (c : Cursor) (bs : Bytes) (e : Entry), c.rest = .ok bs →
      (c.next.1 = .ok (some e) ↔ Entry.decode bs = .ok e) ∧
      (Entry.decode bs = .ok e → c.next.2 = { c with
        rest := .ok (bs.drop (headerSize + declaredLength bs))
        validLength := c.validLength + (headerSize + declaredLength bs) })) ∧
    ∀ (d : Disk) (path : Path) (bs : Bytes), d.read path = .ok bs →
      Cursor.openAt d path = .ok { rest := .ok bs } := by
  refine ⟨?_, ?_, fun d path bs => Cursor.openAt_of_read⟩
  · intro e hfits
    have hframe : e.encode = .ok e.frame := Entry.encode_of_fits hfits
    refine ⟨e.frame, hframe, e.length_frame, Entry.storedChecksum_frame hfits,
      Entry.decode_frame_append hfits, ?_⟩
    intro n hn
    rw [e.length_frame] at hn
    exact Entry.decode_take_frame hfits hn
  · intro c bs e hrest
    exact ⟨Cursor.next_eq_entry_iff hrest, Cursor.next_of_decode hrest⟩

/-- A deletion in front of two more bytes in a journal file. -/
theorem Entry.frame_round_trip_of_delete :
    ∃ (d : Disk) (e : Entry) (frame : Bytes) (c : Cursor), e.encode = .ok frame ∧
      Entry.decode (frame.take 20) = .error (.journal (.payloadCut 21 4)) ∧
      d.read ["wal.log"] = .ok (frame ++ [9, 9]) ∧ Cursor.openAt d ["wal.log"] = .ok c ∧
      c.next.1 = .ok (some e) := by
  let e : Entry := { lsn := 7, operation := .delete [1], time := 5 }
  obtain ⟨hframes, hcursors, hfiles⟩ := Entry.frame_round_trip
  obtain ⟨frame, hencode, hsize, -, hdecode, hcut⟩ := hframes e (by decide)
  let d : Disk := ({} : Disk).withFile ["wal.log"] (frame ++ [9, 9])
  have hread : d.read ["wal.log"] = .ok (frame ++ [9, 9]) := by
    have hfile : d.file ["wal.log"] = .ok 0 :=
      Disk.file_alone (.of_not_mem (by decide) (by decide) (by decide)) (by decide) _
    have hcontent : d.content 0 = frame ++ [9, 9] := Disk.content_withFile_self
    rw [Disk.read, hfile, ← hcontent]
    rfl
  obtain ⟨hnext, -⟩ := hcursors { rest := .ok (frame ++ [9, 9]) } _ e rfl
  refine ⟨d, e, frame, _, hencode, ?_, hread, hfiles d _ _ hread, hnext.2 (hdecode [9, 9])⟩
  exact hcut 20 (by rw [hsize]; decide)

end KeyedStore.Journal
