import KeyedStore.Journal.Scan

/-!
# Journals as lists of frames

A string is the frame of an entry exactly if the reader takes it for one; bytes may follow the time in
its payload. A journal that holds the frames of some entries is read back as these entries. When it is
cut anywhere, the frames that lie wholly in front of the cut are read back, and the piece of a frame
behind them is recognised as torn: it never passes for an entry.
-/

namespace KeyedStore

namespace Operation

/-- The number of bytes in an operation's key and value. -/
def length : Operation → Nat
  | put key value => key.length + value.length
  | delete key => key.length

/-- The number of bytes that the frame of an operation takes in a journal. -/
def frameSize (op : Operation) : Nat := Journal.headerSize + (Journal.encodePayload op 0).length

theorem length_encodePayload (op : Operation) (time : UInt64) :
    (Journal.encodePayload op time).length = op.frameSize - Journal.headerSize := by
  cases op <;> simp [frameSize, Journal.encodePayload, Journal.encodeBlob]

/-- An operation that a frame can hold. -/
def Loggable (op : Operation) : Prop := (Journal.encodePayload op 0).length ≤ Journal.maxPayload

instance (op : Operation) : Decidable op.Loggable :=
  inferInstanceAs (Decidable ((Journal.encodePayload op 0).length ≤ Journal.maxPayload))

theorem length_add_le_frameSize (op : Operation) : op.length + 36 ≤ op.frameSize := by
  cases op <;>
    simp [length, frameSize, Journal.encodePayload, Journal.encodeBlob, Journal.headerSize] <;> omega

end Operation

namespace Journal

open Bytes

variable {bs rest tail key value payload blob frame : Bytes} {op : Operation} {e : Entry}
  {log : List Entry} {lsn time : UInt64} {header : Opened} {offset size n : Nat}

/-! ### Payloads -/

theorem readBlob?_encodeBlob_append (h : bs.length < bound 8) (rest : Bytes) :
    readBlob? (encodeBlob bs ++ rest) = some (bs, rest) := by
  rw [readBlob?, encodeBlob, List.append_assoc, readLE?_le_append h]
  exact split?_append bs rest

theorem readPut?_append (hk : key.length < bound 8) (hv : value.length < bound 8) (time : UInt64)
    (rest : Bytes) :
    readPut? (encodeBlob key ++ (encodeBlob value ++ (le 8 time.toNat ++ rest))) =
      some (.put key value, time) := by
  simp only [readPut?, readBlob?_encodeBlob_append hk, readBlob?_encodeBlob_append hv,
    readLE?_le_append (toNat_lt_bound_eight time), Option.bind_eq_bind, Option.bind_some,
    UInt64.ofNat_toNat, Option.pure_def]

theorem readDelete?_append (hk : key.length < bound 8) (time : UInt64) (rest : Bytes) :
    readDelete? (encodeBlob key ++ (le 8 time.toNat ++ rest)) = some (.delete key, time) := by
  simp only [readDelete?, readBlob?_encodeBlob_append hk,
    readLE?_le_append (toNat_lt_bound_eight time), Option.bind_eq_bind, Option.bind_some,
    UInt64.ofNat_toNat, Option.pure_def]

theorem decodePayload_append (h : op.length < bound 8) (time : UInt64) (rest : Bytes) :
    decodePayload (encodePayload op time ++ rest) = .ok (op, time) := by
  cases op with
  | put key value =>
    rw [Operation.length] at h
    have hk : key.length < bound 8 := by omega
    have hv : value.length < bound 8 := by omega
    simp only [encodePayload, decodePayload, List.append_assoc,
      readLE?_le_append (show 0 < bound 4 by decide), readPut?_append hk hv, if_true,
      Option.elim_some]
  | delete key =>
    rw [Operation.length] at h
    simp only [encodePayload, decodePayload, List.append_assoc,
      readLE?_le_append (show 1 < bound 4 by decide), readDelete?_append h, Nat.one_ne_zero,
      if_false, if_true, Option.elim_some]

theorem eq_of_readBlob? (h : readBlob? bs = some (blob, rest)) : bs = encodeBlob blob ++ rest := by
  simp only [readBlob?, Option.bind_eq_some_iff, Prod.exists] at h
  obtain ⟨length, rest', hl, hs⟩ := h
  obtain ⟨-, rfl⟩ := readLE?_eq_some_iff.1 hl
  obtain ⟨rfl, rfl⟩ := split?_eq_some hs
  rw [encodeBlob, List.append_assoc]

theorem eq_of_readTime? (h : readLE? 8 bs = some (n, rest)) :
    bs = le 8 (UInt64.ofNat n).toNat ++ rest := by
  obtain ⟨hn, rfl⟩ := readLE?_eq_some_iff.1 h
  rw [UInt64.toNat_ofNat_of_lt' hn]

theorem prefix_of_readPut? (h : readPut? bs = some (op, time)) :
    encodePayload op time <+: le 4 0 ++ bs := by
  simp only [readPut?, Option.bind_eq_bind, Option.bind_eq_some_iff, Option.pure_def,
    Option.some.injEq, Prod.mk.injEq, Prod.exists] at h
  obtain ⟨key, rest, hk, value, rest', hv, n, extra, ht, rfl, rfl⟩ := h
  refine ⟨extra, ?_⟩
  rw [eq_of_readBlob? hk, eq_of_readBlob? hv, eq_of_readTime? ht, encodePayload]
  simp only [List.append_assoc]

theorem prefix_of_readDelete? (h : readDelete? bs = some (op, time)) :
    encodePayload op time <+: le 4 1 ++ bs := by
  simp only [readDelete?, Option.bind_eq_bind, Option.bind_eq_some_iff, Option.pure_def,
    Option.some.injEq, Prod.mk.injEq, Prod.exists] at h
  obtain ⟨key, rest, hk, n, extra, ht, rfl, rfl⟩ := h
  refine ⟨extra, ?_⟩
  rw [eq_of_readBlob? hk, eq_of_readTime? ht, encodePayload]
  simp only [List.append_assoc]

/-- A payload that is decoded begins with what it is decoded to. -/
theorem prefix_of_decodePayload (h : decodePayload payload = .ok (op, time)) :
    encodePayload op time <+: payload := by
  rw [decodePayload] at h
  split at h
  · contradiction
  · next tag rest htag =>
    obtain ⟨-, rfl⟩ := readLE?_eq_some_iff.1 htag
    split at h
    · next h0 =>
      subst h0
      cases hput : readPut? rest with
      | none => simp [hput] at h
      | some found =>
        simp only [hput, Option.elim_some, Except.ok.injEq] at h
        subst h
        exact prefix_of_readPut? hput
    · split at h
      · next h1 =>
        subst h1
        cases hdelete : readDelete? rest with
        | none => simp [hdelete] at h
        | some found =>
          simp only [hdelete, Option.elim_some, Except.ok.injEq] at h
          subst h
          exact prefix_of_readDelete? hdelete
      · contradiction

/-! ### Frames -/

/-- An entry whose payload a frame can hold. -/
def Entry.Fits (e : Entry) : Prop := e.payload.length ≤ maxPayload

theorem Entry.size_eq (e : Entry) : e.size = e.operation.frameSize := by
  rw [Entry.size, Entry.payload, Operation.length_encodePayload, Operation.frameSize]
  omega

theorem Entry.fits_iff : e.Fits ↔ e.operation.Loggable := by
  rw [Entry.Fits, Entry.payload, Operation.length_encodePayload, Operation.Loggable,
    Operation.frameSize, Nat.add_sub_cancel_left]

theorem length_encodeFrame (lsn : UInt64) (payload : Bytes) :
    (encodeFrame lsn payload).length = headerSize + payload.length := by
  simp only [encodeFrame, List.length_append, length_le, headerSize]
  omega

theorem Entry.length_frame (e : Entry) : e.frame.length = e.size :=
  length_encodeFrame e.lsn e.payload

theorem Entry.Fits.length_lt (h : e.Fits) : e.operation.length < bound 8 := by
  have hs := e.operation.length_add_le_frameSize
  rw [← Entry.size_eq, Entry.size, headerSize] at hs
  rw [Entry.Fits, maxPayload] at h
  rw [bound_eight]
  omega

theorem Entry.encode_of_fits (h : e.Fits) : e.encode = .ok e.frame :=
  if_neg (Nat.not_lt.2 h)

theorem opened?_header_append (lsn : UInt64) (stored : UInt32) (h : n < bound 4) (rest : Bytes) :
    opened? (le 8 lsn.toNat ++ (le 4 stored.toNat ++ (le 4 n ++ rest))) =
      some { lsn, stored, length := n, rest } := by
  simp only [opened?, readLE?_le_append (toNat_lt_bound_eight lsn),
    readLE?_le_append (toNat_lt_bound_four stored), readLE?_le_append h, Option.bind_eq_bind,
    Option.bind_some, UInt64.ofNat_toNat, UInt32.ofNat_toNat, Option.pure_def]

theorem eq_of_opened? (h : opened? bs = some header) : header.length < bound 4 ∧
    bs = le 8 header.lsn.toNat ++ (le 4 header.stored.toNat ++ (le 4 header.length ++ header.rest)) := by
  simp only [opened?, Option.bind_eq_bind, Option.bind_eq_some_iff, Option.pure_def,
    Option.some.injEq, Prod.exists] at h
  obtain ⟨lsn, rest₁, h₁, stored, rest₂, h₂, length, rest₃, h₃, rfl⟩ := h
  obtain ⟨hn, rfl⟩ := readLE?_eq_some_iff.1 h₁
  obtain ⟨hs, rfl⟩ := readLE?_eq_some_iff.1 h₂
  obtain ⟨hl, rfl⟩ := readLE?_eq_some_iff.1 h₃
  refine ⟨hl, ?_⟩
  rw [UInt64.toNat_ofNat_of_lt' hn, UInt32.toNat_ofNat_of_lt' hs]

theorem opened?_eq_none (h : bs.length < headerSize) : opened? bs = none := by
  cases ho : opened? bs with
  | none => rfl
  | some header =>
    have := length_of_opened? ho
    omega

/-- A payload that begins with the one of an entry, under the number of the entry, is taken for it. -/
theorem entry_of_prefix (hlen : payload.length ≤ maxPayload) (hp : e.payload <+: payload) (rest : Bytes) :
    ({ lsn := e.lsn, stored := frameChecksum e.lsn payload, length := payload.length, rest } :
      Opened).entry payload = .ok e := by
  obtain ⟨extra, rfl⟩ := hp
  have hfits : e.Fits := by
    rw [List.length_append] at hlen
    exact Nat.le_trans (Nat.le_add_right _ _) hlen
  have hdecode : decodePayload (e.payload ++ extra) = .ok (e.operation, e.time) :=
    decodePayload_append hfits.length_lt e.time extra
  simp only [Opened.entry, ne_eq, not_true_eq_false, if_false, hdecode]

theorem eq_of_entry (h : header.entry payload = .ok e) :
    header.lsn = e.lsn ∧ header.stored = frameChecksum e.lsn payload ∧ e.payload <+: payload := by
  simp only [Opened.entry] at h
  split at h
  · contradiction
  · next hsum =>
    split at h
    · next op time hdecode =>
      cases h
      exact ⟨rfl, (Decidable.not_not.1 hsum).symm, prefix_of_decodePayload hdecode⟩
    · contradiction

@[simp] theorem head_nil (offset : Nat) : head offset [] = .done := rfl

/-- A string is a frame of an entry: the number of the entry, the checksum and the length of a payload
within the limit, and the payload, which begins with the operation and the time. -/
def IsFrame (frame : Bytes) (e : Entry) : Prop :=
  ∃ payload, frame = encodeFrame e.lsn payload ∧ payload.length ≤ maxPayload ∧ e.payload <+: payload

theorem Entry.Fits.isFrame (h : e.Fits) : IsFrame e.frame e :=
  ⟨e.payload, rfl, h, List.prefix_refl _⟩

theorem opened?_encodeFrame_append (lsn : UInt64) (hlen : payload.length ≤ maxPayload) (rest : Bytes) :
    opened? (encodeFrame lsn payload ++ rest) =
      some { lsn, stored := frameChecksum lsn payload, length := payload.length,
             rest := payload ++ rest } := by
  have hbound : payload.length < bound 4 := Nat.lt_of_le_of_lt hlen (by decide)
  simp only [encodeFrame, List.append_assoc]
  exact opened?_header_append lsn (frameChecksum lsn payload) hbound (payload ++ rest)

theorem IsFrame.head_append (h : IsFrame frame e) (offset : Nat) (rest : Bytes) :
    head offset (frame ++ rest) = .entry e frame.length rest := by
  obtain ⟨payload, rfl, hlen, hp⟩ := h
  have ho := opened?_encodeFrame_append e.lsn hlen rest
  rw [length_encodeFrame]
  simp only [head, ho, if_neg (Nat.not_lt.2 hlen), split?_append, entry_of_prefix hlen hp]

theorem isFrame_of_head (h : head offset bs = .entry e size rest) :
    ∃ frame, IsFrame frame e ∧ frame.length = size ∧ bs = frame ++ rest := by
  rw [head] at h
  split at h
  · split at h <;> contradiction
  · next header ho =>
    split at h
    · contradiction
    · next hlen =>
      split at h
      · contradiction
      · next payload rest' hs =>
        split at h
        · next hentry =>
          cases h
          obtain ⟨hrest, hpayload⟩ := split?_eq_some hs
          obtain ⟨hlsn, hstored, hp⟩ := eq_of_entry hentry
          rw [← hpayload] at hlen
          refine ⟨encodeFrame e.lsn payload, ⟨payload, rfl, Nat.not_lt.1 hlen, hp⟩, ?_, ?_⟩
          · rw [length_encodeFrame, hpayload]
          · rw [(eq_of_opened? ho).2, hrest, hlsn, hstored, ← hpayload]
            simp only [encodeFrame, List.append_assoc]
        · contradiction

/-- The header of a frame outlives a cut behind it. -/
theorem opened?_take_encodeFrame (lsn : UInt64) (hlen : payload.length ≤ maxPayload) (hn : headerSize ≤ n) :
    opened? ((encodeFrame lsn payload).take n) =
      some { lsn, stored := frameChecksum lsn payload, length := payload.length,
             rest := payload.take (n - headerSize) } := by
  have hbound : payload.length < bound 4 := Nat.lt_of_le_of_lt hlen (by decide)
  have hb : (encodeFrame lsn payload).take n = le 8 lsn.toNat ++
      (le 4 (frameChecksum lsn payload).toNat ++
        (le 4 payload.length ++ payload.take (n - headerSize))) := by
    rw [headerSize] at hn ⊢
    simp only [encodeFrame, List.take_append, length_le, Nat.sub_sub, Nat.reduceAdd]
    rw [List.take_of_length_le (by rw [length_le]; omega),
      List.take_of_length_le (by rw [length_le]; omega),
      List.take_of_length_le (by rw [length_le]; omega)]
  rw [hb]
  exact opened?_header_append lsn (frameChecksum lsn payload) hbound (payload.take (n - headerSize))

/-- What is left of a frame that is cut short is recognised as torn, whatever its payload is. -/
theorem head_take_encodeFrame (lsn : UInt64) (hlen : payload.length ≤ maxPayload) (offset : Nat)
    (hn : n < (encodeFrame lsn payload).length) :
    head offset ((encodeFrame lsn payload).take n) = if n = 0 then .done else .torn := by
  have hl : ((encodeFrame lsn payload).take n).length = n := by
    rw [List.length_take]
    omega
  by_cases hh : n < headerSize
  · have ho : opened? ((encodeFrame lsn payload).take n) = none := opened?_eq_none (by omega)
    by_cases h0 : n = 0
    · simp [h0]
    · have he : ((encodeFrame lsn payload).take n).isEmpty = false := by
        rw [List.isEmpty_eq_false_iff, ne_eq, ← List.length_eq_zero_iff]
        omega
      simp only [head, ho, he, Bool.false_eq_true, if_false, if_neg h0]
  · have ho := opened?_take_encodeFrame lsn hlen (Nat.not_lt.1 hh)
    have hs : split? payload.length (payload.take (n - headerSize)) = none := by
      rw [length_encodeFrame] at hn
      rw [split?_eq_none_iff, List.length_take]
      omega
    rw [headerSize] at hh
    simp only [head, ho, if_neg (Nat.not_lt.2 hlen), hs, if_neg (show n ≠ 0 by omega)]

/-! ### Journals -/

/-- The frames of some entries, one behind the other. -/
def frames (log : List Entry) : Bytes := log.flatMap Entry.frame

/-- The front of a string is no entry. -/
def Stops (tail : Bytes) : Prop := ∀ offset e size rest, head offset tail ≠ .entry e size rest

@[simp] theorem frames_nil : frames [] = [] := rfl

theorem frames_cons (e : Entry) (log : List Entry) : frames (e :: log) = e.frame ++ frames log :=
  List.flatMap_cons

theorem frames_concat (log : List Entry) (e : Entry) : frames (log ++ [e]) = frames log ++ e.frame := by
  simp [frames]

theorem stops_nil : Stops [] := by
  intro offset e size rest h
  simp at h

theorem stops_take_encodeFrame (lsn : UInt64) (hlen : payload.length ≤ maxPayload)
    (hn : n < (encodeFrame lsn payload).length) : Stops ((encodeFrame lsn payload).take n) := by
  intro offset e size rest he
  rw [head_take_encodeFrame lsn hlen offset hn] at he
  split at he <;> contradiction

theorem scan_eq (bs : Bytes) (offset : Nat) : scan bs offset =
    match head offset bs with
    | .done => { entries := [], length := offset, ending := .clean }
    | .torn => { entries := [], length := offset, ending := .torn }
    | .refused cause _ => { entries := [], length := offset, ending := .refused cause }
    | .entry e size rest =>
      { scan rest (offset + size) with entries := e :: (scan rest (offset + size)).entries } := by
  rw [scan]
  split <;> next hhead => simp only [hhead]

theorem scan_of_head_eq_entry (h : head offset bs = .entry e size rest) :
    scan bs offset =
      { scan rest (offset + size) with entries := e :: (scan rest (offset + size)).entries } := by
  rw [scan_eq, h]

theorem Stops.exists_scan (h : Stops tail) (offset : Nat) :
    ∃ ending, scan tail offset = { entries := [], length := offset, ending } := by
  rw [scan_eq]
  cases hhead : head offset tail with
  | done => exact ⟨_, rfl⟩
  | torn => exact ⟨_, rfl⟩
  | refused cause rest => exact ⟨_, rfl⟩
  | entry e size rest => exact absurd hhead (h offset e size rest)

theorem Stops.entries_scan (h : Stops tail) (offset : Nat) : (scan tail offset).entries = [] := by
  obtain ⟨ending, hscan⟩ := h.exists_scan offset
  rw [hscan]

theorem Stops.length_scan (h : Stops tail) (offset : Nat) : (scan tail offset).length = offset := by
  obtain ⟨ending, hscan⟩ := h.exists_scan offset
  rw [hscan]

/-- A string is a sequence of frames of some entries, in their order. -/
inductive Holds : Bytes → List Entry → Prop
  | nil : Holds [] []
  | cons {frame bs : Bytes} {e : Entry} {log : List Entry} (hf : IsFrame frame e)
      (h : Holds bs log) : Holds (frame ++ bs) (e :: log)

theorem holds_frames (h : ∀ e ∈ log, e.Fits) : Holds (frames log) log := by
  induction log with
  | nil => exact .nil
  | cons e log ih =>
    have he : e.Fits := h e List.mem_cons_self
    exact .cons he.isFrame (ih fun e' he' => h e' (List.mem_cons_of_mem _ he'))

/-- Frames are read, and reading goes on behind them. -/
theorem Holds.scan_append (h : Holds bs log) (offset : Nat) (rest : Bytes) :
    scan (bs ++ rest) offset =
      { scan rest (offset + bs.length) with
        entries := log ++ (scan rest (offset + bs.length)).entries } := by
  induction h generalizing offset with
  | nil => rfl
  | cons hf _ ih =>
    rw [List.append_assoc, scan_of_head_eq_entry (hf.head_append offset _), ih, List.length_append,
      Nat.add_assoc]
    rfl

/-- Frames are read up to a rest that begins with none. -/
theorem Holds.entries_scan (h : Holds bs log) (ht : Stops tail) :
    (scan (bs ++ tail)).entries = log := by
  rw [h.scan_append]
  simp [ht.entries_scan]

theorem Holds.length_scan (h : Holds bs log) (ht : Stops tail) :
    (scan (bs ++ tail)).length = bs.length := by
  rw [h.scan_append]
  simp [ht.length_scan]

theorem entries_scan (h : ∀ e ∈ log, e.Fits) (ht : Stops tail) :
    (scan (frames log ++ tail)).entries = log :=
  (holds_frames h).entries_scan ht

theorem length_scan (h : ∀ e ∈ log, e.Fits) (ht : Stops tail) :
    (scan (frames log ++ tail)).length = (frames log).length :=
  (holds_frames h).length_scan ht

/-! ### Cut journals -/

/-- The number of frames that lie wholly inside the first `n` bytes of a journal of some
operations. -/
def framesWithin : Nat → List Operation → Nat
  | _, [] => 0
  | n, op :: ops => if op.frameSize ≤ n then framesWithin (n - op.frameSize) ops + 1 else 0

theorem framesWithin_le (n : Nat) (ops : List Operation) : framesWithin n ops ≤ ops.length := by
  induction ops generalizing n with
  | nil => exact Nat.le_refl _
  | cons op ops ih =>
    rw [framesWithin]
    split
    · exact Nat.succ_le_succ (ih _)
    · exact Nat.zero_le _

theorem length_frames_take_le (n : Nat) (log : List Entry) :
    (frames (log.take (framesWithin n (log.map Entry.operation)))).length ≤ n := by
  induction log generalizing n with
  | nil => simp
  | cons e log ih =>
    rw [List.map_cons, framesWithin, ← Entry.size_eq]
    split
    · have hrest := ih (n - e.size)
      rw [List.take_succ_cons, frames_cons, List.length_append, e.length_frame]
      omega
    · exact Nat.zero_le _

theorem lt_length_frames_take_succ {n : Nat} {log : List Entry}
    (h : framesWithin n (log.map Entry.operation) < log.length) :
    n < (frames (log.take (framesWithin n (log.map Entry.operation) + 1))).length := by
  induction log generalizing n with
  | nil => contradiction
  | cons e log ih =>
    rw [List.map_cons, framesWithin, ← Entry.size_eq] at h ⊢
    split at h
    · next hle =>
      have hrest := ih (Nat.lt_of_succ_lt_succ h)
      rw [if_pos hle, List.take_succ_cons, frames_cons, List.length_append, e.length_frame]
      omega
    · next hlt =>
      rw [if_neg hlt, List.take_succ_cons, frames_cons, List.length_append, e.length_frame]
      omega

/-- What is left of a journal that is cut after `n` bytes: the frames in front of the cut, and a
piece that is no entry. -/
theorem exists_take_frames (h : ∀ e ∈ log, e.Fits) (n : Nat) :
    ∃ tail, Stops tail ∧
      (frames log).take n = frames (log.take (framesWithin n (log.map Entry.operation))) ++ tail := by
  induction log generalizing n with
  | nil => exact ⟨[], stops_nil, by simp⟩
  | cons e log ih =>
    have he : e.Fits := h e List.mem_cons_self
    rw [List.map_cons, framesWithin, ← Entry.size_eq, frames_cons]
    by_cases hn : e.size ≤ n
    · obtain ⟨tail, ht, htake⟩ := ih (fun e' he' => h e' (List.mem_cons_of_mem _ he')) (n - e.size)
      refine ⟨tail, ht, ?_⟩
      rw [if_pos hn, List.take_succ_cons, frames_cons, List.append_assoc, ← htake,
        List.take_append, e.length_frame, List.take_of_length_le (by rw [e.length_frame]; omega)]
    · have hcut : n < e.frame.length := by
        rw [e.length_frame]
        omega
      refine ⟨e.frame.take n, stops_take_encodeFrame e.lsn he hcut, ?_⟩
      rw [if_neg hn, List.take_append_of_le_length (Nat.le_of_lt hcut)]
      simp

end Journal

end KeyedStore
