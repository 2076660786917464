import KeyedStore.Proofs.ChangedBytes
import KeyedStore.Proofs.JournalRuns

/-!
# Journals with a changed byte

The checksum of a frame depends on every byte of its number and its payload, and it is compared with
the stored one. A frame in which one byte outside the length is changed is therefore refused, and
recovery keeps what stands in front of it.
-/

namespace KeyedStore

open Bytes

namespace Journal

variable {good rest rest' payload : Bytes} {e : Entry} {log : List Entry} {lsn : UInt64}
  {stored : UInt32} {k i : Nat} {b : UInt8} {d d' : Disk} {path : Path} {w : Writer}
  {cause : JournalFault}

/-! ### Refused frames -/

/-- A whole frame whose checksum is not the stored one is refused. -/
theorem head_of_checksum_ne (hlen : payload.length ≤ maxPayload) (hsum : frameChecksum lsn payload ≠ stored)
    (offset : Nat) (rest : Bytes) :
    head offset (le 8 lsn.toNat ++ (le 4 stored.toNat ++ (le 4 payload.length ++ (payload ++ rest)))) =
      .refused (.checksum lsn stored (frameChecksum lsn payload)) rest := by
  have hbound : payload.length < bound 4 := Nat.lt_of_le_of_lt hlen (by decide)
  have hopened := opened?_header_append lsn stored hbound (payload ++ rest)
  have hentry : ({ lsn, stored, length := payload.length, rest := payload ++ rest } : Opened).entry payload =
      .error (.checksum lsn stored (frameChecksum lsn payload)) := by
    rw [Opened.entry, if_pos hsum]
  simp only [head, hopened, if_neg (Nat.not_lt.2 hlen), split?_append, hentry]

/-- Frames are read up to a frame that is refused. -/
theorem Holds.scan_refused (h : Holds good log) (hhead : ∀ offset, head offset rest = .refused cause rest') :
    scan (good ++ rest) = { entries := log, length := good.length, ending := .refused cause } := by
  have hstop : scan rest (0 + good.length) =
      { entries := [], length := 0 + good.length, ending := .refused cause } := by
    rw [scan_eq, hhead]
  rw [h.scan_append, hstop, List.append_nil, Nat.zero_add]

theorem stops_of_refused (hhead : ∀ offset, head offset rest = .refused cause rest') : Stops rest := by
  intro offset e size rest₁ he
  rw [hhead] at he
  contradiction

/-! ### Frames with a changed byte -/

theorem frameChecksum_eq (lsn : UInt64) (payload : Bytes) :
    frameChecksum lsn payload = Checksum.crc32 (le 8 lsn.toNat ++ (le 4 payload.length ++ payload)) := rfl

/-- Another number in front of a payload has another checksum. -/
theorem exists_frameChecksum_of_set (hk : k < 8) (hb : (le 8 lsn.toNat)[k]? ≠ some b) (payload : Bytes) :
    ∃ lsn' : UInt64, (le 8 lsn.toNat).set k b = le 8 lsn'.toNat ∧
      frameChecksum lsn' payload ≠ frameChecksum lsn payload := by
  obtain ⟨n, hn, hset, -⟩ := exists_le_set hk hb
  rw [← UInt64.toNat_ofNat_of_lt' hn] at hset
  refine ⟨UInt64.ofNat n, hset, ?_⟩
  rw [frameChecksum_eq, frameChecksum_eq, ← hset, ← set_le_append_of_lt hk]
  apply Checksum.crc32_set_ne
  · rw [List.length_append, length_le]
    omega
  · rwa [getElem?_le_append_of_lt hk]

/-- A payload of the same length that differs in one byte has another checksum. -/
theorem frameChecksum_set_ne (hk : k < payload.length) (hb : payload[k]? ≠ some b) (lsn : UInt64) :
    frameChecksum lsn (payload.set k b) ≠ frameChecksum lsn payload := by
  rw [frameChecksum_eq, frameChecksum_eq, List.length_set, ← set_le_append_add 4 _ k payload b,
    ← set_le_append_add 8 _ (4 + k) _ b]
  apply Checksum.crc32_set_ne
  · simp only [List.length_append, length_le]
    omega
  · rwa [getElem?_le_append_add, getElem?_le_append_add]

namespace Entry.Fits

theorem head_set_number (h : e.Fits) (hk : k < 8) (hb : e.frame[k]? ≠ some b) (rest : Bytes) :
    ∃ cause, ∀ offset, head offset (e.frame.set k b ++ rest) = .refused cause rest := by
  rw [Entry.frame, encodeFrame] at hb ⊢
  rw [getElem?_le_append_of_lt hk] at hb
  obtain ⟨lsn', hset, hsum⟩ := exists_frameChecksum_of_set hk hb e.payload
  rw [set_le_append_of_lt hk, hset]
  simp only [List.append_assoc]
  exact ⟨_, fun offset => head_of_checksum_ne h hsum offset rest⟩

theorem head_set_checksum (h : e.Fits) (hk : k < 4) (hb : e.frame[8 + k]? ≠ some b) (rest : Bytes) :
    ∃ cause, ∀ offset, head offset (e.frame.set (8 + k) b ++ rest) = .refused cause rest := by
  rw [Entry.frame, encodeFrame] at hb ⊢
  rw [getElem?_le_append_add, getElem?_le_append_of_lt hk] at hb
  rw [set_le_append_add, set_le_append_of_lt hk]
  obtain ⟨stored, hset, hsum⟩ := Checksum.exists_le_set hk hb
  rw [hset]
  simp only [List.append_assoc]
  exact ⟨_, fun offset => head_of_checksum_ne h hsum offset rest⟩

theorem head_set_payload (h : e.Fits) (hk : k < e.payload.length) (hb : e.frame[16 + k]? ≠ some b)
    (rest : Bytes) :
    ∃ cause, ∀ offset, head offset (e.frame.set (16 + k) b ++ rest) = .refused cause rest := by
  rw [Entry.frame, encodeFrame, show 16 + k = 8 + (4 + (4 + k)) by omega] at hb ⊢
  rw [getElem?_le_append_add, getElem?_le_append_add, getElem?_le_append_add] at hb
  rw [set_le_append_add, set_le_append_add, set_le_append_add]
  have hlen : (e.payload.set k b).length ≤ maxPayload := by
    rw [List.length_set]
    exact h
  have hhead := head_of_checksum_ne hlen (frameChecksum_set_ne hk hb e.lsn)
  simp only [List.length_set] at hhead
  simp only [List.append_assoc]
  exact ⟨_, fun offset => hhead offset rest⟩

/-- A frame in which a byte of the number, of the checksum or of the payload is changed is refused. -/
theorem head_set (h : e.Fits) (hk : k < e.size) (houtside : k < 12 ∨ 16 ≤ k) (hb : e.frame[k]? ≠ some b)
    (rest : Bytes) :
    ∃ cause, ∀ offset, head offset (e.frame.set k b ++ rest) = .refused cause rest := by
  by_cases hnumber : k < 8
  · exact h.head_set_number hnumber hb rest
  · by_cases hstored : k < 12
    · obtain ⟨j, rfl⟩ := Nat.exists_eq_add_of_le (Nat.not_lt.1 hnumber)
      exact h.head_set_checksum (by omega) hb rest
    · obtain ⟨j, rfl⟩ := Nat.exists_eq_add_of_le (show 16 ≤ k by omega)
      rw [Entry.size, headerSize] at hk
      exact h.head_set_payload (by omega) hb rest

end Entry.Fits

/-! ### Recovery -/

theorem frames_split (hi : i < log.length) :
    frames log = frames (log.take i) ++ (log[i].frame ++ frames (log.drop (i + 1))) := by
  rw [← frames_cons, List.getElem_cons_drop, frames, frames, frames, ← List.flatMap_append,
    List.take_append_drop]

/-- The frames in front of a changed one are read, and reading stops there. -/
theorem scan_set (hfits : ∀ e ∈ log, e.Fits) (hi : i < log.length) (hk : k < log[i].size)
    (houtside : k < 12 ∨ 16 ≤ k) (hb : (frames log)[(frames (log.take i)).length + k]? ≠ some b) :
    ∃ rest cause, Stops rest ∧
      (frames log).set ((frames (log.take i)).length + k) b = frames (log.take i) ++ rest ∧
      scan (frames (log.take i) ++ rest) =
        { entries := log.take i, length := (frames (log.take i)).length, ending := .refused cause } := by
  have hfits' : ∀ e ∈ log.take i, e.Fits := fun e he => hfits e (List.mem_of_mem_take he)
  have hk' : k < log[i].frame.length := by
    rwa [Entry.length_frame]
  rw [frames_split hi, List.getElem?_append_right (Nat.le_add_right _ _), Nat.add_sub_cancel_left,
    List.getElem?_append_left hk'] at hb
  rw [frames_split hi, List.set_append_right _ _ (Nat.le_add_right _ _), Nat.add_sub_cancel_left,
    List.set_append_left _ _ hk']
  obtain ⟨cause, hhead⟩ := (hfits log[i] (List.getElem_mem hi)).head_set hk houtside hb
    (frames (log.drop (i + 1)))
  exact ⟨_, cause, stops_of_refused hhead, rfl, (holds_frames hfits').scan_refused hhead⟩

/-- When one byte of the frame behind the first `i` is replaced by another, and it is none of its length,
recovery gives the first `i` entries, counts one damaged entry and cuts the journal behind them. -/
theorem Written.recover_of_changed_byte (hw : Written path d w log) (hi : i < log.length)
    (hk : k < log[i].size) (houtside : k < 12 ∨ 16 ≤ k)
    (hb : (d.content w.file)[(frames (log.take i)).length + k]? ≠ some b) (hd : d.Rewrites d' w.file)
    (hchanged : d'.content w.file = (d.content w.file).set ((frames (log.take i)).length + k) b) :
    ∃ d₁, recover path d' = .ok (log.take i, reportOf (log.take i) 1 true) d₁ ∧
      d'.Rewrites d₁ w.file ∧ d₁.content w.file = (d.content w.file).take (frames (log.take i)).length := by
  have hend := hw.atEnd
  rw [hend.content] at hb hchanged
  obtain ⟨rest, cause, hstops, hset, hscan⟩ := scan_set hend.fits hi hk houtside hb
  have hholds : Holds (frames (log.take i)) (log.take i) :=
    holds_frames fun e he => hend.fits e (List.mem_of_mem_take he)
  rw [hset] at hchanged
  have hfile : d'.file path = .ok w.file := (hd.file_eq path).trans hend.file
  obtain ⟨d₁, hrecover, hrewrites, hcontent⟩ := hholds.recover hstops hchanged hfile
  rw [hchanged, hscan] at hrecover
  refine ⟨d₁, hrecover, hrewrites, ?_⟩
  rw [hcontent, hend.content, frames_split hi, List.take_left]

/-- A journal of one entry is empty after its payload was changed and it was recovered. -/
theorem recover_of_changed_key_length :
    ∃ (d d' d₁ : Disk) (w : Writer) (e : Entry),
      Written ["wal.log"] d w [e] ∧ e.operation = .put [1] [2] ∧
      d'.content w.file = (d.content w.file).set 20 255 ∧
      recover ["wal.log"] d' = .ok ([], reportOf [] 1 true) d₁ ∧ d₁.content w.file = [] := by
  have hplain : PlainName "wal.log" := .of_not_mem (by decide) (by decide) (by decide)
  have hprovide := Disk.provide_empty hplain (by decide)
  obtain ⟨w₀, d₀, hw₀⟩ := Written.exists_opened Disk.intact_empty (fun _ _ => rfl) hprovide .everyWrite
  have hloggable : (Operation.put [1] [2]).Loggable := by decide
  obtain ⟨w, d, hw⟩ := hw₀.exists_appended hloggable 0
  have hb : (d.content w.file)[0 + 20]? ≠ some 255 := by
    rw [hw.atEnd.content]
    decide +kernel
  have hchanged := Disk.content_change_ofBytes hw.atEnd.inside (·.set 20 255)
  obtain ⟨d₁, hrecover, -, hcontent⟩ := Written.recover_of_changed_byte hw (i := 0) (k := 20) (by decide)
    (by decide) (by decide) hb (d.rewrites_change w.file _) hchanged
  exact ⟨d, _, d₁, w, _, hw, rfl, hchanged, hrecover, hcontent⟩

end Journal

end KeyedStore
