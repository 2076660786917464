import KeyedStore.Proofs.FrameReading

/-!
# Reading and writing responses

A response is read from a string exactly if its written form is at the front of the string and its payload,
if it has one, is not empty. An empty payload is written like none and so is read back as none; but neither
the status nor the flags and the value that a client looks for differ between the two.
-/

namespace KeyedStore

open Bytes

variable {bs rest payload frame value : Bytes} {flags : UInt32} {tag : UInt8} {r : Response}

theorem Status.ofCode?_eq_some_iff {status : Status} : ofCode? tag = some status ↔ tag = status.code := by
  constructor
  · intro h
    unfold ofCode? at h
    split at h
    · next htag => cases h; exact htag
    · split at h
      · next htag => cases h; exact htag
      · split at h
        · next htag => cases h; exact htag
        · contradiction
  · rintro rfl
    cases status <;> rfl

namespace Response

/-! ### Flags and values -/

/-- A response carries some flags and a value exactly if it was made for them. -/
theorem value?_eq_some_iff : r.value? = some (flags, value) ↔ r = ofValue flags value := by
  constructor
  · intro h
    obtain ⟨status, payload⟩ := r
    rw [value?] at h
    split at h
    · next found hstatus hpayload =>
      cases hstatus
      cases hpayload
      simp only [Option.map_eq_some_iff, Prod.exists, Prod.mk.injEq, readBE?_eq_some_iff] at h
      obtain ⟨n, _, ⟨hn, rfl⟩, rfl, rfl⟩ := h
      rw [ofValue, UInt32.toNat_ofNat_of_lt' hn]
    · contradiction
  · rintro rfl
    simp only [value?, ofValue, readBE?_be_append (toNat_lt_bound_four flags), Option.map_some,
      UInt32.ofNat_toNat]

theorem value?_of_empty (h : r.payload = some []) : r.value? = none := by
  by_contra hne
  obtain ⟨⟨flags, value⟩, hvalue⟩ := Option.ne_none_iff_exists'.1 hne
  -- Four bytes of flags stand in front of every value.
  rw [value?_eq_some_iff.1 hvalue, ofValue, Option.some.injEq] at h
  have hlength := congrArg List.length h
  rw [List.length_append, length_be] at hlength
  exact absurd hlength (by simp)

/-! ### What is read back -/

/-- A response as it is read from its written form: an empty payload comes back as none. -/
def received (r : Response) : Response :=
  { status := r.status, payload := if r.payload = some [] then none else r.payload }

theorem payload_received_ne (r : Response) : r.received.payload ≠ some [] := by
  rw [received]
  dsimp only
  split
  · exact nofun
  · assumption

theorem received_of_ne (h : r.payload ≠ some []) : r.received = r := by
  rw [received, if_neg h]

theorem encode_received (r : Response) : r.received.encode = r.encode := by
  rw [encode, encode, received]
  by_cases h : r.payload = some []
  · rw [if_pos h, h]
    rfl
  · rw [if_neg h]

theorem value?_received (r : Response) : r.received.value? = r.value? := by
  by_cases h : r.payload = some []
  · rw [value?_of_empty h, received, if_pos h]
    cases r.status <;> rfl
  · rw [received_of_ne h]

theorem received_ofValue (flags : UInt32) (value : Bytes) :
    (ofValue flags value).received = ofValue flags value := by
  apply received_of_ne
  intro h
  have hvalue := value?_of_empty h
  rw [value?_eq_some_iff.2 rfl] at hvalue
  contradiction

/-! ### Reading and writing -/

/-- A response is read from a string exactly if its written form is at the front and its payload, if it
has one, is not empty. -/
theorem decode_eq_ok_iff : decode bs = .ok r ↔
    r.payload ≠ some [] ∧ ∃ frame, r.encode = .ok frame ∧ frame <+: bs := by
  constructor
  · intro h
    rw [decode] at h
    cases hframe : Frame.decode bs with
    | error e =>
      rw [hframe] at h
      contradiction
    | ok found =>
      obtain ⟨tag, payload⟩ := found
      have hwritten := Frame.decode_eq_ok_iff.1 hframe
      simp only [hframe, bind, Except.bind] at h
      split at h
      · next status hstatus =>
        obtain rfl := Status.ofCode?_eq_some_iff.1 hstatus
        cases h
        cases payload with
        | nil => exact ⟨nofun, hwritten⟩
        | cons b payload => exact ⟨by simp, hwritten⟩
      · contradiction
  · rintro ⟨hne, hwritten⟩
    have hdecode := Frame.decode_eq_ok_iff.2 hwritten
    have hstatus : Status.ofCode? r.status.code = some r.status := Status.ofCode?_eq_some_iff.2 rfl
    simp only [decode, hdecode, bind, Except.bind, hstatus]
    obtain ⟨status, _ | _ | ⟨b, payload⟩⟩ := r
    · rfl
    · exact absurd rfl hne
    · rfl

/-- What is read is written as the bytes that it was read from, which are those of its frame. -/
theorem encode_of_decode (h : decode bs = .ok r) : Frame.headerSize + Frame.declared bs ≤ bs.length ∧
    r.encode = .ok (bs.take (Frame.headerSize + Frame.declared bs)) := by
  obtain ⟨-, frame, hencode, rest, rfl⟩ := decode_eq_ok_iff.1 h
  rw [(Frame.size_of_encode hencode rest).1, List.take_left, List.length_append]
  exact ⟨Nat.le_add_right _ _, hencode⟩

/-- Whatever follows it, a response that a frame has room for is read from its written form. -/
theorem decode_written (h : (r.payload.getD []).length ≤ Frame.maxPayload) (rest : Bytes) :
    ∃ frame, r.encode = .ok frame ∧ decode (frame ++ rest) = .ok r.received := by
  obtain ⟨frame, hencode⟩ := encode_of_le h
  refine ⟨frame, hencode, decode_eq_ok_iff.2 ⟨r.payload_received_ne, frame, ?_, List.prefix_append _ _⟩⟩
  rw [encode_received, hencode]

/-- Reading a response and writing it undo each other, but for an empty payload, which is read back as
none. A response that was read is written as the bytes of its frame. A response that a frame has room
for is read back with its status, its payload and what a client makes of it, and one that was made for
flags and a value is read back as it is. -/
theorem decode_inverts_encode :
    (∀ bs r, decode bs = .ok r → Frame.headerSize + Frame.declared bs ≤ bs.length ∧
      r.encode = .ok (bs.take (Frame.headerSize + Frame.declared bs))) ∧
    (∀ (r : Response) rest, (r.payload.getD []).length ≤ Frame.maxPayload → ∃ frame back,
      r.encode = .ok frame ∧ decode (frame ++ rest) = .ok back ∧ back.status = r.status ∧
      back.payload = (if r.payload = some [] then none else r.payload) ∧ back.value? = r.value?) ∧
    ∀ flags value rest, 4 + value.length ≤ Frame.maxPayload → ∃ frame back,
      (ofValue flags value).encode = .ok frame ∧ decode (frame ++ rest) = .ok back ∧
      back.value? = some (flags, value) := by
  refine ⟨fun bs r h => encode_of_decode h, ?_, ?_⟩
  · intro r rest h
    obtain ⟨frame, hencode, hdecode⟩ := decode_written h rest
    exact ⟨frame, r.received, hencode, hdecode, rfl, rfl, r.value?_received⟩
  · intro flags value rest h
    have hroom : ((ofValue flags value).payload.getD []).length ≤ Frame.maxPayload := by
      rwa [ofValue, Option.getD_some, List.length_append, length_be]
    obtain ⟨frame, hencode, hdecode⟩ := decode_written hroom rest
    rw [received_ofValue] at hdecode
    exact ⟨frame, _, hencode, hdecode, value?_eq_some_iff.2 rfl⟩

/-- A hit with an empty value, and an error with an empty message. -/
theorem decode_inverts_encode_of_empty_value :
    (∃ frame back, (ofValue 7 []).encode = .ok frame ∧ frame.length = 9 ∧
      decode (frame ++ [9, 9]) = .ok back ∧ back.value? = some (7, []) ∧
      back.encode = .ok ((frame ++ [9, 9]).take 9)) ∧
    ∃ frame back, encode { status := .error, payload := some [] } = .ok frame ∧
      decode (frame ++ [0]) = .ok back ∧ back.status = .error ∧ back.payload = none := by
  obtain ⟨hread, hwritten, hvalue⟩ := decode_inverts_encode
  obtain ⟨frame, back, hencode, hdecode, hback⟩ := hvalue 7 [] [9, 9] (by decide)
  obtain ⟨-, hagain⟩ := hread _ _ hdecode
  obtain ⟨frame', back', hencode', hdecode', hstatus, hpayload, -⟩ :=
    hwritten { status := .error, payload := some [] } [0] (by decide)
  have hframe : (ofValue 7 []).encode = .ok [0, 0, 0, 0, 4, 0, 0, 0, 7] := by decide
  rw [hframe] at hencode
  cases hencode
  exact ⟨⟨_, back, hframe, rfl, hdecode, hback, hagain⟩, frame', back', hencode', hdecode', hstatus,
    hpayload⟩

end Response

end KeyedStore
