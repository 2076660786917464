import KeyedStore.Error

/-!
# Frames

What travels in either direction is a sequence of frames: a tag of one byte, the length of the
payload in four bytes, most significant first, and the payload. A frame is read from a byte string
or taken from the front of a stream. A stream that announces too large a payload has lost the five
header bytes only, so that what follows them is the next frame.
-/

namespace KeyedStore.Frame

def headerSize : Nat := 5

def maxPayload : Nat := 16 * 1024 * 1024

def encode (tag : UInt8) (payload : Bytes) : Except Error Bytes :=
  if payload.length ≤ maxPayload then .ok (tag :: (Bytes.be 4 payload.length ++ payload))
  else .error (.wire (.payloadTooLarge payload.length maxPayload))

/-- The tag, the payload length and what follows, for a string that holds a whole header. -/
def header? : Bytes → Option (UInt8 × Nat × Bytes)
  | tag :: bs => (Bytes.readBE? 4 bs).map fun (length, rest) => (tag, length, rest)
  | [] => none

/-- The tag and the payload of the frame at the front of a string. -/
def decode (bs : Bytes) : Except Error (UInt8 × Bytes) :=
  match header? bs with
  | none => .error (.wire (.headerCut bs.length))
  | some (tag, length, rest) =>
    if length > maxPayload then .error (.wire (.payloadTooLarge length maxPayload))
    else
      match Bytes.split? length rest with
      | none => .error (.wire (.payloadCut (headerSize + length) bs.length))
      | some (payload, _) => .ok (tag, payload)

/-- Whether enough of a stream has arrived to take a frame, or to refuse it. -/
def ready (stream : Bytes) : Bool :=
  match header? stream with
  | none => false
  | some (_, length, rest) => length > maxPayload || length ≤ rest.length

/-- Takes one whole frame, header included, from the front of a stream. A stream that ends inside
the frame is used up. -/
def take (stream : Bytes) : Except Error Bytes × Bytes :=
  match header? stream with
  | none => (.error (.file .endOfData), [])
  | some (_, length, rest) =>
    if length > maxPayload then (.error (.wire (.payloadTooLarge length maxPayload)), rest)
    else
      match Bytes.split? length rest with
      | none => (.error (.file .endOfData), [])
      | some (payload, rest) => (.ok (stream.take headerSize ++ payload), rest)

/-- The number of bytes that are taken from a stream with the next frame. -/
def taken (stream : Bytes) : Nat :=
  match header? stream with
  | none => stream.length
  | some (_, length, rest) =>
    if length > maxPayload then headerSize
    else if length ≤ rest.length then headerSize + length
    else stream.length

theorem length_take_add_taken (stream : Bytes) :
    (take stream).2.length + taken stream = stream.length := by
  simp only [take, taken]
  cases stream with
  | nil => rfl
  | cons tag bs =>
    simp only [header?]
    cases h : Bytes.readBE? 4 bs with
    | none => simp
    | some read =>
      obtain ⟨length, rest⟩ := read
      have hr : bs.length = 4 + rest.length := by
        simp only [Bytes.readBE?, Option.map_eq_some_iff, Prod.mk.injEq, Prod.exists] at h
        obtain ⟨front, _, hs, _, rfl⟩ := h
        obtain ⟨rfl, hf⟩ := Bytes.split?_eq_some hs
        simp [hf]
      simp only [Option.map_some, List.length_cons, hr]
      split
      · simp only [headerSize]; omega
      · rw [Bytes.split?_eq]
        by_cases hl : length ≤ rest.length
        · simp only [hl, if_true, headerSize, List.length_drop]; omega
        · simp [hl]

/-- Takes one frame from a stream and decodes it. -/
def takeAs {α : Type} (decode : Bytes → Except Error α) (stream : Bytes) : Except Error α × Bytes :=
  let (frame, rest) := take stream
  (frame >>= decode, rest)

end KeyedStore.Frame
