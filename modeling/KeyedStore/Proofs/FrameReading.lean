import KeyedStore.Wire.Response
import KeyedStore.Proofs.CommandCodec

/-!
# Reading frames from a stream and from a string

What is read from the front of a stream is what is decoded from the same bytes, and exactly the frame is
taken, or its header if it declares too large a payload. Only where the frame is not all there do the two
differ, in the kind of error. So a frame that is refused does not disturb the frames behind it.
-/

namespace KeyedStore

open Bytes

variable {bs frame payload : Bytes} {tag : UInt8} {err : Error}

namespace Frame

variable {α : Type} {decode : Bytes → Except Error α} {ofFrame : UInt8 × Bytes → Except Error α}

/-- The length that the header of a frame declares for its payload. -/
def declared (bs : Bytes) : Nat := ofBE ((bs.drop 1).take 4)

/-- The number of bytes that are read of a frame: its header only if it declares too large a payload. -/
def readSize (bs : Bytes) : Nat :=
  if declared bs ≤ maxPayload then headerSize + declared bs else headerSize

/-- A string that holds all that is read of the frame at its front. -/
def Complete (bs : Bytes) : Prop := headerSize ≤ bs.length ∧ readSize bs ≤ bs.length

/-! ### Headers -/

theorem header?_of_le (h : headerSize ≤ bs.length) :
    ∃ tag, header? bs = some (tag, declared bs, bs.drop headerSize) := by
  cases bs with
  | nil => contradiction
  | cons tag bs =>
    have hnumber : 4 ≤ bs.length := Nat.le_of_succ_le_succ h
    refine ⟨tag, ?_⟩
    simp only [header?, readBE?, split?_eq, if_pos hnumber]
    rfl

theorem header?_of_lt (h : bs.length < headerSize) : header? bs = none := by
  cases bs with
  | nil => rfl
  | cons tag bs =>
    have hnumber : ¬ 4 ≤ bs.length := Nat.not_le.2 (Nat.lt_of_succ_lt_succ h)
    simp only [header?, readBE?, split?_eq, if_neg hnumber]
    rfl

theorem header?_of_whole (h : headerSize + declared bs ≤ bs.length) :
    declared bs ≤ (bs.drop headerSize).length ∧
      ∃ tag, header? bs = some (tag, declared bs, bs.drop headerSize) := by
  refine ⟨?_, header?_of_le (Nat.le_trans (Nat.le_add_right _ _) h)⟩
  rw [List.length_drop]
  omega

/-! ### One frame -/

theorem decode_of_oversized (h : headerSize ≤ bs.length) (hlarge : ¬ declared bs ≤ maxPayload) :
    Frame.decode bs = .error (.wire (.payloadTooLarge (declared bs) maxPayload)) := by
  obtain ⟨tag, hheader⟩ := header?_of_le h
  simp only [Frame.decode, hheader, if_pos (Nat.lt_of_not_le hlarge)]

theorem take_of_oversized (h : headerSize ≤ bs.length) (hlarge : ¬ declared bs ≤ maxPayload) :
    Frame.take bs =
      (.error (.wire (.payloadTooLarge (declared bs) maxPayload)), bs.drop headerSize) := by
  obtain ⟨tag, hheader⟩ := header?_of_le h
  simp only [Frame.take, hheader, if_pos (Nat.lt_of_not_le hlarge)]

theorem take_of_whole (hsize : declared bs ≤ maxPayload) (h : headerSize + declared bs ≤ bs.length) :
    Frame.take bs = (.ok (bs.take (headerSize + declared bs)), bs.drop (headerSize + declared bs)) := by
  obtain ⟨hwhole, tag, hheader⟩ := header?_of_whole h
  simp only [Frame.take, hheader, if_neg (Nat.not_lt.2 hsize), split?_eq, if_pos hwhole, List.take_add,
    List.drop_drop]

/-- What follows a frame has no say in how it is decoded. -/
theorem decode_take_whole (hsize : declared bs ≤ maxPayload) (h : headerSize + declared bs ≤ bs.length) :
    Frame.decode (bs.take (headerSize + declared bs)) = Frame.decode bs := by
  obtain ⟨hwhole, tag, hheader⟩ := header?_of_whole h
  have hdecode : Frame.decode bs = .ok (tag, (bs.drop headerSize).take (declared bs)) := by
    simp only [Frame.decode, hheader, if_neg (Nat.not_lt.2 hsize), split?_eq, if_pos hwhole]
  obtain ⟨frame, hencode, hfront⟩ := decode_eq_ok_iff.1 hdecode
  have hlength : frame.length = headerSize + declared bs := by
    obtain ⟨-, rfl⟩ := encode_eq_ok_iff.1 hencode
    rw [List.length_cons, List.length_append, length_be, List.length_take_of_le hwhole, headerSize]
    omega
  rw [hdecode, ← hlength, ← List.prefix_iff_eq_take.1 hfront]
  exact decode_eq_ok_iff.2 ⟨frame, hencode, List.prefix_refl frame⟩

theorem cut_of_not_complete (h : ¬ Complete bs) (hheader : headerSize ≤ bs.length) :
    declared bs ≤ maxPayload ∧ ¬ declared bs ≤ (bs.drop headerSize).length := by
  unfold Complete readSize at h
  rw [List.length_drop]
  split at h <;> omega

theorem take_of_not_complete (h : ¬ Complete bs) : Frame.take bs = (.error (.file .endOfData), []) := by
  by_cases hheader : headerSize ≤ bs.length
  · obtain ⟨hsize, hcut⟩ := cut_of_not_complete h hheader
    obtain ⟨tag, hsome⟩ := header?_of_le hheader
    simp only [Frame.take, hsome, if_neg (Nat.not_lt.2 hsize), split?_eq, if_neg hcut]
  · simp only [Frame.take, header?_of_lt (Nat.lt_of_not_le hheader)]

theorem decode_of_not_complete (h : ¬ Complete bs) : ∃ fault, Frame.decode bs = .error (.wire fault) := by
  by_cases hheader : headerSize ≤ bs.length
  · obtain ⟨hsize, hcut⟩ := cut_of_not_complete h hheader
    obtain ⟨tag, hsome⟩ := header?_of_le hheader
    refine ⟨.payloadCut (headerSize + declared bs) bs.length, ?_⟩
    simp only [Frame.decode, hsome, if_neg (Nat.not_lt.2 hsize), split?_eq, if_neg hcut]
  · refine ⟨.headerCut bs.length, ?_⟩
    simp only [Frame.decode, header?_of_lt (Nat.lt_of_not_le hheader)]

theorem fault_of_decode (h : Frame.decode bs = .error err) : ∃ fault, err = .wire fault := by
  unfold Frame.decode at h
  split at h
  · cases h
    exact ⟨_, rfl⟩
  · split at h
    · cases h
      exact ⟨_, rfl⟩
    · split at h
      · cases h
        exact ⟨_, rfl⟩
      · contradiction

/-- A frame is as long as its header says, whatever follows it. -/
theorem size_of_encode (h : encode tag payload = .ok frame) (rest : Bytes) :
    headerSize + declared (frame ++ rest) = frame.length ∧ declared (frame ++ rest) = payload.length := by
  obtain ⟨hsize, rfl⟩ := encode_eq_ok_iff.1 h
  have hbound : payload.length < bound 4 := Nat.lt_of_le_of_lt hsize (by decide)
  have hdeclared : declared (tag :: (be 4 payload.length ++ payload) ++ rest) = payload.length := by
    rw [declared, List.cons_append, List.drop_one, List.tail_cons, List.append_assoc,
      List.take_left' (length_be 4 _), ofBE_be hbound]
  refine ⟨?_, hdeclared⟩
  rw [hdeclared, List.length_cons, List.length_append, length_be, headerSize]
  omega

theorem take_frame (h : encode tag payload = .ok frame) (rest : Bytes) :
    Frame.take (frame ++ rest) = (.ok frame, rest) := by
  obtain ⟨hlength, hdeclared⟩ := size_of_encode h rest
  have hwhole : headerSize + declared (frame ++ rest) ≤ (frame ++ rest).length := by
    rw [hlength, List.length_append]
    exact Nat.le_add_right _ _
  rw [take_of_whole (hdeclared ▸ (encode_eq_ok_iff.1 h).1) hwhole, hlength, List.take_left, List.drop_left]

/-! ### Many frames -/

/-- What is read, one after the other, from a stream. -/
def takeMany (take : Bytes → Except Error α × Bytes) : Nat → Bytes → List (Except Error α)
  | 0, _ => []
  | n + 1, stream => (take stream).1 :: takeMany take n (take stream).2

/-- Taking from a stream and decoding a string agree: in what they find, and how far they go. -/
structure Agrees (take : Bytes → Except Error α × Bytes) (decode : Bytes → Except Error α) : Prop where
  /-- Of all that is read of a frame the same is taken and decoded. -/
  complete : ∀ bs, Complete bs → take bs = (decode bs, bs.drop (readSize bs))
  refused : ∀ bs err, decode bs = .error err → ∃ fault, err = .wire fault
  /-- A frame that is not all there is an end of data for the one and a fault for the other. -/
  incomplete : ∀ bs, ¬ Complete bs →
    (take bs).1 = .error (.file .endOfData) ∧ ∃ fault, decode bs = .error (.wire fault)
  /-- From frames one behind the other all are taken, those that are refused as well. -/
  many : ∀ frames : List Bytes, (∀ frame ∈ frames, ∃ tag payload, encode tag payload = .ok frame) →
    takeMany take (frames.length + 1) frames.flatten =
      frames.map decode ++ [.error (.file .endOfData)]

section

variable (hdecode : ∀ bs, decode bs = Frame.decode bs >>= ofFrame)

include hdecode

theorem takeAs_of_complete (h : Complete bs) : takeAs decode bs = (decode bs, bs.drop (readSize bs)) := by
  obtain ⟨hheader, hread⟩ := h
  by_cases hsize : declared bs ≤ maxPayload
  · rw [readSize, if_pos hsize] at hread ⊢
    have hsame : decode (bs.take (headerSize + declared bs)) = decode bs := by
      rw [hdecode, hdecode, decode_take_whole hsize hread]
    simp only [takeAs, take_of_whole hsize hread, bind, Except.bind, hsame]
  · rw [readSize, if_neg hsize]
    have hsame := hdecode bs
    rw [decode_of_oversized hheader hsize] at hsame
    simp only [takeAs, take_of_oversized hheader hsize, hsame]
    rfl

theorem agrees_takeAs (hrefused : ∀ tag payload err, payload.length ≤ maxPayload →
    ofFrame (tag, payload) = .error err → ∃ fault, err = .wire fault) :
    Agrees (takeAs decode) decode where
  complete _ h := takeAs_of_complete hdecode h
  refused bs err h := by
    rw [hdecode] at h
    cases hframe : Frame.decode bs with
    | error err' =>
      rw [hframe] at h
      cases h
      exact fault_of_decode hframe
    | ok parts =>
      rw [hframe] at h
      exact hrefused parts.1 parts.2 err (Command.length_of_frame hframe) h
  incomplete bs h := by
    obtain ⟨fault, hfault⟩ := decode_of_not_complete h
    rw [hdecode, hfault, takeAs, take_of_not_complete h]
    exact ⟨rfl, fault, rfl⟩
  many frames h := by
    induction frames with
    | nil => rfl
    | cons frame frames ih =>
      obtain ⟨⟨tag, payload, hframe⟩, hframes⟩ := List.forall_mem_cons.1 h
      have htake : takeAs decode (frame ++ frames.flatten) = (decode frame, frames.flatten) := by
        rw [takeAs, take_frame hframe]
        rfl
      rw [List.length_cons, takeMany, List.flatten_cons, htake, ih hframes]
      rfl

end

end Frame

/-- A command is taken from a stream as it is decoded from a string, and so is a response. -/
theorem Frame.taking_agrees_with_decoding :
    Agrees Command.take Command.decode ∧ Agrees Response.take Response.decode := by
  constructor
  · apply agrees_takeAs fun _ => rfl
    intro tag payload err hsize h
    dsimp only at h
    split at h
    · next kind hkind =>
      have hread := Command.readable_ofPayload kind hsize
      rw [h] at hread
      obtain ⟨fault, hfault, -⟩ := hread
      exact ⟨fault, hfault⟩
    · cases h
      exact ⟨_, rfl⟩
  · apply agrees_takeAs fun _ => rfl
    intro tag payload err hsize h
    dsimp only at h
    split at h
    · contradiction
    · cases h
      exact ⟨_, rfl⟩

end KeyedStore
