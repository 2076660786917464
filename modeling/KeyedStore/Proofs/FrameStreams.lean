import KeyedStore.Proofs.CommandCodec
import KeyedStore.Service.Connection

/-!
# Streams of frames

A stream of bytes stands for the commands of its whole frames, up to its end or to the first frame that
is refused. A frame at the front is taken or refused as soon as enough of it is there, and what follows
has no say in it; so it does not matter in which pieces a stream arrives.
-/

namespace KeyedStore

open Bytes

variable {a stream rest : Bytes} {tag : UInt8} {length : Nat} {c : Command} {e : Error}

namespace Frame

theorem header?_eq_some (h : header? stream = some (tag, length, rest)) :
    ∃ front, stream = front ++ rest ∧ front.length = headerSize ∧ length < bound 4 ∧
      ∀ other, header? (front ++ other) = some (tag, length, other) := by
  obtain ⟨hbound, rfl⟩ := header?_eq_some_iff.1 h
  refine ⟨tag :: be 4 length, rfl, ?_, hbound, fun other => header?_eq_some_iff.2 ⟨hbound, rfl⟩⟩
  rw [List.length_cons, length_be, headerSize]

theorem ready_iff : ready stream = true ↔ ∃ tag length rest, header? stream = some (tag, length, rest) ∧
    (maxPayload < length ∨ length ≤ rest.length) := by
  rw [ready]
  cases header? stream with
  | none => simp
  | some header =>
    obtain ⟨tag, length, rest⟩ := header
    simp

theorem ready_append (h : ready a = true) (b : Bytes) : ready (a ++ b) = true := by
  obtain ⟨tag, length, rest, hheader, hlength⟩ := ready_iff.1 h
  obtain ⟨front, rfl, -, -, hfront⟩ := header?_eq_some hheader
  refine ready_iff.2 ⟨tag, length, rest ++ b, ?_, ?_⟩
  · rw [List.append_assoc, hfront]
  · rw [List.length_append]
    omega

/-- What follows a frame has no say in how it is taken. -/
theorem take_append (h : ready a = true) (b : Bytes) :
    take (a ++ b) = ((take a).1, (take a).2 ++ b) := by
  obtain ⟨tag, length, rest, hheader, hlength⟩ := ready_iff.1 h
  obtain ⟨front, rfl, hsize, -, hfront⟩ := header?_eq_some hheader
  have htake : ∀ other, (front ++ other).take headerSize = front := by
    intro other
    rw [← hsize, List.take_left]
  rw [List.append_assoc]
  simp only [take, hfront, htake]
  by_cases hlarge : length > maxPayload
  · simp only [if_pos hlarge]
  · have hle : length ≤ rest.length := by omega
    have hle' : length ≤ (rest ++ b).length := Nat.le_trans hle (by simp)
    simp only [if_neg hlarge, split?_eq, if_pos hle, if_pos hle', List.take_append_of_le_length hle,
      List.drop_append_of_le_length hle]

theorem length_take_lt (h : ready stream = true) : (take stream).2.length < stream.length := by
  have htaken := length_take_add_taken stream
  obtain ⟨tag, length, rest, hheader, hlength⟩ := ready_iff.1 h
  have hpos : headerSize ≤ taken stream := by
    simp only [taken, hheader]
    split
    · exact Nat.le_refl _
    · rw [if_pos (by omega)]
      exact Nat.le_add_right _ _
  rw [headerSize] at hpos
  omega

end Frame

namespace Command

theorem take_append (h : Frame.ready a = true) (b : Bytes) :
    take (a ++ b) = ((take a).1, (take a).2 ++ b) := by
  simp only [take, Frame.takeAs, Frame.take_append h]

theorem length_take_lt (h : Frame.ready stream = true) : (take stream).2.length < stream.length :=
  Frame.length_take_lt h

/-- The commands at the front of a stream, up to its end or to the first frame that is refused, and the
cause of the refusal if there is one. A frame of which a part is missing says nothing. -/
def readAll (stream : Bytes) : List Command × Option Error :=
  if _h : Frame.ready stream = true then
    match (take stream).1 with
    | .ok c =>
      let later := readAll (take stream).2
      (c :: later.1, later.2)
    | .error e => ([], some e)
  else ([], none)
termination_by stream.length
decreasing_by exact length_take_lt _h

end Command

/-! ### Arrivals -/

namespace Incoming

variable {limit : Option Nat} {arrived arrived' : Bytes} {incoming incoming' : Incoming}

/-- The bytes that a client will send, however it cuts them into pieces. -/
def bytes : Incoming → Bytes
  | silence | ends _ => []
  | sends _ first rest later => first :: rest ++ later.bytes

/-- The client ends its side of the connection at last. -/
def Closes : Incoming → Prop
  | silence => False
  | ends _ => True
  | sends _ _ _ later => later.Closes

/-- The times that a client waits, one after the other. -/
def waits : Incoming → List Nat
  | silence => []
  | ends wait => [wait]
  | sends wait _ _ later => wait :: later.waits

/-- The client pauses for a time, or for good, before enough of a frame is there. -/
def Stalls (limit : Nat) (arrived : Bytes) (incoming : Incoming) : Prop :=
  Frame.ready arrived = false ∧
    match incoming with
    | silence => True
    | ends wait => limit ≤ wait
    | sends wait first rest later => limit ≤ wait ∨ later.Stalls limit (arrived ++ first :: rest)

/-- What is awaited for a frame is taken from the front of what is to come. -/
theorem awaitFrame_eq_some (h : awaitFrame limit arrived incoming = some (arrived', incoming')) :
    Frame.ready arrived' = true ∧ arrived' ++ incoming'.bytes = arrived ++ incoming.bytes ∧
      incoming'.waits <:+ incoming.waits ∧ (incoming.Closes → incoming'.Closes) := by
  induction incoming generalizing arrived with
  | silence =>
    rw [awaitFrame] at h
    split at h
    · next hready =>
      cases h
      exact ⟨hready, rfl, List.suffix_refl _, id⟩
    · contradiction
  | ends wait =>
    rw [awaitFrame] at h
    split at h
    · next hready =>
      cases h
      exact ⟨hready, rfl, List.suffix_refl _, id⟩
    · contradiction
  | sends wait first rest later ih =>
    rw [awaitFrame] at h
    split at h
    · next hready =>
      cases h
      exact ⟨hready, rfl, List.suffix_refl _, id⟩
    · split at h
      · contradiction
      · obtain ⟨hready, hbytes, hwaits, hcloses⟩ := ih h
        refine ⟨hready, ?_, hwaits.trans (List.suffix_cons _ _), hcloses⟩
        rw [hbytes, bytes, List.append_assoc]

end Incoming

end KeyedStore
