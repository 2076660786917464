import KeyedStore.Proofs.JournalFrames
import KeyedStore.Wire.Command
import KeyedStore.Wire.Response
import Mathlib.Data.Nat.Digits.Defs

/-!
# Sizes on the wire

What a frame carries bounds the command that is read from it, and with it whatever a store makes of the
command. The messages that answer a refused frame or a key that is too long are short, so that every one
of them fits a frame.
-/

namespace KeyedStore

open Bytes

variable {n k : Nat} {s s' : String}

/-! ### Messages -/

theorem Utf8.length_encode (s : String) : (encode s).length = s.utf8ByteSize := by
  have hloop : ∀ (bs : ByteArray) (i : Nat) (done : Bytes),
      (ByteArray.toList.loop bs i done).length = done.length + (bs.size - i) := by
    intro bs i done
    fun_induction ByteArray.toList.loop bs i done with
    | case1 i done h ih =>
      rw [ih, List.length_cons]
      omega
    | case2 i done h =>
      rw [List.length_reverse]
      omega
  rw [encode, ByteArray.toList, hloop, List.length_nil, Nat.zero_add, Nat.sub_zero]
  rfl

theorem utf8ByteSize_ofList_le (cs : List Char) :
    (String.ofList cs).utf8ByteSize ≤ 4 * cs.length := by
  induction cs with
  | nil => exact Nat.zero_le _
  | cons c cs ih =>
    have hc := c.utf8Size_le_four
    rw [String.ofList_cons, String.utf8ByteSize_append, String.utf8ByteSize_singleton, List.length_cons]
    omega

theorem utf8ByteSize_toString_le (h : n < bound 8) : (toString n).utf8ByteSize ≤ 80 := by
  have hdigits : (Nat.toDigits 10 n).length ≤ 20 :=
    Nat.toDigits_length 10 n 20 (by decide) (Nat.lt_trans h (by decide))
  have hsize := utf8ByteSize_ofList_le (Nat.toDigits 10 n)
  change (String.ofList (Nat.toDigits 10 n)).utf8ByteSize ≤ 80
  omega

theorem utf8ByteSize_append_le (hs : s.utf8ByteSize ≤ n) (hs' : s'.utf8ByteSize ≤ k) :
    (s ++ s').utf8ByteSize ≤ n + k := by
  rw [String.utf8ByteSize_append]
  exact Nat.add_le_add hs hs'

/-- What a frame can be refused for, with the numbers that it can state. -/
def WireFault.Refuses : WireFault → Prop
  | payloadTooLarge length limit => length < bound 4 ∧ limit = Frame.maxPayload
  | unknownCommand _ | emptyKey _ | setHeaderCut => True
  | setKeyLength length remaining => length < bound 4 ∧ remaining ≤ Frame.maxPayload
  | pingPayload length => length ≤ Frame.maxPayload
  | headerCut _ | payloadCut _ _ | unknownStatus _ | setKeyTooLong _ => False

theorem lt_bound_of_le_maxPayload (h : n ≤ Frame.maxPayload) : n < bound 8 :=
  Nat.lt_of_le_of_lt h (by decide)

namespace Response

theorem encode_of_le {r : Response} (h : (r.payload.getD []).length ≤ Frame.maxPayload) :
    ∃ frame, r.encode = .ok frame := by
  rw [encode, Frame.encode, if_pos h]
  exact ⟨_, rfl⟩

theorem encode_ofMessage (h : s.utf8ByteSize ≤ Frame.maxPayload) :
    ∃ frame, (ofMessage s).encode = .ok frame := by
  refine encode_of_le ?_
  rw [ofMessage, Option.getD_some, Utf8.length_encode]
  exact h

theorem encode_keyTooLong (h : n ≤ Frame.maxPayload) :
    ∃ frame, (ofMessage (Error.keyTooLong n).message).encode = .ok frame := by
  have hlength := utf8ByteSize_toString_le (lt_bound_of_le_maxPayload h)
  refine encode_ofMessage ?_
  change ("Key too long: " ++ toString n ++ " bytes").utf8ByteSize ≤ Frame.maxPayload
  refine Nat.le_trans (utf8ByteSize_append_le (utf8ByteSize_append_le (Nat.le_refl _) hlength)
    (Nat.le_refl _)) ?_
  decide

end Response

/-! ### Commands -/

theorem Bytes.length_of_readBE? {w : Nat} {bs rest : Bytes} (h : readBE? w bs = some (n, rest)) :
    n < bound w ∧ bs.length = w + rest.length := by
  obtain ⟨hbound, rfl⟩ := readBE?_eq_some_iff.1 h
  refine ⟨hbound, ?_⟩
  rw [List.length_append, length_be]

namespace Command

variable {bs payload key value : Bytes} {flags : UInt32} {c : Command}

/-- What a command carries besides its kind fits the payload of one frame. -/
def Sized : Command → Prop
  | get key | delete key | contains key => key.length ≤ Frame.maxPayload
  | set key _ value => 8 + key.length + value.length ≤ Frame.maxPayload
  | ping => True

/-- What reading a whole frame comes to: a command that the frame has room for, or a fault that it can
be refused for. -/
def Readable : Except Error Command → Prop
  | .ok c => c.Sized
  | .error e => ∃ fault, e = .wire fault ∧ fault.Refuses

theorem readable_decodeKey (kind : CommandKind) (make : Bytes → Command)
    (hmake : (make payload).Sized) : Readable (do return make (← decodeKey kind payload)) := by
  rw [decodeKey]
  cases payload.isEmpty with
  | true => exact ⟨_, rfl, trivial⟩
  | false => exact hmake

theorem readable_decodeSet (hp : payload.length ≤ Frame.maxPayload) : Readable (decodeSet payload) := by
  rw [decodeSet]
  cases hflags : readBE? 4 payload with
  | none => exact ⟨_, rfl, trivial⟩
  | some read =>
    obtain ⟨flags, rest⟩ := read
    obtain ⟨-, hrest⟩ := length_of_readBE? hflags
    simp only [Option.bind_some]
    cases hlength : readBE? 4 rest with
    | none => exact ⟨_, rfl, trivial⟩
    | some read =>
      obtain ⟨length, back⟩ := read
      obtain ⟨hbound, hback⟩ := length_of_readBE? hlength
      have hrefuses : (WireFault.setKeyLength length back.length).Refuses := ⟨hbound, by omega⟩
      simp only [Option.map_some]
      cases hsplit : split? length back with
      | none => exact ⟨_, rfl, hrefuses⟩
      | some parts =>
        obtain ⟨key, value⟩ := parts
        obtain ⟨rfl, -⟩ := split?_eq_some hsplit
        dsimp only
        split
        · exact ⟨_, rfl, hrefuses⟩
        · rw [List.length_append] at hback
          change 8 + key.length + value.length ≤ Frame.maxPayload
          omega

theorem readable_ofPayload (kind : CommandKind) (hp : payload.length ≤ Frame.maxPayload) :
    Readable (ofPayload kind payload) := by
  cases kind with
  | get => exact readable_decodeKey .get .get hp
  | delete => exact readable_decodeKey .delete .delete hp
  | contains => exact readable_decodeKey .contains .contains hp
  | set => exact readable_decodeSet hp
  | ping =>
    rw [ofPayload]
    split
    · trivial
    · exact ⟨_, rfl, hp⟩

theorem length_of_frame {tag : UInt8} (h : Frame.decode bs = .ok (tag, payload)) :
    payload.length ≤ Frame.maxPayload := by
  rw [Frame.decode] at h
  split at h
  · contradiction
  · split at h
    · contradiction
    · next hlength =>
      split at h
      · contradiction
      · next hsplit =>
        cases h
        obtain ⟨-, rfl⟩ := split?_eq_some hsplit
        exact Nat.le_of_not_lt hlength

/-- A decoded command is one that a frame has room for. -/
theorem sized_of_decode (h : decode bs = .ok c) : c.Sized := by
  rw [decode] at h
  cases hframe : Frame.decode bs with
  | error e =>
    rw [hframe] at h
    contradiction
  | ok frame =>
    obtain ⟨tag, payload⟩ := frame
    have hp := length_of_frame hframe
    simp only [hframe, bind, Except.bind] at h
    split at h
    · next kind _ =>
      have hread := readable_ofPayload kind hp
      rw [h] at hread
      exact hread
    · contradiction

end Command

end KeyedStore
