import KeyedStore.Proofs.WireSizes

/-!
# Reading and writing commands

A command is read from a string exactly if its written form is at the front of the string and its key, if
it has one, is not empty. So reading and writing undo each other, and a command has one written form. A
command is refused by the writer only if its payload exceeds what a frame can hold.
-/

namespace KeyedStore

open Bytes

variable {bs rest payload frame key value : Bytes} {flags : UInt32} {tag : UInt8} {n : Nat} {c : Command}

/-! ### Frames -/

namespace Frame

theorem encode_eq_ok_iff : encode tag payload = .ok frame ↔
    payload.length ≤ maxPayload ∧ frame = tag :: (be 4 payload.length ++ payload) := by
  rw [encode]
  by_cases h : payload.length ≤ maxPayload
  · rw [if_pos h]
    simp only [Except.ok.injEq, h, true_and, eq_comm]
  · rw [if_neg h]
    simp [h]

theorem header?_eq_some_iff : header? bs = some (tag, n, rest) ↔
    n < bound 4 ∧ bs = tag :: (be 4 n ++ rest) := by
  cases bs with
  | nil => simp [header?]
  | cons first bs =>
    simp only [header?, Option.map_eq_some_iff, Prod.mk.injEq, Prod.exists, readBE?_eq_some_iff,
      List.cons.injEq]
    constructor
    · rintro ⟨n', rest', h, rfl, rfl, rfl⟩
      exact ⟨h.1, rfl, h.2⟩
    · rintro ⟨hn, rfl, h⟩
      exact ⟨n, rest, ⟨hn, h⟩, rfl, rfl, rfl⟩

/-- A string begins with a frame exactly if it begins with the written form of what the frame holds. -/
theorem decode_eq_ok_iff : decode bs = .ok (tag, payload) ↔ ∃ frame, encode tag payload = .ok frame ∧
    frame <+: bs := by
  constructor
  · intro h
    rw [decode] at h
    split at h
    · contradiction
    · next tag' length rest hheader =>
      obtain ⟨-, rfl⟩ := header?_eq_some_iff.1 hheader
      split at h
      · contradiction
      · next hle =>
        split at h
        · contradiction
        · next payload' rest' hsplit =>
          cases h
          obtain ⟨rfl, rfl⟩ := split?_eq_some hsplit
          exact ⟨_, encode_eq_ok_iff.2 ⟨Nat.not_lt.1 hle, rfl⟩, rest', by simp⟩
  · rintro ⟨frame, hframe, rest, rfl⟩
    obtain ⟨hle, rfl⟩ := encode_eq_ok_iff.1 hframe
    have hbound : payload.length < bound 4 := Nat.lt_of_le_of_lt hle (by decide)
    have hheader : header? (tag :: (be 4 payload.length ++ payload) ++ rest) =
        some (tag, payload.length, payload ++ rest) :=
      header?_eq_some_iff.2 ⟨hbound, by simp⟩
    simp only [decode, hheader, if_neg (Nat.not_lt.2 hle), split?_append]

end Frame

theorem CommandKind.ofCode?_eq_some_iff {kind : CommandKind} : ofCode? tag = some kind ↔ tag = kind.code := by
  constructor
  · intro h
    unfold ofCode? at h
    split at h
    · next htag => cases h; exact htag
    · split at h
      · next htag => cases h; exact htag
      · split at h
        · next htag => cases h; exact htag
        · split at h
          · next htag => cases h; exact htag
          · split at h
            · next htag => cases h; exact htag
            · contradiction
  · rintro rfl
    cases kind <;> rfl

/-! ### Payloads -/

namespace Command

/-- A payload that is a key is read as the command of a kind with that key. -/
theorem ofKey_eq_ok_iff {kind : CommandKind} {make : Bytes → Command}
    (hmake : c = make payload ↔ c.kind = kind ∧ c.payload = .ok payload)
    (hkey : (make payload).key? = some payload) :
    (do return make (← decodeKey kind payload) : Except Error Command) = .ok c ↔
      c.kind = kind ∧ c.payload = .ok payload ∧ c.key? ≠ some [] := by
  have hread : (do return make (← decodeKey kind payload) : Except Error Command) = .ok c ↔
      c = make payload ∧ payload ≠ [] := by
    cases payload with
    | nil =>
      change Except.error _ = _ ↔ _
      simp
    | cons b payload =>
      change Except.ok _ = _ ↔ _
      simp [eq_comm]
  rw [hread, ← and_assoc, ← hmake]
  refine and_congr_right ?_
  rintro rfl
  rw [hkey, ne_eq, ne_eq, Option.some.injEq]

theorem decodeSet_eq_ok_iff : decodeSet payload = .ok c ↔ ∃ key flags value, c = .set key flags value ∧
    key ≠ [] ∧ c.payload = .ok payload := by
  constructor
  · intro h
    rw [decodeSet] at h
    split at h
    · contradiction
    · next number length rest hread =>
      simp only [Option.bind_eq_some_iff, Option.map_eq_some_iff, Prod.exists, Prod.mk.injEq,
        readBE?_eq_some_iff] at hread
      obtain ⟨_, _, ⟨hflags, rfl⟩, _, _, ⟨hlength, rfl⟩, rfl, rfl, rfl⟩ := hread
      split at h
      · next key value hsplit =>
        obtain ⟨rfl, rfl⟩ := split?_eq_some hsplit
        split at h
        · contradiction
        · next hempty =>
          cases h
          refine ⟨key, _, value, rfl, ?_, ?_⟩
          · rintro rfl
            exact hempty rfl
          · rw [Command.payload, if_pos hlength, UInt32.toNat_ofNat_of_lt' hflags]
      · contradiction
  · rintro ⟨key, flags, value, rfl, hne, hpayload⟩
    rw [Command.payload] at hpayload
    split at hpayload
    · next hlength =>
      cases hpayload
      have hempty : key.isEmpty = false := by
        rwa [List.isEmpty_eq_false_iff]
      simp only [decodeSet, readBE?_be_append (toNat_lt_bound_four flags), readBE?_be_append hlength,
        Option.bind_some, Option.map_some, split?_append, hempty, Bool.false_eq_true, if_false,
        UInt32.ofNat_toNat]
    · contradiction

/-- A payload is read as a command exactly if it is the payload of the command. -/
theorem ofPayload_eq_ok_iff {kind : CommandKind} : ofPayload kind payload = .ok c ↔
    c.kind = kind ∧ c.payload = .ok payload ∧ c.key? ≠ some [] := by
  cases kind with
  | get => exact ofKey_eq_ok_iff (by cases c <;> simp [Command.kind, Command.payload]) rfl
  | delete => exact ofKey_eq_ok_iff (by cases c <;> simp [Command.kind, Command.payload]) rfl
  | contains => exact ofKey_eq_ok_iff (by cases c <;> simp [Command.kind, Command.payload]) rfl
  | set =>
    refine decodeSet_eq_ok_iff.trans ?_
    cases c <;> simp [Command.kind, key?, and_comm]
  | ping =>
    rw [ofPayload]
    cases payload <;> cases c <;> simp [Command.kind, Command.payload, key?]

theorem encode_eq_ok_iff : c.encode = .ok frame ↔
    ∃ payload, c.payload = .ok payload ∧ Frame.encode c.kind.code payload = .ok frame := by
  rw [encode]
  cases c.payload with
  | ok payload => simp [bind, Except.bind]
  | error e => simp [bind, Except.bind]

/-- A command is read from a string exactly if its written form is at the front and its key, if it has
one, is not empty. -/
theorem decode_eq_ok_iff : decode bs = .ok c ↔
    c.key? ≠ some [] ∧ ∃ frame, c.encode = .ok frame ∧ frame <+: bs := by
  constructor
  · intro h
    rw [decode] at h
    cases hframe : Frame.decode bs with
    | error e =>
      rw [hframe] at h
      contradiction
    | ok found =>
      obtain ⟨tag, payload⟩ := found
      obtain ⟨frame, hencode, hprefix⟩ := Frame.decode_eq_ok_iff.1 hframe
      simp only [hframe, bind, Except.bind] at h
      split at h
      · next kind hkind =>
        obtain rfl := CommandKind.ofCode?_eq_some_iff.1 hkind
        obtain ⟨rfl, hpayload, hkey⟩ := ofPayload_eq_ok_iff.1 h
        exact ⟨hkey, frame, encode_eq_ok_iff.2 ⟨payload, hpayload, hencode⟩, hprefix⟩
      · contradiction
  · rintro ⟨hkey, frame, hencode, hprefix⟩
    obtain ⟨payload, hpayload, hframe⟩ := encode_eq_ok_iff.1 hencode
    have hdecode := Frame.decode_eq_ok_iff.2 ⟨frame, hframe, hprefix⟩
    have hkind : CommandKind.ofCode? c.kind.code = some c.kind := CommandKind.ofCode?_eq_some_iff.2 rfl
    simp only [decode, hdecode, bind, Except.bind, hkind]
    exact ofPayload_eq_ok_iff.2 ⟨rfl, hpayload, hkey⟩

/-- A command can be written exactly if a frame has room for its payload. -/
theorem exists_encode_iff : (∃ frame, c.encode = .ok frame) ↔ c.Sized := by
  have hexists : (∃ frame, c.encode = .ok frame) ↔
      ∃ payload, c.payload = .ok payload ∧ payload.length ≤ Frame.maxPayload := by
    constructor
    · rintro ⟨frame, hencode⟩
      obtain ⟨payload, hpayload, hframe⟩ := encode_eq_ok_iff.1 hencode
      exact ⟨payload, hpayload, (Frame.encode_eq_ok_iff.1 hframe).1⟩
    · rintro ⟨payload, hpayload, hle⟩
      exact ⟨_, encode_eq_ok_iff.2 ⟨payload, hpayload, Frame.encode_eq_ok_iff.2 ⟨hle, rfl⟩⟩⟩
  rw [hexists]
  cases c with
  | get key => simp [Command.payload, Sized]
  | delete key => simp [Command.payload, Sized]
  | contains key => simp [Command.payload, Sized]
  | ping => simp [Command.payload, Sized]
  | set key flags value =>
    rw [Command.payload, Sized]
    by_cases hkey : key.length < bound 4
    · rw [if_pos hkey]
      simp only [Except.ok.injEq, exists_eq_left', List.length_append, length_be]
      omega
    · rw [if_neg hkey]
      have hlarge : Frame.maxPayload < bound 4 := by decide
      simp only [reduceCtorEq, false_and, exists_false, false_iff]
      omega

/-- Reading a command and writing it undo each other. A command that was read is written as the bytes that
it was read from, which are those of its frame; a command that was written, unless its key is empty, is
read again whatever follows it. Writing is refused exactly for a payload that exceeds what a frame holds. -/
theorem decode_encode :
    (∀ bs c, decode bs = .ok c → ∃ tag length rest, Frame.header? bs = some (tag, length, rest) ∧
      Frame.headerSize + length ≤ bs.length ∧ c.encode = .ok (bs.take (Frame.headerSize + length))) ∧
    (∀ c frame rest, c.key? ≠ some [] → c.encode = .ok frame → decode (frame ++ rest) = .ok c) ∧
    ∀ c : Command, (∃ e, c.encode = .error e) ↔ ¬ c.Sized := by
  refine ⟨?_, ?_, ?_⟩
  · intro bs c h
    obtain ⟨-, frame, hencode, rest, rfl⟩ := decode_eq_ok_iff.1 h
    obtain ⟨payload, -, hframe⟩ := encode_eq_ok_iff.1 hencode
    obtain ⟨hle, rfl⟩ := Frame.encode_eq_ok_iff.1 hframe
    have hlength : (c.kind.code :: (be 4 payload.length ++ payload)).length =
        Frame.headerSize + payload.length := by
      simp only [List.length_cons, List.length_append, length_be, Frame.headerSize]
      omega
    refine ⟨c.kind.code, payload.length, payload ++ rest, ?_, ?_, ?_⟩
    · exact Frame.header?_eq_some_iff.2 ⟨Nat.lt_of_le_of_lt hle (by decide), by simp⟩
    · rw [List.length_append, hlength]
      exact Nat.le_add_right _ _
    · rw [← hlength, List.take_left]
      exact hencode
  · intro c frame rest hkey hencode
    exact decode_eq_ok_iff.2 ⟨hkey, frame, hencode, List.prefix_append _ _⟩
  · intro c
    rw [← exists_encode_iff]
    cases c.encode with
    | ok frame => simp
    | error e => simp

/-- A SET is read from the front of what follows it, and written again as its frame. -/
theorem decode_encode_set :
    ∃ frame, (set [107] 7 [118]).encode = .ok frame ∧ frame.length = 15 ∧
      decode (frame ++ [9, 9]) = .ok (set [107] 7 [118]) ∧
      ∃ length, (set [107] 7 [118]).encode = .ok ((frame ++ [9, 9]).take (Frame.headerSize + length)) := by
  obtain ⟨hread, hwritten, -⟩ := decode_encode
  have hencode : (set [107] 7 [118]).encode =
      .ok [2, 0, 0, 0, 10, 0, 0, 0, 7, 0, 0, 0, 1, 107, 118] := by decide
  have hdecode := hwritten (set [107] 7 [118]) _ [9, 9] (by decide) hencode
  obtain ⟨tag, length, rest, -, -, hagain⟩ := hread _ _ hdecode
  exact ⟨_, hencode, rfl, hdecode, length, hagain⟩

end Command

end KeyedStore
