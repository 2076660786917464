import KeyedStore.Journal.Entry

/-!
# Reading a journal

Frames are taken one after another from the front of what is left of a journal. A journal that
ends inside a frame was torn while it was written, and what is left of the frame is dropped; a
whole frame that is refused is an error. `scan` reads up to the first frame that is not an entry:
nothing after it is trusted.
-/

namespace KeyedStore.Journal

/-- What stands at the front of the rest of a journal. -/
inductive Head where
  /-- Nothing is left. -/
  | done
  /-- The rest is the beginning of a frame. -/
  | torn
  /-- A frame is refused; reading may go on at `rest`. -/
  | refused (cause : JournalFault) (rest : Bytes)
  /-- A frame of `size` bytes holds an entry. -/
  | entry (entry : Entry) (size : Nat) (rest : Bytes)

/-- Classifies the front of what is left of a journal after `offset` bytes of good frames. -/
def head (offset : Nat) (bs : Bytes) : Head :=
  match opened? bs with
  | none => if bs.isEmpty then .done else .torn
  | some header =>
    if header.length > maxPayload then .refused (.oversized offset header.length) header.rest
    else
      match Bytes.split? header.length header.rest with
      | none => .torn
      | some (payload, rest) =>
        match header.entry payload with
        | .ok e => .entry e (headerSize + header.length) rest
        | .error cause => .refused cause rest

theorem length_of_opened? {bs : Bytes} {header : Opened} (h : opened? bs = some header) :
    bs.length = headerSize + header.rest.length := by
  simp only [opened?, Option.bind_eq_bind, Option.bind_eq_some_iff, Option.pure_def,
    Option.some.injEq, Prod.exists] at h
  obtain ⟨_, rest₁, h₁, _, rest₂, h₂, _, rest₃, h₃, rfl⟩ := h
  have := Bytes.length_of_readLE? h₁
  have := Bytes.length_of_readLE? h₂
  have := Bytes.length_of_readLE? h₃
  simp only [headerSize]
  omega

/-- Each entry takes its whole frame from the front. -/
theorem length_of_head_eq_entry {offset size : Nat} {bs rest : Bytes} {e : Entry}
    (h : head offset bs = .entry e size rest) : bs.length = size + rest.length := by
  simp only [head] at h
  split at h
  · split at h <;> contradiction
  · next header ho =>
    split at h
    · contradiction
    · split at h
      · contradiction
      · next payload rest' hs =>
        split at h
        · cases h
          obtain ⟨hr, hl⟩ := Bytes.split?_eq_some hs
          have hb := length_of_opened? ho
          have := congrArg List.length hr
          simp only [List.length_append] at this
          omega
        · contradiction

theorem headerSize_le_of_head_eq_entry {offset size : Nat} {bs rest : Bytes} {e : Entry}
    (h : head offset bs = .entry e size rest) : headerSize ≤ size := by
  simp only [head] at h
  split at h
  · split at h <;> contradiction
  · split at h
    · contradiction
    · split at h
      · contradiction
      · split at h
        · cases h; omega
        · contradiction

/-- How the good part of a journal ends. -/
inductive Ending where
  | clean
  | torn
  | refused (cause : JournalFault)
deriving DecidableEq, Repr

/-- The good part of a journal: its entries, its length, and how it ends. -/
structure Scan where
  entries : List Entry
  length : Nat
  ending : Ending
deriving DecidableEq, Repr

def scan (bs : Bytes) (offset : Nat := 0) : Scan :=
  match h : head offset bs with
  | .done => { entries := [], length := offset, ending := .clean }
  | .torn => { entries := [], length := offset, ending := .torn }
  | .refused cause _ => { entries := [], length := offset, ending := .refused cause }
  | .entry e size rest =>
    have : rest.length < bs.length := by
      have := length_of_head_eq_entry h
      have := headerSize_le_of_head_eq_entry h
      simp only [headerSize] at *
      omega
    let after := scan rest (offset + size)
    { after with entries := e :: after.entries }
termination_by bs.length

/-- The number of the last entry, zero if there is none. -/
def Scan.lastLsn (s : Scan) : UInt64 := (s.entries.getLast?.map Entry.lsn).getD 0

def Scan.corrupted (s : Scan) : Bool := s.ending matches .refused _

def Scan.cut (s : Scan) : Bool := s.ending ≠ .clean

end KeyedStore.Journal
