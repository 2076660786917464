import KeyedStore.Checksum
import KeyedStore.Version

/-!
# The format of table files

A table file holds rows in ascending order of their keys, and behind them an index that says where
each row starts. In front stands a header with a magic word, a version and the number of rows, at
the end a footer with the place of the index and a checksum of the rows. All numbers have the least
significant byte first. A row whose value length is the largest of four bytes is a tombstone.
-/

namespace KeyedStore.Table

/-- A key, and what the table says about it. -/
abbrev Row := Bytes × Version

/-- The first bytes of every table file. -/
def magic : Bytes := [83, 84, 75, 86]

def formatVersion : Nat := 1

/-- The size of the magic word, the version and the number of rows. -/
def headerSize : Nat := 14

/-- The size of the place of the index, the checksum and the padding. -/
def footerSize : Nat := 16

/-- The size of what stands in front of the key of a row. -/
def rowHeaderSize : Nat := 8

/-- The size of what stands in front of the key of an index record. -/
def recordHeaderSize : Nat := 12

/-- The value length that marks a tombstone. -/
def tombstoneMark : Nat := Bytes.bound 4 - 1

/-! ### Rows -/

/-- What a row states as the length of its value. -/
def lengthField : Version → Nat
  | .value bytes => bytes.length
  | .tombstone => tombstoneMark

def encodeRow (row : Row) : Bytes :=
  Bytes.le 4 row.1.length ++ (Bytes.le 4 (lengthField row.2) ++ (row.1 ++ row.2.live?.getD []))

def rowSize (row : Row) : Nat := rowHeaderSize + row.1.length + row.2.length

theorem length_encodeRow (row : Row) : (encodeRow row).length = rowSize row := by
  obtain ⟨key, _ | _⟩ := row <;>
    simp [encodeRow, rowSize, rowHeaderSize, Version.live?, Version.length] <;> omega

/-- Reads the row at the front of a string. -/
def readRow? (bs : Bytes) : Option (Row × Bytes) := do
  let (keyLength, rest) ← Bytes.readLE? 4 bs
  let (valueLength, rest) ← Bytes.readLE? 4 rest
  let (key, rest) ← Bytes.split? keyLength rest
  if valueLength = tombstoneMark then return ((key, .tombstone), rest)
  let (value, rest) ← Bytes.split? valueLength rest
  return ((key, .value value), rest)

/-- Reads the version in the row at the front of a string, whatever its key is. -/
def readVersion? (bs : Bytes) : Option Version := do
  let (keyLength, rest) ← Bytes.readLE? 4 bs
  let (valueLength, rest) ← Bytes.readLE? 4 rest
  if valueLength = tombstoneMark then return .tombstone
  let (value, _) ← Bytes.split? valueLength (rest.drop keyLength)
  return .value value

theorem length_of_readRow? {bs rest : Bytes} {row : Row} (h : readRow? bs = some (row, rest)) :
    bs.length = rowSize row + rest.length := by
  simp only [readRow?, Option.bind_eq_bind, Option.bind_eq_some_iff, Prod.exists] at h
  obtain ⟨_, rest₁, h₁, _, rest₂, h₂, key, rest₃, h₃, h⟩ := h
  have := Bytes.length_of_readLE? h₁
  have := Bytes.length_of_readLE? h₂
  obtain ⟨rfl, _⟩ := Bytes.split?_eq_some h₃
  split at h
  · simp only [Option.pure_def, Option.some.injEq, Prod.mk.injEq] at h
    obtain ⟨rfl, rfl⟩ := h
    simp [rowSize, rowHeaderSize, Version.length] at *
    omega
  · simp only [Option.bind_eq_some_iff, Prod.exists, Option.pure_def, Option.some.injEq,
      Prod.mk.injEq] at h
    obtain ⟨value, rest₄, h₄, rfl, rfl⟩ := h
    obtain ⟨rfl, _⟩ := Bytes.split?_eq_some h₄
    simp [rowSize, rowHeaderSize, Version.length] at *
    omega

/-- Reads rows from the front of a string until they take up `length` bytes or more. -/
def readRows? (length : Nat) (bs : Bytes) : Option (List Row) :=
  if length = 0 then some []
  else
    match h : readRow? bs with
    | none => none
    | some (row, rest) =>
      have : rest.length < bs.length := by
        have := length_of_readRow? h
        simp only [rowSize, rowHeaderSize] at this
        omega
      (readRows? (length - rowSize row) rest).map (row :: ·)
termination_by bs.length

/-! ### Files -/

/-- The index records of rows that start at `offset`: each key with the place of its row. -/
def records (offset : Nat) : List Row → List (Bytes × Nat)
  | [] => []
  | row :: rows => (row.1, offset) :: records (offset + rowSize row) rows

def encodeRecord (record : Bytes × Nat) : Bytes :=
  Bytes.le 4 record.1.length ++ (Bytes.le 8 record.2 ++ record.1)

def encodeHeader (count : Nat) : Bytes := magic ++ (Bytes.le 2 formatVersion ++ Bytes.le 8 count)

def encodeRows (rows : List Row) : Bytes := rows.flatMap encodeRow

def encodeIndex (rows : List Row) : Bytes := (records headerSize rows).flatMap encodeRecord

/-- The footer of a file whose rows are the given bytes. -/
def encodeFooter (data : Bytes) : Bytes :=
  Bytes.le 8 (headerSize + data.length) ++ (Bytes.le 4 (Checksum.crc32 data).toNat ++ Bytes.le 4 0)

/-- A file that holds the given rows and states `count` as their number. -/
def encodeAs (count : Nat) (rows : List Row) : Bytes :=
  let data := encodeRows rows
  encodeHeader count ++ (data ++ (encodeIndex rows ++ encodeFooter data))

def encode (rows : List Row) : Bytes := encodeAs rows.length rows

/-- The number of bytes in a row and in the record that the index has of it. -/
def spaceOf (row : Row) : Nat := rowSize row + (recordHeaderSize + row.1.length)

/-- The number of bytes in the file of the given rows. -/
def fileSize (rows : List Row) : Nat :=
  rows.foldr (fun row size => spaceOf row + size) (headerSize + footerSize)

private theorem length_encodeRows_add (offset : Nat) (rows : List Row) :
    (encodeRows rows).length + ((records offset rows).flatMap encodeRecord).length
      + (headerSize + footerSize) = fileSize rows := by
  induction rows generalizing offset with
  | nil => rfl
  | cons row rows ih =>
    have := ih (offset + rowSize row)
    simp only [encodeRows, records, fileSize, List.flatMap_cons, List.length_append,
      List.foldr_cons, length_encodeRow, encodeRecord, Bytes.length_le, spaceOf,
      recordHeaderSize] at *
    omega

@[simp] theorem length_encode (rows : List Row) : (encode rows).length = fileSize rows := by
  rw [← length_encodeRows_add headerSize rows]
  simp [encode, encodeAs, encodeHeader, encodeIndex, encodeFooter, magic, headerSize, footerSize]
  omega

end KeyedStore.Table
