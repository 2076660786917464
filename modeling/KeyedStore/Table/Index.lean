import KeyedStore.Error
import KeyedStore.Table.Format
import Std.Data.TreeMap

/-!
# Opening table files

Opening a table file checks its header, its footer and the checksum of its rows, and loads its
index. A later index record for the same key takes the place of an earlier one.
-/

namespace KeyedStore.Table

/-- The loaded index of a table file: where each key's row starts, and where the rows end. -/
structure Index where
  offsets : Std.TreeMap Bytes Nat
  dataEnd : Nat

/-- Reads index records up to the end of a string. -/
def readRecords (bs : Bytes) : Except TableFault (List (Bytes × Nat)) :=
  if bs.isEmpty then .ok []
  else
    match h : (Bytes.readLE? 4 bs).bind fun (length, rest) =>
        (Bytes.readLE? 8 rest).map fun (offset, rest) => (length, offset, rest) with
    | none => .error .recordCut
    | some (length, offset, rest) =>
      match hs : Bytes.split? length rest with
      | none => .error .keyCut
      | some (key, rest') =>
        have : rest'.length < bs.length := by
          simp only [Option.bind_eq_some_iff, Option.map_eq_some_iff, Prod.exists] at h
          obtain ⟨_, _, h₁, _, _, h₂, he⟩ := h
          simp only [Prod.mk.injEq] at he
          obtain ⟨rfl, rfl, rfl⟩ := he
          have := Bytes.length_of_readLE? h₁
          have := Bytes.length_of_readLE? h₂
          obtain ⟨rfl, _⟩ := Bytes.split?_eq_some hs
          simp at *
          omega
        (readRecords rest').map ((key, offset) :: ·)
termination_by bs.length

/-- The place of each key, the last record for a key deciding. -/
def offsetMap (records : List (Bytes × Nat)) : Std.TreeMap Bytes Nat :=
  records.foldl (fun offsets record => offsets.insert record.1 record.2) ∅

/-- What the footer of a file says. -/
structure Footer where
  indexOffset : Nat
  checksum : UInt32

def Footer.ofBytes (bs : Bytes) : Footer where
  indexOffset := Bytes.ofLE (bs.take 8)
  checksum := .ofNat (Bytes.ofLE ((bs.drop 8).take 4))

def Index.ofBytes (bs : Bytes) : Except TableFault Index := do
  let size := bs.length
  if size < headerSize + footerSize then throw (.tooSmall size)
  if bs.take 4 ≠ magic then throw (.badMagic (bs.take 4))
  let version := Bytes.ofLE ((bs.drop 4).take 2)
  if version ≠ formatVersion then throw (.unsupportedVersion version)
  let count := Bytes.ofLE ((bs.drop 6).take 8)
  let indexEnd := size - footerSize
  let footer := Footer.ofBytes (bs.drop indexEnd)
  let dataEnd := footer.indexOffset
  if dataEnd < headerSize ∨ dataEnd > indexEnd then throw (.indexOffset dataEnd)
  let computed := Checksum.crc32 ((bs.drop headerSize).take (dataEnd - headerSize))
  if computed ≠ footer.checksum then throw (.checksum footer.checksum computed)
  let offsets := offsetMap (← readRecords ((bs.drop dataEnd).take (indexEnd - dataEnd)))
  if offsets.size ≠ count then throw (.countMismatch count offsets.size)
  return { offsets, dataEnd }

namespace Index

def count (i : Index) : Nat := i.offsets.size

def minKey? (i : Index) : Option Bytes := i.offsets.minKey?

def maxKey? (i : Index) : Option Bytes := i.offsets.maxKey?

/-- Whether a key lies in the range of the keys; outside of it no row is for the key. -/
def mightContain (i : Index) (key : Bytes) : Bool :=
  match i.minKey?, i.maxKey? with
  | some least, some greatest => (compare least key).isLE && (compare key greatest).isLE
  | _, _ => false

/-- The number of bytes that are asked of a file at once. -/
def blockSize : Nat := 8192

/-- The least offset at which a file cannot be read: a block there would end past the largest
offset, which is the largest signed number of eight bytes. -/
def offsetLimit : Nat := Bytes.bound 8 / 2 - blockSize

/-- What the file says about a key, read at the place that the index gives. -/
def lookup (i : Index) (file key : Bytes) : Except FileFault (Option Version) :=
  match i.offsets[key]? with
  | none => .ok none
  | some offset =>
    if offset ≥ offsetLimit then .error .offsetOutOfRange
    else
      match readVersion? (file.drop offset) with
      | some version => .ok (some version)
      | none => .error .endOfData

/-- All rows of the file, in the order in which they stand. -/
def scan (i : Index) (file : Bytes) : Except FileFault (List Row) :=
  match readRows? (i.dataEnd - headerSize) (file.drop headerSize) with
  | some rows => .ok rows
  | none => .error .endOfData

end Index

end KeyedStore.Table
