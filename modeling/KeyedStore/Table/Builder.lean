import KeyedStore.Disk
import KeyedStore.Table.Format

/-!
# Building tables

A builder takes rows in ascending order of their keys and writes them to a file. A row that is
refused leaves no trace. The number of rows in the header is written last: until then the file
states that it has none.
-/

namespace KeyedStore

/-- What is known of a table that was written. -/
structure TableInfo where
  path : Path
  count : Nat
  minKey : Bytes
  maxKey : Bytes
  fileSize : Nat
deriving DecidableEq, Repr

/-- Whether a key lies in the range of a table; outside of it the table has no row for the key. -/
def TableInfo.mightContain (t : TableInfo) (key : Bytes) : Bool :=
  t.count ≠ 0 && (compare t.minKey key).isLE && (compare key t.maxKey).isLE

namespace Table

/-- The rows taken so far, the latest first. -/
structure Builder where
  taken : List Row := []

namespace Builder

/-- The rows in the order in which they were taken. -/
def rows (b : Builder) : List Row := b.taken.reverse

/-- Refuses a part of a row whose length does not fit, or would mark a tombstone. -/
def checkLength (part : EntryPart) (length : Nat) : Except Error Unit :=
  if length < tombstoneMark then .ok () else .error (.storage (.tooLarge part length))

/-- Whether a row may follow the ones taken so far. -/
def check (b : Builder) (row : Row) : Except Error Unit := do
  if b.taken.head?.any fun last => (compare row.1 last.1).isLE then throw (.storage .keysOutOfOrder)
  checkLength .key row.1.length
  checkLength .value row.2.length

def add (row : Row) : EStateM Error Builder Unit := do
  liftResult ((← get).check row)
  modify fun b => { taken := row :: b.taken }

/-- Takes rows up to the first that is refused. -/
def addAll (rows : List Row) : EStateM Error Builder Unit := rows.forM add

/-- What the file holds while rows are added. -/
def unfinished (b : Builder) : Bytes := encodeHeader 0 ++ encodeRows b.rows

def image (b : Builder) : Bytes := encode b.rows

def info (b : Builder) (path : Path) : TableInfo where
  path
  count := b.taken.length
  minKey := (b.rows.head?.map Prod.fst).getD []
  maxKey := (b.taken.head?.map Prod.fst).getD []
  fileSize := fileSize b.rows

/-- Writes the file of the rows that were taken. -/
def finish (b : Builder) (path : Path) : DiskM TableInfo := do
  Disk.write path b.image
  return b.info path

end Builder

/-- Writes a table of the given rows; if one of them is refused the file is left unfinished. -/
def write (path : Path) (rows : List Row) : DiskM TableInfo := do
  match Builder.addAll rows {} with
  | .ok _ b => b.finish path
  | .error e b =>
    Disk.write path b.unfinished
    throw e

end Table

end KeyedStore
