import KeyedStore.Config
import KeyedStore.Disk
import KeyedStore.Journal.Scan

/-!
# Writing a journal

A writer appends entries with consecutive numbers behind the good part of a journal. An entry is in
the file as soon as it is appended; the policy only says when the file is forced to the disk.
-/

namespace KeyedStore.Journal

/-- An open journal: the file, where the next frame goes and the number that it gets, and how many
entries were appended since the file was last forced to the disk. -/
structure Writer where
  file : Nat
  position : Nat
  nextLsn : UInt64
  policy : SyncPolicy
  unsynced : Nat := 0

namespace Writer

/-- Opens a journal, or makes an empty one, and cuts off what follows its good part. -/
def openAt (path : Path) (policy : SyncPolicy) : DiskM Writer := do
  let file ← Disk.provide path
  let scanned := scan ((← get).content file)
  Disk.setLength file scanned.length
  return { file, position := scanned.length, nextLsn := scanned.lastLsn + 1, policy }

/-- Whether as many entries wait for the disk as the policy allows. -/
def due (w : Writer) : Bool :=
  match w.policy with
  | .everyWrite => true
  | .everyEntries interval => interval ≤ w.unsynced

/-- The writer after it forced the file to the disk. -/
def sync (w : Writer) : Writer := { w with unsynced := 0 }

/-- What comes of an append: the number of the entry, and whether the file was forced to the disk. -/
structure Logged where
  lsn : UInt64
  forced : Bool

/-- Appends an operation, and forces the file to the disk if that is due; gives what came of it and
the writer after it. An operation too large for a frame changes nothing. -/
def log (w : Writer) (operation : Operation) (time : UInt64) : DiskM (Logged × Writer) := do
  let frame ← liftResult { lsn := w.nextLsn, operation, time : Entry }.encode
  Disk.writeAt w.file w.position frame
  let written : Writer :=
    { w with
      position := w.position + frame.length
      nextLsn := w.nextLsn + 1
      unsynced := w.unsynced + 1 }
  let forced := written.due
  return ({ lsn := w.nextLsn, forced }, if forced then written.sync else written)

/-- Appends an operation; gives its number and the writer after it. -/
def append (w : Writer) (operation : Operation) (time : UInt64) : DiskM (UInt64 × Writer) := do
  let (logged, w) ← w.log operation time
  return (logged.lsn, w)

/-- Discards every entry and starts numbering at one again. -/
def reset (w : Writer) : DiskM Writer := do
  Disk.setLength w.file 0
  return { w with position := 0, nextLsn := 1, unsynced := 0 }

end Writer

end KeyedStore.Journal
