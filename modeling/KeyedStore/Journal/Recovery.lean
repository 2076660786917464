import KeyedStore.Disk
import KeyedStore.Journal.Scan

/-!
# Recovering a journal

After a crash the good part of a journal is read and whatever follows it is cut off, so that new
entries follow the last good one.
-/

namespace KeyedStore.Journal

/-- What was found in a journal. -/
structure Report where
  recovered : Nat
  corrupted : Nat
  lastLsn : UInt64
  /-- Whether anything follows the good part. -/
  truncated : Bool
deriving DecidableEq, Repr

def Scan.report (s : Scan) : Report where
  recovered := s.entries.length
  corrupted := if s.corrupted then 1 else 0
  lastLsn := s.lastLsn
  truncated := s.cut

/-- Reports on a journal without changing it. -/
def verify (path : Path) : DiskM Report := do
  return (scan (← liftResult ((← get).read path))).report

/-- Reads the good part of a journal and cuts off the rest. -/
def recover (path : Path) : DiskM (List Entry × Report) := do
  let file ← liftResult ((← get).file path)
  let scanned := scan ((← get).content file)
  if scanned.cut then Disk.setLength file scanned.length
  return (scanned.entries, scanned.report)

end KeyedStore.Journal
