import KeyedStore.Backend.Basic
import KeyedStore.Journal.Recovery
import KeyedStore.Journal.Writer
import KeyedStore.Shelf

/-!
# Engines

An engine keeps values on a disk. A write goes to the journal first, then to a table in memory; when
that table is full it becomes the top of a shelf of tables on the disk, and the journal starts
anew. Opening an engine replays what the journal holds, so an accepted write survives the end of
the process at any moment.
-/

namespace KeyedStore

/-- An open engine. -/
structure Engine where
  dir : Path
  memtableLimit : Nat
  shelf : Shelf
  memtable : MemTable := {}
  journal : Journal.Writer
  /-- The time that the next entries of the journal bear. -/
  clock : UInt64 := 0

abbrev EngineM := EStateM Error (Engine × Disk)

namespace Engine

def journalPath (dir : Path) : Path := dir.join ["wal.log"]

/-- The directory of the tables in a data directory. -/
def tableDir (dir : Path) : Path := dir.join ["sstables"]

/-! ### Opening -/

def replay (entries : List Journal.Entry) : MemTable :=
  entries.foldl (fun m e => m.apply e.operation) {}

/-- A shelf with a table in memory put on top of it. -/
def withTable (shelf : Shelf) (m : MemTable) : DiskM Shelf := fun d =>
  match Shelf.flush m (shelf, d) with
  | .ok _ (shelf, d) => .ok shelf d
  | .error e (_, d) => .error e d

/-- The first part of opening: opens the tables, and puts what the journal holds on top of them. The
journal keeps its entries. -/
def recoverTables (dir : Path) : DiskM Shelf := do
  Disk.makeDirectories dir
  let shelf ← Shelf.openAt (tableDir dir)
  if !(← get).has (journalPath dir) then return shelf
  let (entries, _) ← Journal.recover (journalPath dir)
  let memtable := replay entries
  if memtable.isEmpty then return shelf
  withTable shelf memtable

/-- Opens the engine in a data directory, which is made if it does not exist. -/
def openAt (dir : Path) (config : Config := {}) : DiskM Engine := do
  let shelf ← recoverTables dir
  let journal ← (← Journal.Writer.openAt (journalPath dir) config.sync).reset
  return { dir, memtableLimit := config.memtableLimit, shelf, journal }

/-! ### Reading -/

/-- The live value of a key: the table in memory decides before the shelf. -/
def get? (e : Engine) (d : Disk) (key : Bytes) : Except Error (Option Bytes) :=
  match e.memtable.get? key with
  | some version => .ok version.live?
  | none => e.shelf.get? d key

def contains (e : Engine) (d : Disk) (key : Bytes) : Except Error Bool :=
  return (← e.get? d key).isSome

/-! ### Writing -/

def onShelf {α : Type} (m : ShelfM α) : EngineM α :=
  focus (fun (e, d) => (e.shelf, d)) (fun (shelf, d) (e, _) => ({ e with shelf }, d)) m

/-- A step of the journal, which gives the journal after it. -/
def onJournal (m : Journal.Writer → DiskM Journal.Writer) : EngineM Unit := do
  let journal ← focus Prod.snd (fun d s => (s.1, d)) (m (← get).1.journal)
  modify fun (e, d) => ({ e with journal }, d)

/-- Puts the table in memory on the shelf, and starts the journal anew. -/
def flush : EngineM Unit := do
  let (e, _) ← get
  if e.memtable.isEmpty then return
  let _ ← onShelf (Shelf.flush e.memtable)
  modify fun (e, d) => ({ e with memtable := {} }, d)
  onJournal Journal.Writer.reset

/-- Logs an operation and does it to the table in memory. -/
def accept (operation : Operation) : EngineM Unit := do
  let clock := (← get).1.clock
  onJournal fun w => return (← w.append operation clock).2
  modify fun (e, d) => ({ e with memtable := e.memtable.apply operation }, d)

def flushIfFull : EngineM Unit := do
  let (e, _) ← get
  if e.memtable.isFull e.memtableLimit then flush

/-- Accepts an operation, and flushes the table in memory when it is full. -/
def perform (operation : Operation) : EngineM Unit := do
  accept operation
  flushIfFull

def put (key value : Bytes) : EngineM Unit := perform (.put key value)

/-- Removes a key. A key without a live value is not logged. -/
def delete (key : Bytes) : EngineM Removal := do
  let (e, d) ← get
  if !(← liftResult (e.contains d key)) then return .notFound
  perform (.delete key)
  return .removed

/-- Puts everything on the shelf and merges its tables into one. -/
def compact : EngineM Unit := do
  flush
  let _ ← onShelf Shelf.compact

/-- Puts everything on the shelf and forces the journal to the disk, after which the engine is of
no more use. -/
def close : EngineM Unit := do
  flush
  onJournal fun w => return w.sync

instance : Backend (Engine × Disk) where
  read key buffer s :=
    match s.1.get? s.2 key with
    | .ok value? => (.ofValue? value? buffer, s)
    | .error e => ({ outcome := .error e }, s)
  write key value := put key value
  remove key := delete key
  contains key := do
    let (e, d) ← get
    liftResult (e.contains d key)

end Engine

end KeyedStore
