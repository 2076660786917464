import KeyedStore.MemTable
import KeyedStore.Table.Basic
import KeyedStore.Table.Builder
import KeyedStore.Text.Ascii
import KeyedStore.Text.Decimal

/-!
# Shelves

A shelf is a stack of tables in one directory, the newest first. The newest table that says
anything about a key decides, so a tombstone hides every older value. Tables are numbered in the
order in which they were made, and the numbers are in the names of their files; a number is used up
also when its table could not be written. The numbers have 64 bits and start over when none is left.
-/

namespace KeyedStore

/-- The tables in a directory, the newest first, and the number of the next one. -/
structure Shelf where
  dir : Path
  tables : List Table := []
  nextId : Nat := 1

abbrev ShelfM := EStateM Error (Shelf × Disk)

namespace Shelf

/-! ### Names of table files -/

/-- What the name of a table file begins with: `sstable_`. -/
def nameFront : Bytes := [115, 115, 116, 97, 98, 108, 101, 95]

/-- What the name of a table file ends with: `.sst`. -/
def nameBack : Bytes := [46, 115, 115, 116]

/-- The name of the file of a table: its number in at least six digits between the fixed parts. -/
def tableName (id : Nat) : String := Ascii.ofBytes (nameFront ++ Decimal.padded 6 id ++ nameBack)

/-- The number in the name of a table file. -/
def tableId? (name : String) : Option Nat := do
  let bs ← Ascii.toBytes? name
  if nameFront.isPrefixOf bs ∧ nameBack.isSuffixOf bs then
    Decimal.decode? (Bytes.bound 8) ((bs.drop nameFront.length).take
      (bs.length - nameFront.length - nameBack.length))
  else none

def tablePath (dir : Path) (id : Nat) : Path := dir.join [tableName id]

/-- The number after another. -/
def idAfter (id : Nat) : Nat := (id + 1) % Bytes.bound 8

/-- The numbers of the table files in a directory, the largest first. -/
def tableIds (d : Disk) (dir : Path) : List Nat :=
  let ids := (d.entries dir).filterMap fun
    | (name, .file _) => tableId? name
    | (_, .directory) => none
  ids.mergeSort fun a b => b ≤ a

/-! ### Looking up -/

/-- What the first of some tables that says anything about a key says. -/
def lookup (d : Disk) (key : Bytes) : List Table → Except Error (Option Version)
  | [] => .ok none
  | t :: older =>
    if t.index.mightContain key then do
      match ← t.get? d key with
      | some version => return some version
      | none => lookup d key older
    else lookup d key older

def get? (s : Shelf) (d : Disk) (key : Bytes) : Except Error (Option Bytes) :=
  return (← lookup d key s.tables).bind Version.live?

/-! ### Opening -/

/-- Opens every table in a directory, which is made if it does not exist. -/
def openAt (dir : Path) : DiskM Shelf := do
  Disk.makeDirectories dir
  let d ← get
  let ids := tableIds d dir
  let tables ← liftResult (ids.mapM fun id => Table.openAt d (tablePath dir id))
  return { dir, tables, nextId := (ids.head?.map idAfter).getD 1 }

/-! ### Adding and merging tables -/

def onDisk {α : Type} (m : DiskM α) : ShelfM α := focus Prod.snd (fun d s => (s.1, d)) m

/-- Writes a table of the given rows under the next number and opens it. -/
def build (rows : List Table.Row) : ShelfM (TableInfo × Table) := do
  let (s, _) ← get
  modify fun (s, d) => ({ s with nextId := idAfter s.nextId }, d)
  let path := tablePath s.dir s.nextId
  let info ← onDisk (Table.write path rows)
  let table ← liftResult (Table.openAt (← get).2 path)
  return (info, table)

/-- Puts a table in memory on top of the shelf. -/
def flush (m : MemTable) : ShelfM TableInfo := do
  if m.isEmpty then throw (.storage .nothingToFlush)
  let (info, table) ← build m.toList
  modify fun (s, d) => ({ s with tables := table :: s.tables }, d)
  return info

/-- What several tables together say about each key, given the newest first. -/
def merge (tables : List (List Table.Row)) : Std.TreeMap Bytes Version :=
  tables.flatten.foldl (fun m row => m.insertIfNew row.1 row.2) ∅

/-- The rows with a live value. -/
def live (rows : List Table.Row) : List Table.Row := rows.filter fun row => row.2.live?.isSome

/-- Merges the tables into one that holds their live values only; gives the tables it replaces,
whose files are still there. Fewer than two tables stay as they are. -/
def replaceTables : ShelfM (Option (TableInfo × List Table)) := do
  let (s, d) ← get
  if s.tables.length < 2 then return none
  let merged := merge (← liftResult (s.tables.mapM (·.scan d)))
  let (info, table) ← build (live merged.toList)
  modify fun (s, d) => ({ s with tables := [table] }, d)
  return some (info, s.tables)

/-- Merges the tables into one and removes the files of the old ones. -/
def compact : ShelfM (Option TableInfo) := do
  match ← replaceTables with
  | none => return none
  | some (info, old) =>
    modify fun (s, d) => (s, old.foldl (fun d t => d.discard t.path) d)
    return some info

end Shelf

end KeyedStore
