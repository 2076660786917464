import KeyedStore.Disk
import KeyedStore.Table.Index

/-!
# Tables

An open table: a file with its loaded index. The rows are read from the file when they are asked
for, so damage done to them after the opening shows only then.
-/

namespace KeyedStore

/-- A table file and its index. -/
structure Table where
  path : Path
  file : Nat
  index : Table.Index

namespace Table

variable (d : Disk)

def openAt (path : Path) : Except Error Table := do
  let file ← d.file path
  match Index.ofBytes (d.content file) with
  | .ok index => return { path, file, index }
  | .error cause => throw (.storage (.table path cause))

def get? (t : Table) (key : Bytes) : Except Error (Option Version) :=
  (t.index.lookup (d.content t.file) key).mapError .file

def scan (t : Table) : Except Error (List Row) := (t.index.scan (d.content t.file)).mapError .file

end Table

end KeyedStore
