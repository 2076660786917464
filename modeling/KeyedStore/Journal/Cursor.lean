import KeyedStore.Disk
import KeyedStore.Journal.Scan

/-!
# Reading a journal step by step

A cursor stands at a place in a journal file and takes one frame at a time. Reading on behind a
refused frame is possible, but nothing found there counts as valid.
-/

namespace KeyedStore.Journal

/-- A place in a journal: what is left to read, or why reading fails, the length of the good frames
read so far, and whether the end was met inside a frame. -/
structure Cursor where
  rest : Except FileFault Bytes
  validLength : Nat := 0
  torn : Bool := false

namespace Cursor

/-- The start of the journal at a path. A directory can be opened as well, but not read. -/
def openAt (d : Disk) (path : Path) : Except Error Cursor :=
  match d.find path with
  | .ok (_, .file id) => .ok { rest := .ok (d.content id) }
  | .ok (_, .directory) => .ok { rest := .error .isDirectory }
  | .error fault => .error (.file fault)

/-- Reads the next frame: an entry, nothing at the end, or the cause of a refusal. After a refusal
reading goes on behind the refused frame, whose length is not counted as valid. -/
def next (c : Cursor) : Except Error (Option Entry) × Cursor :=
  match c.rest with
  | .error fault => (.error (.file fault), c)
  | .ok bs =>
    match head c.validLength bs with
    | .done => (.ok none, c)
    | .torn => (.ok none, { c with rest := .ok [], torn := true })
    | .refused cause rest => (.error (.journal cause), { c with rest := .ok rest })
    | .entry e size rest =>
      (.ok (some e), { c with rest := .ok rest, validLength := c.validLength + size })

/-- The entries from here on, up to the end or the first failure, which is the last element. -/
def entries (c : Cursor) : List (Except Error Entry) :=
  match c.rest with
  | .error fault => [.error (.file fault)]
  | .ok bs =>
    let scanned := scan bs c.validLength
    let failure := match scanned.ending with
      | .refused cause => [.error (.journal cause)]
      | _ => []
    scanned.entries.map .ok ++ failure

end Cursor

end KeyedStore.Journal
