import KeyedStore.Content
import KeyedStore.Error
import KeyedStore.Focus
import Std.Data.TreeMap

/-!
# Disks

A tree of directories and files. A name leads to a file, and the file outlives it: what was opened
once is read and written by its number, also after its name is gone. A path is followed part by part
each time it is used. Every single operation that fails leaves the disk as it was.
-/

namespace KeyedStore

/-- Where something is: the names that lead to it from the top. -/
abbrev Place := List String

/-- What is at a place: a directory, or the file with a number. -/
inductive Node where
  | directory
  | file (id : Nat)
deriving DecidableEq, Repr

/-- What is on a disk, the contents of every file that was ever made, by its number, and the place
from which paths are followed that do not start at the top. -/
structure Disk where
  nodes : Std.TreeMap Place Node := ∅
  contents : Array Content := #[]
  here : Place := []

abbrev DiskM := EStateM Error Disk

namespace Disk

def maxPathSize : Nat := 4096

def maxNameLength : Nat := 255

/-! ### Following paths -/

/-- What a name stands for in the directory at a place. -/
def lookup (d : Disk) (dir : Place) (name : String) : Except FileFault (Option Node) :=
  if maxNameLength < name.utf8ByteSize then .error .nameTooLong else .ok d.nodes[dir ++ [name]]?

/-- Follows a path from the directory `above`: where it ends and what is there. -/
def follow (d : Disk) (above : Place) : Path → Except FileFault (Place × Node)
  | [] => .ok (above, .directory)
  | part :: rest =>
    if Path.isIdle part then follow d above rest
    else if part = ".." then follow d above.dropLast rest
    else
      match d.lookup above part with
      | .error fault => .error fault
      | .ok none => .error .notFound
      | .ok (some .directory) => follow d (above ++ [part]) rest
      | .ok (some (.file id)) =>
        if rest.isEmpty then .ok (above ++ [part], .file id) else .error .notDirectory

/-- Where a path starts; a path with a zero byte, of more bytes than a path can have, or of none is
refused. -/
def start (d : Disk) (path : Path) : Except FileFault Place :=
  if path.any (·.contains '\x00') then .error .nulInName
  else if maxPathSize < path.size then .error .nameTooLong
  else if path.size ≤ 1 then .error .notFound
  else .ok (if path.isAbsolute then [] else d.here)

/-- Where a path ends and what is there. -/
def find (d : Disk) (path : Path) : Except FileFault (Place × Node) := do
  d.follow (← d.start path) path

/-- The last name of a path and the directory that it belongs to, whether or not it stands for
anything there. A path that ends in no name is refused for the reason `unnamed`. -/
def spot (d : Disk) (path : Path) (unnamed : FileFault) : Except FileFault (Place × String) := do
  let start ← d.start path
  match path.last? with
  | none => throw unnamed
  | some (front, name) =>
    match ← d.follow start front with
    | (_, .file _) => throw .notDirectory
    | (dir, .directory) =>
      if name = "." ∨ name = ".." then throw unnamed else return (dir, name)

def has (d : Disk) (path : Path) : Bool := (d.find path).isOk

def isDirectory (d : Disk) (path : Path) : Bool := (d.find path) matches .ok (_, .directory)

/-- The number of the file that a path leads to. -/
def file (d : Disk) (path : Path) : Except Error Nat :=
  match d.find path with
  | .ok (_, .file id) => .ok id
  | .ok (_, .directory) => .error (.file .isDirectory)
  | .error fault => .error (.file fault)

/-- The names in the directory at a place and what they stand for. -/
def entriesAt (d : Disk) (dir : Place) : List (String × Node) :=
  d.nodes.toList.filterMap fun (place, node) =>
    if place.dropLast = dir then place.getLast?.map fun name => (name, node) else none

/-- The names in the directory that a path leads to and what they stand for. -/
def entries (d : Disk) (path : Path) : List (String × Node) :=
  match d.find path with
  | .ok (dir, .directory) => d.entriesAt dir
  | _ => []

/-! ### Contents -/

def content (d : Disk) (id : Nat) : Bytes := (d.contents[id]?.map Content.bytes).getD []

def length (d : Disk) (id : Nat) : Nat := (d.contents[id]?.map Content.size).getD 0

theorem length_content (d : Disk) (id : Nat) : (d.content id).length = d.length id := by
  cases h : d.contents[id]? <;> simp [content, length, h]

/-- The disk with the contents of a file changed. -/
def change (d : Disk) (id : Nat) (f : Content → Content) : Disk :=
  { d with contents := d.contents.modify id f }

/-- The contents of the file that a path leads to. -/
def read (d : Disk) (path : Path) : Except Error Bytes := return d.content (← d.file path)

/-- The size of what a path leads to: of a file, its length, and of a directory, 40 bytes and 20
more for each name in it. -/
def size? (d : Disk) (path : Path) : Option Nat :=
  match d.find path with
  | .ok (_, .file id) => some (d.length id)
  | .ok (dir, .directory) => some (40 + 20 * (d.entriesAt dir).length)
  | .error _ => none

/-- Everything below the directory at a place by its name from there, a directory with a slash after
it, and the lengths of the files, in the order of the names. -/
def listing (d : Disk) (dir : Place) : List (String × Option Nat) :=
  let below := d.nodes.toList.filterMap fun (place, node) =>
    if dir.isPrefixOf place ∧ place ≠ dir then
      let name := Path.text (place.drop dir.length)
      match node with
      | .directory => some (name ++ "/", none)
      | .file id => some (name, some (d.length id))
    else none
  below.mergeSort fun a b => a.1 ≤ b.1

/-! ### Changing names -/

/-- The disk with a new, empty file at a place. -/
def insertFile (d : Disk) (place : Place) : Disk :=
  { d with
    nodes := d.nodes.insert place (.file d.contents.size)
    contents := d.contents.push (.ofBytes []) }

/-- The file at a path, which is made if there is nothing. -/
def provide (path : Path) : DiskM Nat := fun d =>
  match d.spot path .isDirectory with
  | .error fault => .error (.file fault) d
  | .ok (dir, name) =>
    if path.endsInSlash then .error (.file .isDirectory) d
    else
      match d.lookup dir name with
      | .error fault => .error (.file fault) d
      | .ok (some (.file id)) => .ok id d
      | .ok (some .directory) => .error (.file .isDirectory) d
      | .ok none => .ok d.contents.size (d.insertFile (dir ++ [name]))

def remove (path : Path) : DiskM Unit := fun d =>
  match d.find path with
  | .ok (place, .file _) => .ok () { d with nodes := d.nodes.erase place }
  | .ok (_, .directory) => .error (.file .isDirectory) d
  | .error fault => .error (.file fault) d

/-- The disk without the name of a file, or unchanged if that cannot be taken away. -/
def discard (d : Disk) (path : Path) : Disk :=
  match remove path d with
  | .ok _ d => d
  | .error _ d => d

/-- Makes one directory, at a path where nothing is. -/
def makeDirectory (path : Path) : DiskM Unit := fun d =>
  match d.spot path .alreadyExists with
  | .error fault => .error (.file fault) d
  | .ok (dir, name) =>
    match d.lookup dir name with
    | .error fault => .error (.file fault) d
    | .ok (some _) => .error (.file .alreadyExists) d
    | .ok none => .ok () { d with nodes := d.nodes.insert (dir ++ [name]) .directory }

/-- Makes one directory if there is none at a path. -/
def ensureDirectory (path : Path) : DiskM Unit := fun d =>
  match makeDirectory path d with
  | .error e d => if d.isDirectory path then .ok () d else .error e d
  | made => made

/-- Makes a directory and those above it, as far as they do not exist. -/
def makeDirectories (path : Path) : DiskM Unit := fun d =>
  if path.size ≤ 1 then .ok () d
  else
    match ensureDirectory path d with
    | .error (.file .notFound) d =>
      (do makeDirectories path.parent; ensureDirectory path : DiskM Unit) d
    | made => made
termination_by path.length
decreasing_by exact Path.length_parent_lt (by rintro rfl; simp [Path.size] at *)

/-! ### Changing contents -/

/-- Cuts a file, or fills it up with zeros, to a length. -/
def setLength (id length : Nat) : DiskM Unit :=
  modify fun d => d.change id (·.resize length)

/-- Gives the file at a path, which is made if there is nothing, other contents. -/
def write (path : Path) (bs : Bytes) : DiskM Unit := do
  let id ← provide path
  modify fun d => d.change id fun _ => .ofBytes bs

/-- Writes into a file at an offset; a gap before it is filled with zeros. -/
def writeAt (id pos : Nat) (bs : Bytes) : DiskM Unit :=
  modify fun d => d.change id (·.writeAt pos bs)

end Disk

end KeyedStore
