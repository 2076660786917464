/-!
# Paths

A path as it is written: the parts between its slashes. An empty part and a dot stay where they are,
two dots lead back, and any other part is a name. A path that begins with a slash starts at the top,
any other where the reader is.
-/

namespace KeyedStore

/-- The parts of a written path between its slashes. -/
abbrev Path := List String

namespace Path

def text (path : Path) : String := "/".intercalate path

def ofText (text : String) : Path := text.splitOn "/"

/-- The bytes of the written path and the zero byte after it; no parts at all take none. -/
def size : Path → Nat
  | [] => 0
  | part :: rest => part.utf8ByteSize + 1 + size rest

def isAbsolute (path : Path) : Bool := path.head? = some "" && 1 < path.length

def endsInSlash (path : Path) : Bool := path.getLast? = some "" && 1 < path.length

/-- Whether a part stays where it is. -/
def isIdle (part : String) : Bool := part = "" || part = "."

/-- A second path, read where the first one leads. -/
def join (path other : Path) : Path :=
  if other.isAbsolute then other
  else if path.getLast? = some "" then path.dropLast ++ other
  else path ++ other

/-- The last part of a path, apart from slashes at its end, and the path in front of it. -/
def last? (path : Path) : Option (Path × String) :=
  match path.reverse.dropWhile (· = "") with
  | [] => none
  | part :: front => some (front.reverse, part)

/-- The path without its last name or two dots, and without idle parts at its end. -/
def parent (path : Path) : Path :=
  (((path.reverse.dropWhile isIdle).drop 1).dropWhile isIdle).reverse

theorem length_parent_lt {path : Path} (h : path ≠ []) : path.parent.length < path.length := by
  have inner := (List.dropWhile_sublist isIdle (l := path.reverse)).length_le
  have outer := (List.dropWhile_sublist isIdle
    (l := (path.reverse.dropWhile isIdle).drop 1)).length_le
  have pos := List.length_pos_iff.mpr h
  simp only [parent, List.length_reverse, List.length_drop] at *
  omega

end Path

end KeyedStore
