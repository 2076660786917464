import KeyedStore.Bytes

/-!
# Contents of files

Most files are written at their ends. The contents of a file are kept as one string and the strings
written behind it since, so that a write at the end takes only the time for what it writes. What is
kept stands for one string of bytes, and every operation does to that string what its name says.
-/

namespace KeyedStore

/-- The contents of a file, with their size. -/
structure Content where
  front : Bytes
  /-- What was written behind the front, the latest first. -/
  behind : List Bytes
  size : Nat
  size_eq : size = (front ++ behind.reverse.flatten).length

namespace Content

variable {n pos : Nat} {new : Bytes}

def ofBytes (bs : Bytes) : Content where
  front := bs
  behind := []
  size := bs.length
  size_eq := by simp

/-- Puts strings, the last of them first, in front of another. -/
def prepend (strings : List Bytes) (rest : Bytes) : Bytes :=
  strings.foldl (fun rest bs => bs ++ rest) rest

theorem prepend_eq (strings : List Bytes) (rest : Bytes) :
    prepend strings rest = strings.reverse.flatten ++ rest := by
  simp [prepend]

def bytes (c : Content) : Bytes :=
  if c.behind.isEmpty then c.front else c.front ++ prepend c.behind []

theorem bytes_eq (c : Content) : c.bytes = c.front ++ c.behind.reverse.flatten := by
  simp only [bytes, prepend_eq, List.isEmpty_iff]
  split <;> simp [*]

@[simp] theorem bytes_ofBytes (bs : Bytes) : (ofBytes bs).bytes = bs := rfl

@[simp] theorem length_bytes (c : Content) : c.bytes.length = c.size := by
  rw [bytes_eq, size_eq]

def append (new : Bytes) (c : Content) : Content where
  front := c.front
  behind := new :: c.behind
  size := c.size + new.length
  size_eq := by simp [c.size_eq]; omega

@[simp] theorem bytes_append (c : Content) : (c.append new).bytes = c.bytes ++ new := by
  simp [bytes_eq, append]

/-- Writes a string at an offset; a gap before it is filled with zeros. -/
def writeAt (pos : Nat) (new : Bytes) (c : Content) : Content :=
  if pos = c.size then c.append new else ofBytes (Bytes.writeAt pos new c.bytes)

theorem bytes_writeAt (c : Content) :
    (c.writeAt pos new).bytes = Bytes.writeAt pos new c.bytes := by
  simp only [writeAt]
  split
  · next h => rw [h, ← length_bytes, Bytes.writeAt_length, bytes_append]
  · rfl

/-- Cuts the contents, or fills them up with zeros, to a size. -/
def resize (n : Nat) (c : Content) : Content :=
  if n = c.size then c else ofBytes (Bytes.resize n c.bytes)

theorem bytes_resize (c : Content) : (c.resize n).bytes = Bytes.resize n c.bytes := by
  simp only [resize]
  split
  · next h => simp [h, ← length_bytes, Bytes.resize]
  · rfl

end Content

end KeyedStore
