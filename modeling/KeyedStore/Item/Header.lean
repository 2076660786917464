import KeyedStore.Error

/-!
# Item headers

The eight bytes in front of every item: the length of its data (value and terminator), of its key
and of its suffix, and a magic byte. The total size of an item is never stored; it follows from
the three lengths, one separator byte after the key included.
-/

namespace KeyedStore

/-- The lengths that describe an item. -/
structure Header where
  dataLength : UInt32
  keyLength : UInt16
  suffixLength : UInt8
deriving DecidableEq, Repr

namespace Header

def size : Nat := 8

def maxKeyLength : Nat := 250

def maxSuffixLength : Nat := 40

/-- Ends the data of every item. -/
def terminator : Bytes := [13, 10]

/-- Marks a written header. -/
def magic : UInt8 := 0xA7

def total (h : Header) : Nat :=
  size + (h.keyLength.toNat + 1) + h.suffixLength.toNat + h.dataLength.toNat

def encode (h : Header) : Bytes :=
  Bytes.le 4 h.dataLength.toNat ++ Bytes.le 2 h.keyLength.toNat ++ [h.suffixLength, magic]

@[simp] theorem length_encode (h : Header) : h.encode.length = size := by
  simp [encode, size]

/-- Reads the header at the front of a buffer and checks each length against its range. -/
def decode : Bytes → Except Error Header
  | d0 :: d1 :: d2 :: d3 :: k0 :: k1 :: suffixLength :: mark :: _ =>
    let dataLength := Bytes.ofLE [d0, d1, d2, d3]
    let keyLength := Bytes.ofLE [k0, k1]
    if mark ≠ magic then .error (.malformedItem (.badMagic mark))
    else if dataLength < terminator.length then .error (.malformedItem (.valueTooShort dataLength))
    else if keyLength > maxKeyLength then .error (.malformedItem (.keyLength keyLength))
    else if suffixLength.toNat > maxSuffixLength then
      .error (.malformedItem (.suffixLength suffixLength.toNat))
    else
      .ok { dataLength := .ofNat dataLength, keyLength := .ofNat keyLength, suffixLength }
  | bs => .error (.malformedItem (.headerCut bs.length))

end Header

end KeyedStore
