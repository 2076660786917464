import KeyedStore.Item.Header
import KeyedStore.Text.Decimal

/-!
# Item suffixes

The suffix of an item is a line of text between its key and its data: a space, the client's flags,
a space, the length of the value without its terminator, and a line end. The flags of an item are
stored nowhere else.
-/

namespace KeyedStore

namespace Suffix

/-- The line for given flags and data length, when the length covers the terminator. -/
def encode (flags : UInt32) (dataLength : Nat) : Except Error Bytes :=
  if dataLength < Header.terminator.length then .error (.valueLength dataLength)
  else
    let line := 32 :: Decimal.encode flags.toNat ++
      32 :: Decimal.encode (dataLength - Header.terminator.length) ++ Header.terminator
    if line.length > Header.maxSuffixLength then
      .error (.malformedItem (.suffixTooLong flags dataLength))
    else .ok line

/-- The text without the line end that closes it. -/
def withoutLineEnd? (text : Bytes) : Option Bytes :=
  match text.reverse with
  | 10 :: 13 :: body => some body.reverse
  | _ => none

def atSpace? (text : Bytes) : Option (Bytes × Bytes) :=
  match text.dropWhile (· ≠ 32) with
  | _ :: after => some (text.takeWhile (· ≠ 32), after)
  | [] => none

/-- The flags and the value length that a line states, if it has the form of a suffix. -/
def parse? : Bytes → Option (UInt32 × Nat)
  | 32 :: text => do
    let body ← withoutLineEnd? text
    let (flags, length) ← atSpace? body
    let flags ← Decimal.decode? (Bytes.bound 4) flags
    let length ← Decimal.decode? (Bytes.bound 8) length
    return (.ofNat flags, length)
  | _ => none

def decode (suffix : Bytes) : Except Error (UInt32 × Nat) :=
  match parse? suffix with
  | some read => .ok read
  | none => .error (.malformedItem (.badSuffix suffix))

/-- The suffix as it is shown in a trace. -/
def describe (suffix : Bytes) : String := "Suffix(" ++ Quoted.encode (Utf8.lossy suffix) ++ ")"

end Suffix

/-- The header and the suffix of an item with a key of `keyLength` bytes and data of `dataLength`
bytes, the terminator included. -/
def Header.compute (keyLength : Nat) (flags : UInt32) (dataLength : Nat) :
    Except Error (Header × Bytes) :=
  if keyLength > maxKeyLength then .error (.keyTooLong keyLength)
  else if dataLength < terminator.length ∨ dataLength ≥ Bytes.bound 4 then
    .error (.valueLength dataLength)
  else do
    let suffix ← Suffix.encode flags dataLength
    return ({ dataLength := .ofNat dataLength, keyLength := .ofNat keyLength,
              suffixLength := .ofNat suffix.length }, suffix)

/-- The size of the smallest item: no key, no value, and one digit for each number. -/
def Header.smallestItem : Nat := size + 1 + 6 + terminator.length

end KeyedStore
