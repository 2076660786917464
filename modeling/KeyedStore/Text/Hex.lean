import KeyedStore.Bytes

/-!
# Hexadecimal text

Numbers and byte strings in lower-case hexadecimal digits.
-/

namespace KeyedStore.Hex

def digit (n : Nat) : Char :=
  if n < 10 then Char.ofNat (48 + n) else Char.ofNat (87 + n)

def digits (n : Nat) : String := String.ofList (Nat.toDigits 16 n)

/-- The low `w` digits of a number, one by one. -/
def lowDigits : Nat → Nat → List Char
  | 0, _ => []
  | w + 1, n => lowDigits w (n / 16) ++ [digit (n % 16)]

def padded (w n : Nat) : String := String.ofList (lowDigits w n)

def ofBytes (bs : Bytes) : String :=
  bs.foldl (fun s b => (s.push (digit (b.toNat / 16))).push (digit (b.toNat % 16))) ""

def value? (c : Char) : Option Nat :=
  if '0' ≤ c ∧ c ≤ '9' then some (c.toNat - 48)
  else if 'a' ≤ c ∧ c ≤ 'f' then some (c.toNat - 87)
  else none

/-- The bytes that a text of digit pairs stands for. -/
def toBytes? (s : String) : Option Bytes :=
  go [] s.toList
where
  /-- Collects the bytes in reverse order. -/
  go (done : Bytes) : List Char → Option Bytes
    | [] => some done.reverse
    | [_] => none
    | a :: b :: cs =>
      match value? a, value? b with
      | some h, some l => go (UInt8.ofNat (16 * h + l) :: done) cs
      | _, _ => none

end KeyedStore.Hex
