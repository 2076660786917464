import KeyedStore.Bytes

/-!
# Decimal numbers

Unsigned numbers as ASCII digits. Writing uses the fewest digits; reading takes one leading plus
sign and leading zeros, refuses an empty text, and refuses a number that reaches its bound.
-/

namespace KeyedStore.Decimal

def encode (n : Nat) : Bytes :=
  if n < 10 then [UInt8.ofNat (48 + n)]
  else encode (n / 10) ++ [UInt8.ofNat (48 + n % 10)]

def padded (w n : Nat) : Bytes :=
  let digits := encode n
  List.replicate (w - digits.length) 48 ++ digits

/-- Reads digits on top of the number read so far; `none` at anything else, or at `bound`. -/
def readDigits? (bound : Nat) : Nat → Bytes → Option Nat
  | n, [] => some n
  | n, b :: bs =>
    if 48 ≤ b ∧ b ≤ 57 then
      let m := 10 * n + (b.toNat - 48)
      if m < bound then readDigits? bound m bs else none
    else none

/-- The number below `bound` that a text stands for. -/
def decode? (bound : Nat) : Bytes → Option Nat
  | 43 :: b :: bs => readDigits? bound 0 (b :: bs)
  | b :: bs => readDigits? bound 0 (b :: bs)
  | [] => none

end KeyedStore.Decimal
