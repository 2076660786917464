import KeyedStore.Bytes

/-!
# UTF-8

Reads byte strings as text. `pieces` cuts a string into characters and ill-formed parts, each
part as long as a beginning of some character can be. From it come the strict reading, which
refuses any ill-formed part, and the lossy one, which shows U+FFFD for each.
-/

namespace KeyedStore.Utf8

/-- What a first byte announces: the number of bytes that follow, the range of the next one, and
the bits of the character that the first byte holds. -/
structure Lead where
  tails : Nat
  low : UInt8 := 0x80
  high : UInt8 := 0xBF
  bits : Nat

/-- Reads a first byte; the ranges keep out overlong forms, surrogates and codes past U+10FFFF. -/
def lead? (b : UInt8) : Option Lead :=
  if b ≤ 0x7F then some { tails := 0, bits := b.toNat }
  else if b < 0xC2 then none
  else if b ≤ 0xDF then some { tails := 1, bits := b.toNat - 0xC0 }
  else if b = 0xE0 then some { tails := 2, low := 0xA0, bits := 0 }
  else if b = 0xED then some { tails := 2, high := 0x9F, bits := 0xD }
  else if b ≤ 0xEF then some { tails := 2, bits := b.toNat - 0xE0 }
  else if b = 0xF0 then some { tails := 3, low := 0x90, bits := 0 }
  else if b ≤ 0xF3 then some { tails := 3, bits := b.toNat - 0xF0 }
  else if b = 0xF4 then some { tails := 3, high := 0x8F, bits := 4 }
  else none

/-- Reads the bytes after the first one: the code point, or `none` at the first byte that cannot
continue it, and what is left. -/
def follow : Nat → UInt8 → UInt8 → Nat → Bytes → Option Nat × Bytes
  | 0, _, _, code, bs => (some code, bs)
  | _ + 1, _, _, _, [] => (none, [])
  | n + 1, low, high, code, b :: bs =>
    if low ≤ b ∧ b ≤ high then follow n 0x80 0xBF (code * 64 + b.toNat % 64) bs
    else (none, b :: bs)

theorem length_follow_le (n : Nat) (low high : UInt8) (code : Nat) (bs : Bytes) :
    (follow n low high code bs).2.length ≤ bs.length := by
  fun_induction follow n low high code bs with
  | case1 => simp
  | case2 => simp
  | case3 n low high code b bs h ih => simp only [List.length_cons]; omega
  | case4 => simp

/-- The string as characters, with `none` for each ill-formed part. -/
def pieces (bs : Bytes) : List (Option Char) :=
  go [] bs
where
  /-- Collects the pieces in reverse order. -/
  go (done : List (Option Char)) : Bytes → List (Option Char)
    | [] => done.reverse
    | b :: bs =>
      match lead? b with
      | none => go (none :: done) bs
      | some l =>
        let next := follow l.tails l.low l.high l.bits bs
        go (next.1.map Char.ofNat :: done) next.2
  termination_by bs => bs.length
  decreasing_by
    · exact Nat.lt_succ_self _
    · exact Nat.lt_succ_of_le (length_follow_le l.tails l.low l.high l.bits bs)

def decode? (bs : Bytes) : Option (List Char) := (pieces bs).mapM id

/-- The text of a string, U+FFFD standing for each ill-formed part. -/
def lossy (bs : Bytes) : String := String.ofList ((pieces bs).map (·.getD '\uFFFD'))

def encode (s : String) : Bytes := s.toUTF8.toList

end KeyedStore.Utf8
