import KeyedStore.Bytes

/-!
# ASCII text

Byte strings below 128 as text and back. Text with any other character has no such form.
-/

namespace KeyedStore.Ascii

def ofBytes (bs : Bytes) : String := String.ofList (bs.map fun b => Char.ofNat b.toNat)

def code? (c : Char) : Option UInt8 := if c.toNat < 128 then some (.ofNat c.toNat) else none

def toBytes? (s : String) : Option Bytes := s.toList.mapM code?

end KeyedStore.Ascii
