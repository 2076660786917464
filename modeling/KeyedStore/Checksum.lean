import KeyedStore.Bytes

/-!
# CRC-32

The cyclic redundancy check of 32 bits with the reflected polynomial `0xEDB88320`, the register
starting at all ones and complemented at the end. Feeding a string in pieces equals feeding their
concatenation, because the register is a left fold over the bytes.
-/

namespace KeyedStore.Checksum

/-- One bit of the division: shift right, and subtract the polynomial when a one falls out. -/
def shiftBit (crc : UInt32) : UInt32 :=
  if crc &&& 1 = 1 then (crc >>> 1) ^^^ 0xEDB88320 else crc >>> 1

def feedByte (crc : UInt32) (byte : UInt8) : UInt32 :=
  let c := crc ^^^ byte.toUInt32
  shiftBit (shiftBit (shiftBit (shiftBit (shiftBit (shiftBit (shiftBit (shiftBit c)))))))

def feed (crc : UInt32) (bs : Bytes) : UInt32 := bs.foldl feedByte crc

def crc32 (bs : Bytes) : UInt32 := ~~~ feed 0xFFFFFFFF bs

theorem feed_append (crc : UInt32) (as bs : Bytes) : feed crc (as ++ bs) = feed (feed crc as) bs :=
  List.foldl_append

-- The check value of the nine digits.
example : crc32 [49, 50, 51, 52, 53, 54, 55, 56, 57] = 0xCBF43926 := by decide +kernel

end KeyedStore.Checksum
