/-! CRC-32, the checksum of archive entries: the remainder by a polynomial over the bits of the data,
with the bits of each byte taken from the low end. -/

namespace DexArchive.Checksum

/-- The generator polynomial, the coefficient of the highest power in the lowest bit. -/
def polynomial : UInt32 := 0xEDB88320

/-- Moves the remainder past one bit. -/
def shiftBit (r : UInt32) : UInt32 :=
  if r &&& 1 = 1 then (r >>> 1) ^^^ polynomial else r >>> 1

/-- Moves the remainder past `n` bits. -/
def shiftBits : Nat → UInt32 → UInt32
  | 0, r => r
  | n + 1, r => shiftBits n (shiftBit r)

/-- Takes one byte of the data into the remainder. -/
def absorb (r : UInt32) (b : UInt8) : UInt32 := shiftBits 8 (r ^^^ b.toUInt32)

end DexArchive.Checksum

namespace DexArchive

/-- The CRC-32 of a byte string. -/
def crc32 (b : ByteArray) : UInt32 :=
  b.data.foldl Checksum.absorb 0xFFFFFFFF ^^^ 0xFFFFFFFF

end DexArchive
