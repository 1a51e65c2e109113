import DexArchive.Dex.Header
import DexArchive.Proofs.Bytes

/-! The verdict on a byte string depends on its first 44 bytes only. Where it is good, the whole header can be
read if it is there. -/

namespace DexArchive.Dex

theorem verify_of_size_lt {b : ByteArray} (h : b.size < sniffLength) : verify b = .error .tooShort :=
  if_pos h

theorem byteAt_start {b : ByteArray} {length i : Nat} (h : i < length) :
    byteAt (slice b 0 length) i = byteAt b i := by
  rw [byteAt_slice, if_pos h, Nat.zero_add]

theorem magicVersion?_start {b : ByteArray} {length : Nat} (hlength : 8 ≤ length) (h : length ≤ b.size) :
    magicVersion? (slice b 0 length) = magicVersion? b := by
  have hsize : ¬ (slice b 0 length).size < 8 := by rw [size_slice]; omega
  have hmagic : numberAt (slice b 0 length) 0 4 = numberAt b 0 4 := by
    rw [numberAt_slice b (by omega), Nat.zero_add]
  rw [magicVersion?, magicVersion?, if_neg hsize, if_neg (show ¬ b.size < 8 by omega), hmagic,
    byteAt_start (by omega), byteAt_start (by omega), byteAt_start (by omega), byteAt_start (by omega)]

theorem verify_start {b : ByteArray} (h : sniffLength ≤ b.size) : verify (slice b 0 sniffLength) = verify b := by
  have hsize : ¬ (slice b 0 sniffLength).size < sniffLength := by rw [size_slice]; omega
  have hversion := magicVersion?_start (show 8 ≤ sniffLength by decide) h
  have hmagic : (List.range 8).map (byteAt (slice b 0 sniffLength)) = (List.range 8).map (byteAt b) := by
    refine List.map_congr_left fun i hi => byteAt_start ?_
    have hi := List.mem_range.1 hi
    exact Nat.lt_trans hi (by decide)
  have htag : u32At (slice b 0 sniffLength) 40 = u32At b 40 := by
    rw [u32At, u32At, numberAt_slice b (show 40 + 4 ≤ sniffLength by decide), Nat.zero_add]
  rw [verify, verify, if_neg hsize, if_neg (Nat.not_lt.2 h), hversion, hmagic, htag]

/-! ### The whole header -/

namespace Header

variable {b : ByteArray} {version : UInt32}

theorem parse_of_size_lt (h : verify b = .ok version) (hlt : b.size < headerLength) :
    parse b = .error (.truncated b.size) := by
  rw [parse, h]
  exact if_pos hlt

theorem parse_of_le_size (h : verify b = .ok version) (hle : headerLength ≤ b.size) :
    parse b = .ok (.ofFields version b) := by
  rw [parse, h]
  exact if_neg (Nat.not_lt.2 hle)

end Header

/-- The shortest dex file that is recognised. -/
def shortDex : ByteArray := pack [(4, 0x0A786564), (4, 0x00353330), (32, 0), (4, 0x12345678)]

theorem verify_shortDex : verify shortDex = .ok 35 := rfl

end DexArchive.Dex
