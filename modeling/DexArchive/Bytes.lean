/-! Byte strings: slices that stop at the end, and numbers written with the lowest byte first. -/

namespace DexArchive

/-- The byte at a position, zero past the end. -/
def byteAt (b : ByteArray) (i : Nat) : UInt8 := if h : i < b.size then b[i] else 0

/-- The bytes from `start` on, `length` of them or as many as there are. -/
def slice (b : ByteArray) (start length : Nat) : ByteArray :=
  b.extract (min start b.size) (min (start + length) b.size)

theorem size_slice (b : ByteArray) (start length : Nat) :
    (slice b start length).size = min length (b.size - start) := by
  simp only [slice, ByteArray.size_extract]
  omega

theorem size_slice_le (b : ByteArray) (start length : Nat) : (slice b start length).size ≤ length := by
  rw [size_slice]
  omega

/-- The number in the `width` bytes from `pos` on, the lowest byte first. -/
def numberAt (b : ByteArray) : (pos width : Nat) → Nat
  | _, 0 => 0
  | pos, width + 1 => (byteAt b pos).toNat + 256 * numberAt b (pos + 1) width

def u16At (b : ByteArray) (pos : Nat) : UInt16 := .ofNat (numberAt b pos 2)

def u32At (b : ByteArray) (pos : Nat) : UInt32 := .ofNat (numberAt b pos 4)

def u64At (b : ByteArray) (pos : Nat) : UInt64 := .ofNat (numberAt b pos 8)

/-- The `width` bytes of a number, the lowest first; what does not fit is dropped. -/
def numberBytes : (width n : Nat) → List UInt8
  | 0, _ => []
  | width + 1, n => .ofNat n :: numberBytes width (n / 256)

end DexArchive
