import DexArchive.Bytes
import DexArchive.Zip.Malformed

/-! The records at the end of an archive: the end record, which is found by its place, and for large
archives the wide end record, whose place is in a locator just before the end record. -/

namespace DexArchive.Zip

/-- The end record, 22 bytes and the comment after them. -/
structure EndRecord where
  diskNumber : UInt16
  directoryDisk : UInt16
  diskEntries : UInt16
  totalEntries : UInt16
  directorySize : UInt32
  directoryOffset : UInt32
  commentLength : UInt16
  deriving DecidableEq, Repr

namespace EndRecord

def length : Nat := 22

def signature : Nat := 0x06054B50

/-- The longest comment. -/
def maxComment : Nat := 65535

/-- The end record whose first byte is at `pos`. -/
def ofBytesAt (b : ByteArray) (pos : Nat) : EndRecord where
  diskNumber := u16At b (pos + 4)
  directoryDisk := u16At b (pos + 6)
  diskEntries := u16At b (pos + 8)
  totalEntries := u16At b (pos + 10)
  directorySize := u32At b (pos + 12)
  directoryOffset := u32At b (pos + 16)
  commentLength := u16At b (pos + 20)

/-- Reads the end record that bytes begin with. -/
def parse (b : ByteArray) : Except Malformed EndRecord :=
  if b.size < length ∨ numberAt b 0 4 ≠ signature then .error .badEndRecord else .ok (ofBytesAt b 0)

/-- A field at its largest value says that the wide end record holds the true one. -/
def IsWide (r : EndRecord) : Prop :=
  r.diskEntries = 0xFFFF ∨ r.totalEntries = 0xFFFF ∨ r.directorySize = 0xFFFFFFFF ∨
    r.directoryOffset = 0xFFFFFFFF

instance (r : EndRecord) : Decidable r.IsWide := inferInstanceAs (Decidable (_ ∨ _))

/-- An end record stands at `pos` if its signature does and its comment takes up the rest. -/
def StandsAt (b : ByteArray) (pos : Nat) : Prop :=
  numberAt b pos 4 = signature ∧ numberAt b (pos + 20) 2 = b.size - pos - length

instance (b : ByteArray) (pos : Nat) : Decidable (StandsAt b pos) :=
  inferInstanceAs (Decidable (_ ∧ _))

/-- The last of the first `n` places at which an end record stands. -/
def lastPlace? (b : ByteArray) : (n : Nat) → Option Nat
  | 0 => none
  | n + 1 => if StandsAt b n then some n else lastPlace? b n

/-- The place of the end record. -/
def place? (b : ByteArray) : Option Nat := lastPlace? b (b.size + 1 - length)

end EndRecord

/-- Where the wide end record is. -/
structure Locator where
  offset : UInt64
  deriving DecidableEq, Repr

namespace Locator

def length : Nat := 20

def signature : Nat := 0x07064B50

def parse (b : ByteArray) : Except Malformed Locator :=
  if b.size < length ∨ numberAt b 0 4 ≠ signature then .error .badLocator else .ok ⟨u64At b 8⟩

end Locator

/-- What of the wide end record matters, 56 bytes at least. -/
structure WideEndRecord where
  totalEntries : UInt64
  directorySize : UInt64
  directoryOffset : UInt64
  deriving DecidableEq, Repr

namespace WideEndRecord

def length : Nat := 56

def signature : Nat := 0x06064B50

def parse (b : ByteArray) : Except Malformed WideEndRecord :=
  if b.size < length ∨ numberAt b 0 4 ≠ signature then .error .badWideEndRecord
  else .ok ⟨u64At b 32, u64At b 40, u64At b 48⟩

end WideEndRecord

/-- Where the central directory is and how many records it has. -/
structure Extent where
  offset : Nat
  size : Nat
  count : Nat
  deriving DecidableEq, Repr

def EndRecord.extent (r : EndRecord) : Extent :=
  ⟨r.directoryOffset.toNat, r.directorySize.toNat, r.totalEntries.toNat⟩

def WideEndRecord.extent (r : WideEndRecord) : Extent :=
  ⟨r.directoryOffset.toNat, r.directorySize.toNat, r.totalEntries.toNat⟩

end DexArchive.Zip
