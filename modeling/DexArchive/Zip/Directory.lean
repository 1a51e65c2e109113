import DexArchive.Bytes
import DexArchive.Text.Utf8
import DexArchive.Zip.Entry
import DexArchive.Zip.Malformed

/-! The central directory: a record for each entry, one after the other. A record has 46 bytes of fixed
fields, then the name, the extra field and the comment. -/

namespace DexArchive.Zip

/-- The sizes and the offset of an entry. A field of 32 bits at its largest value is saturated: the true
value is in the extra field. -/
structure Bounds where
  uncompressed : UInt64
  compressed : UInt64
  offset : UInt64
  deriving DecidableEq, Repr

namespace Bounds

def saturated : UInt64 := 0xFFFFFFFF

/-- A value and the next position, for a field with the value so far: eight bytes at `pos`, if the field
is saturated and they end by `stop`; none if they run past the end of the directory. -/
def widen (dir : ByteArray) (stop : Nat) (value : UInt64) (pos : Nat) : Option (UInt64 × Nat) :=
  if value = saturated ∧ pos + 8 ≤ stop then
    if pos + 8 ≤ dir.size then some (u64At dir pos, pos + 8) else none
  else some (value, pos)

/-- Takes wide values, in their order, from the bytes from `pos` to `stop`. -/
def widenAll (dir : ByteArray) (pos stop : Nat) (b : Bounds) : Option Bounds := do
  let (uncompressed, pos) ← widen dir stop b.uncompressed pos
  let (compressed, pos) ← widen dir stop b.compressed pos
  let (offset, _) ← widen dir stop b.offset pos
  return ⟨uncompressed, compressed, offset⟩

/-- The id of the extra field for wide values. -/
def wideId : Nat := 1

/-- Goes through the extra field from `pos` to `stop`: fields of an id, a size and as many bytes. -/
def resolve (dir : ByteArray) (pos stop : Nat) (b : Bounds) : Option Bounds :=
  if pos + 4 ≤ stop then
    let next := pos + 4 + numberAt dir (pos + 2) 2
    if numberAt dir pos 2 = wideId then do resolve dir next stop (← b.widenAll dir (pos + 4) next)
    else resolve dir next stop b
  else some b
termination_by stop - pos

end Bounds

namespace Entry

/-- The length of the fixed fields of a record. -/
def recordLength : Nat := 46

def recordSignature : Nat := 0x02014B50

/-- Reads the record at `pos`; gives its entry and where the next record is. -/
def parse (dir : ByteArray) (pos : Nat) : Except RecordFault (Entry × Nat) :=
  if dir.size < pos + 4 then .error .truncated
  else if numberAt dir pos 4 ≠ recordSignature then .error .badSignature
  else
    let nameEnd := pos + recordLength + numberAt dir (pos + 28) 2
    let extraEnd := nameEnd + numberAt dir (pos + 30) 2
    let stop := extraEnd + numberAt dir (pos + 32) 2
    if dir.size < pos + recordLength ∨ dir.size < nameEnd then .error .truncated
    else if dir.size < stop then .error .overrun
    else
      let bounds : Bounds :=
        ⟨(u32At dir (pos + 24)).toUInt64, (u32At dir (pos + 20)).toUInt64,
          (u32At dir (pos + 42)).toUInt64⟩
      match bounds.resolve dir nameEnd extraEnd with
      | none => .error .truncated
      | some bounds =>
        .ok ({ name := Text.ofUtf8 (dir.extract (pos + recordLength) nameEnd)
               method := .ofId (u16At dir (pos + 10))
               compressedSize := bounds.compressed
               uncompressedSize := bounds.uncompressed
               crc := u32At dir (pos + 16)
               headerOffset := bounds.offset
               flags := u16At dir (pos + 8) }, stop)

end Entry

/-- Reads `count` records from `pos` on, the first of them the record number `index`. -/
def parseRecords (dir : ByteArray) : (count index pos : Nat) → Except Malformed (List Entry)
  | 0, _, _ => .ok []
  | count + 1, index, pos =>
    match Entry.parse dir pos with
    | .error fault => .error (.badRecord index fault)
    | .ok (entry, next) =>
      match parseRecords dir count (index + 1) next with
      | .error e => .error e
      | .ok entries => .ok (entry :: entries)

/-- Reads the entries of a central directory with `count` records. -/
def parseDirectory (dir : ByteArray) (count : Nat) : Except Malformed (List Entry) :=
  parseRecords dir count 0 0

end DexArchive.Zip
