import DexArchive.Proofs.Zip.Layout
import DexArchive.Proofs.Zip.Reading

/-! Archives whose one file stands in their own comment. Before the directory is a byte that belongs to
nothing, after it the end record, and then the file, with whose data the archive ends. Such an archive opens
to the entry of its file, and but for its own place the byte shows nowhere. -/

namespace DexArchive.Zip

/-! ### A byte in front -/

theorem size_mark (mark : UInt8) : (pack [(1, mark.toNat)]).size = 1 := size_pack _

theorem byteAt_mark_append (mark : UInt8) (b : ByteArray) : byteAt (pack [(1, mark.toNat)] ++ b) 0 = mark := by
  have hmark := size_mark mark
  rw [byteAt_append, if_pos (by omega), pack, byteAt_toByteArray]
  simp [numberBytes]

/-- Nothing but the first byte depends on what it is. -/
theorem slice_mark_append_eq (mark mark' : UInt8) (b : ByteArray) {offset : Nat} (h : 1 ≤ offset) (length : Nat) :
    slice (pack [(1, mark.toNat)] ++ b) offset length = slice (pack [(1, mark'.toNat)] ++ b) offset length := by
  obtain ⟨k, rfl⟩ := Nat.exists_eq_add_of_le h
  have hleft := slice_append_right (pack [(1, mark.toNat)]) b k length
  have hright := slice_append_right (pack [(1, mark'.toNat)]) b k length
  rw [size_mark] at hleft hright
  rw [hleft, hright]

/-! ### The archive -/

/-- A local header without name and extra field, which says nothing else either. -/
def bareHeader : ByteArray := pack [(4, Archive.localHeaderSignature), (26, 0)]

theorem size_bareHeader : bareHeader.size = Archive.localHeaderLength := size_pack _

def bareTrimmings : Trimmings := ⟨20, 20, 0, 0, 0, 0, 0, [], [], .empty⟩

/-- The record of an entry, with nothing that can be left out. -/
def DirectoryRecord.bare (e : Entry) (method_eq : Method.ofId e.method.id = e.method)
    (name_lt : e.name.toUTF8.size < 2 ^ 16) (extra_lt : (e.extra bareTrimmings).size < 2 ^ 16) : DirectoryRecord where
  entry := e
  trimmings := bareTrimmings
  method_eq := method_eq
  name_lt := name_lt
  extra_lt := extra_lt
  comment_lt := by decide
  before_ne := by decide
  after_ne := by decide

/-- The end record of such an archive. -/
def annexRecord (record : DirectoryRecord) (data : ByteArray) : EndRecord :=
  .ofExtent ⟨1, record.bytes.size, 1⟩ (bareHeader ++ data).size

/-- The record of the file in the directory, and its data. The directory says where the header is, and no
other end record stands in the comment. -/
structure Annex where
  record : DirectoryRecord
  data : ByteArray
  record_lt : record.bytes.size < 2 ^ 16
  comment_lt : (bareHeader ++ data).size < 2 ^ 16
  headerOffset_eq : record.entry.headerOffset.toNat = 1 + record.bytes.size + EndRecord.length
  isLast : ∀ p < (bareHeader ++ data).size,
    ¬ EndRecord.StandsAt ((annexRecord record data).bytes ++ (bareHeader ++ data)) (p + 1)

namespace Annex

variable {σ : Type} (a : Annex) (mark : UInt8)

def parts : Parts where
  front := pack [(1, mark.toNat)]
  records := [a.record]
  gap := .empty
  wide := none
  last := annexRecord a.record a.data
  comment := bareHeader ++ a.data

/-- The archive, with the given byte in front. -/
def bytes : ByteArray := (a.parts mark).bytes

/-- The archive, once it is opened. -/
def archive (reader : Reader σ) : Archive σ := ⟨reader, [a.record.entry]⟩

/-- Where the data of the file begin. -/
def start : Nat := a.record.entry.headerOffset.toNat + Archive.localHeaderLength

theorem size_front : (a.parts mark).front.size = 1 := size_pack _

theorem directory_parts : (a.parts mark).directory = a.record.bytes := ByteArray.append_empty

theorem last_parts : (a.parts mark).last = annexRecord a.record a.data := rfl

theorem comment_parts : (a.parts mark).comment = bareHeader ++ a.data := rfl

theorem extent_parts : (a.parts mark).extent = ⟨1, a.record.bytes.size, 1⟩ := by
  rw [Parts.extent, size_front, directory_parts]
  rfl

theorem endOffset_parts : (a.parts mark).endOffset = 1 + a.record.bytes.size := by
  have hgap : (a.parts mark).gap.size = 0 := ByteArray.size_empty
  have hwide : (a.parts mark).wideBytes.size = 0 := ByteArray.size_empty
  rw [Parts.endOffset, size_front, directory_parts, hgap, hwide, Nat.add_zero]

/-! ### The parts of the bytes -/

theorem bytes_eq : a.bytes mark = pack [(1, mark.toNat)] ++
    (a.record.bytes ++ ((annexRecord a.record a.data).bytes ++ (bareHeader ++ a.data))) := by
  have hparts : a.bytes mark = pack [(1, mark.toNat)] ++ ((a.parts mark).directory ++
      (.empty ++ (.empty ++ ((annexRecord a.record a.data).bytes ++ (bareHeader ++ a.data))))) := rfl
  rw [hparts, directory_parts, ByteArray.empty_append, ByteArray.empty_append]

theorem size_bytes : (a.bytes mark).size =
    1 + a.record.bytes.size + EndRecord.length + (bareHeader ++ a.data).size := by
  rw [bytes_eq, ByteArray.size_append, ByteArray.size_append, ByteArray.size_append, EndRecord.size_bytes, size_mark]
  omega

theorem size_bytes_eq_start : (a.bytes mark).size = a.start + a.data.size := by
  rw [size_bytes, ByteArray.size_append, size_bareHeader, start, a.headerOffset_eq]
  omega

theorem has_last : Has (a.bytes mark) (1 + a.record.bytes.size)
    ((annexRecord a.record a.data).bytes ++ (bareHeader ++ a.data)) := by
  have h : Has (a.bytes mark) 0 (pack [(1, mark.toNat)] ++
      (a.record.bytes ++ ((annexRecord a.record a.data).bytes ++ (bareHeader ++ a.data)))) := by
    rw [← bytes_eq]
    exact Has.refl _
  have hlast := h.append_right.append_right
  rwa [size_mark, Nat.zero_add] at hlast

theorem has_header : Has (a.bytes mark) a.record.entry.headerOffset.toNat bareHeader := by
  have h := (a.has_last mark).append_right.append_left
  rwa [EndRecord.size_bytes, ← a.headerOffset_eq] at h

/-- The archive ends with the data, so what is read from there on is of the data. -/
theorem slice_bytes_start (k n : Nat) : slice (a.bytes mark) (a.start + k) n = slice a.data k n := by
  have hsize := a.size_bytes_eq_start mark
  have hbytes := a.bytes_eq mark
  rw [← ByteArray.append_assoc, ← ByteArray.append_assoc, ← ByteArray.append_assoc] at hbytes
  rw [hbytes, ByteArray.size_append] at hsize
  rw [hbytes, ← Nat.add_right_cancel hsize]
  exact slice_append_right _ a.data k n

theorem byteAt_bytes_zero : byteAt (a.bytes mark) 0 = mark := by
  rw [bytes_eq, byteAt_mark_append]

theorem slice_bytes_eq (mark' : UInt8) {offset : Nat} (h : 1 ≤ offset) (length : Nat) :
    slice (a.bytes mark) offset length = slice (a.bytes mark') offset length := by
  rw [bytes_eq a mark, bytes_eq a mark', slice_mark_append_eq mark mark' _ h]

/-! ### Opening -/

theorem narrow_parts : ¬ (a.parts mark).last.IsWide ∧ (a.parts mark).last.extent = (a.parts mark).extent := by
  have hrecord := a.record_lt
  rw [last_parts, extent_parts, annexRecord]
  generalize a.record.bytes.size = size at hrecord
  exact EndRecord.extent_ofExtent (show 1 < 0xFFFF by decide) (show size < 0xFFFFFFFF by omega)
    (show 1 < 0xFFFFFFFF by decide) _

def layout : Layout where
  toParts := a.parts mark
  size_le := by
    have hrecord := a.record_lt
    have hcomment := a.comment_lt
    have hlength : EndRecord.length = 22 := rfl
    have hmax : 2 ^ 18 < addressMax := by decide
    rw [Parts.size_bytes, endOffset_parts, comment_parts]
    omega
  comment_eq := by
    rw [last_parts, comment_parts, annexRecord, EndRecord.ofExtent]
    exact UInt16.toNat_ofNat_of_lt' a.comment_lt
  narrow _ := a.narrow_parts mark
  saturated h := absurd rfl h

/-- The archive opens to the entry of its file. -/
theorem ofReader_eq {reader : Reader σ} (h : reader.Holds (a.bytes mark)) (s : σ) :
    ∃ s', Archive.ofReader reader s = (.ok (a.archive reader), s') := by
  refine Layout.ofReader_eq_entries (l := a.layout mark) h ?_ s
  intro p hp hle hstands
  have hsize := a.size_bytes mark
  have hlength : EndRecord.length = 22 := rfl
  have hoffset : (a.layout mark).endOffset = 1 + a.record.bytes.size := a.endOffset_parts mark
  have hend : slice (a.bytes mark) (1 + a.record.bytes.size) ((a.bytes mark).size - (1 + a.record.bytes.size)) =
      (annexRecord a.record a.data).bytes ++ (bareHeader ++ a.data) := by
    have hlast := a.has_last mark
    rw [Has, ByteArray.size_append, EndRecord.size_bytes] at hlast
    rwa [hsize, Nat.add_assoc (1 + a.record.bytes.size), Nat.add_sub_cancel_left]
  have hle : p + EndRecord.length ≤ (a.bytes mark).size := hle
  obtain ⟨q, rfl⟩ : ∃ q, p = 1 + a.record.bytes.size + (q + 1) :=
    ⟨p - (1 + a.record.bytes.size) - 1, by omega⟩
  have hstands' := (EndRecord.standsAt_slice_iff hle).2 hstands
  rw [hend] at hstands'
  exact a.isLast q (by omega) hstands'

/-! ### The file -/

section File

variable {a mark} {e : Entry} (he : e.headerOffset = a.record.entry.headerOffset)

include he

theorem dataStart_eq : Archive.dataStart (a.bytes mark) e = a.start := by
  have hheader := a.has_header mark
  have hname : numberAt (a.bytes mark) (e.headerOffset.toNat + 26) 2 = 0 := by
    rw [he, hheader.numberAt (by decide +kernel)]
    decide +kernel
  have hextra : numberAt (a.bytes mark) (e.headerOffset.toNat + 28) 2 = 0 := by
    rw [he, hheader.numberAt (by decide +kernel)]
    decide +kernel
  rw [Archive.dataStart, hname, hextra, he]
  rfl

theorem header_le : e.headerOffset.toNat + Archive.localHeaderLength ≤ (a.bytes mark).size := by
  have hsize := a.size_bytes_eq_start mark
  rw [he, hsize, start]
  omega

theorem signature_eq : numberAt (a.bytes mark) e.headerOffset.toNat 4 = Archive.localHeaderSignature := by
  rw [he, ← Nat.add_zero a.record.entry.headerOffset.toNat, (a.has_header mark).numberAt (by decide +kernel)]
  decide +kernel

/-- The content of any entry with the place of the file begins with the data. -/
theorem content_eq {reader : Reader σ} (h : reader.Holds (a.bytes mark)) (hu : e.unsupported? = none) (s : σ) :
    ∃ s', (a.archive reader).content e s = (.ok (.ofEntry e a.start), s') := by
  have hstart : Archive.dataStart (a.bytes mark) e = a.start := dataStart_eq he
  rw [← hstart]
  exact Archive.content_of_holds (a := a.archive reader) h hu (header_le he) (signature_eq he) s

/-- The archive has every entry that says of its file what is so. -/
theorem hasEntry {b : ByteArray} (hu : e.unsupported? = none) (hcompressed : e.compressedSize.toNat = a.data.size)
    (hwhole : e.method.IsWhole a.data b) (hsize : e.uncompressedSize.toNat = b.size) (hcrc : e.crc = crc32 b) :
    Archive.HasEntry (a.bytes mark) e a.data b where
  supported := hu
  header_le := header_le he
  signature_eq := signature_eq he
  compressedSize_eq := hcompressed
  data_le := Nat.le_of_eq (by rw [dataStart_eq he, size_bytes_eq_start])
  data_eq := by
    rw [dataStart_eq he]
    exact (a.slice_bytes_start mark 0 a.data.size).trans (slice_of_size_le (Nat.le_refl _))
  isWhole := hwhole
  size_eq := hsize
  crc_eq := hcrc

end File

end Annex

end DexArchive.Zip
