import DexArchive.Proofs.Zip.Directory
import DexArchive.Proofs.Zip.EndRecord

/-! Archives as they are laid out: the directory somewhere in the bytes, and the end, which says where it
is. Opening an archive gives back the entries that its directory was written for. -/

namespace DexArchive.Zip

theorem DirectoryRecord.length_le_size_bytesOfAll (records : List DirectoryRecord) :
    records.length ≤ (bytesOfAll records).size := by
  induction records with
  | nil => exact Nat.zero_le _
  | cons r records ih =>
      have hsize := r.size_bytes
      have hlength : Entry.recordLength = 46 := rfl
      rw [List.length_cons, bytesOfAll_cons, ByteArray.size_append]
      omega

/-- The parts of an archive: whatever stands before the directory, its records, whatever stands after it,
the wide end record if there is one, the end record and the comment. -/
structure Parts where
  front : ByteArray
  records : List DirectoryRecord
  gap : ByteArray
  wide : Option WideTrimmings
  last : EndRecord
  comment : ByteArray

namespace Parts

def directory (p : Parts) : ByteArray := DirectoryRecord.bytesOfAll p.records

def extent (p : Parts) : Extent := ⟨p.front.size, p.directory.size, p.records.length⟩

def wideEndRecord (p : Parts) : WideEndRecord :=
  ⟨.ofNat p.records.length, .ofNat p.directory.size, .ofNat p.front.size⟩

def locator (p : Parts) : Locator := ⟨.ofNat (p.front.size + p.directory.size + p.gap.size)⟩

/-- The wide end record and its locator. -/
def wideBytes (p : Parts) : ByteArray :=
  match p.wide with
  | none => .empty
  | some t => p.wideEndRecord.bytes t ++ p.locator.bytes t

def bytes (p : Parts) : ByteArray :=
  p.front ++ (p.directory ++ (p.gap ++ (p.wideBytes ++ (p.last.bytes ++ p.comment))))

/-- Where the end record is. -/
def endOffset (p : Parts) : Nat := p.front.size + p.directory.size + p.gap.size + p.wideBytes.size

theorem size_bytes (p : Parts) : p.bytes.size = p.endOffset + EndRecord.length + p.comment.size := by
  simp only [bytes, endOffset, ByteArray.size_append, EndRecord.size_bytes]
  omega

end Parts

/-- Parts that belong together: positions are numbers of 64 bits, the end record has the length of the
comment, and it says where the directory is, or it is saturated and the wide end record says it. -/
structure Layout extends Parts where
  size_le : toParts.bytes.size ≤ addressMax
  comment_eq : last.commentLength.toNat = comment.size
  narrow : wide = none → ¬ last.IsWide ∧ last.extent = toParts.extent
  saturated : wide ≠ none → last.IsWide

namespace Layout

variable {σ : Type} {reader : Reader σ}

section Places

variable (l : Layout)

theorem has_front : Has l.bytes 0 l.front := by
  have h := Has.refl l.bytes
  exact h.append_left

theorem has_directory : Has l.bytes l.front.size l.directory := by
  have h := (Has.refl l.bytes).append_right.append_left
  rwa [Nat.zero_add] at h

theorem has_wideBytes :
    Has l.bytes (l.front.size + l.directory.size + l.gap.size) l.wideBytes := by
  have h := (Has.refl l.bytes).append_right.append_right.append_right.append_left
  rwa [Nat.zero_add] at h

theorem has_last : Has l.bytes l.endOffset l.last.bytes := by
  have h := (Has.refl l.bytes).append_right.append_right.append_right.append_right.append_left
  rwa [Nat.zero_add] at h

theorem standsAt_endOffset : EndRecord.StandsAt l.bytes l.endOffset := by
  have hsize := l.size_bytes
  have hcomment := l.comment_eq
  exact EndRecord.standsAt_of_has l.has_last (by omega)

theorem isLast (hlast : ∀ p, l.endOffset < p → p + EndRecord.length ≤ l.bytes.size →
    ¬ EndRecord.StandsAt l.bytes p) : EndRecord.IsLast l.bytes l.endOffset := by
  have hsize := l.size_bytes
  exact ⟨l.standsAt_endOffset, by omega, hlast⟩

/-- Without a comment there is no place for a later end record. -/
theorem isLast_of_comment_eq_empty (h : l.comment = .empty) :
    EndRecord.IsLast l.bytes l.endOffset := by
  apply l.isLast
  intro p hp hle
  rw [l.size_bytes, h, ByteArray.size_empty] at hle
  omega

theorem extent_wideEndRecord : l.wideEndRecord.extent = l.extent := by
  have hsize := l.size_bytes
  have hle := l.size_le
  have hmax : addressMax < UInt64.size := by decide
  have hend : l.endOffset = l.front.size + l.directory.size + l.gap.size + l.wideBytes.size := rfl
  have hcount : l.records.length ≤ l.directory.size := DirectoryRecord.length_le_size_bytesOfAll l.records
  simp only [Parts.wideEndRecord, WideEndRecord.extent, Parts.extent, Extent.mk.injEq]
  exact ⟨UInt64.toNat_ofNat_of_lt' (by omega), UInt64.toNat_ofNat_of_lt' (by omega),
    UInt64.toNat_ofNat_of_lt' (by omega)⟩

theorem toNat_offset_locator :
    l.locator.offset.toNat = l.front.size + l.directory.size + l.gap.size := by
  have hsize := l.size_bytes
  have hle := l.size_le
  have hmax : addressMax < UInt64.size := by decide
  have hend : l.endOffset = l.front.size + l.directory.size + l.gap.size + l.wideBytes.size := rfl
  exact UInt64.toNat_ofNat_of_lt' (by omega)

end Places

variable {l : Layout}

/-- The directory is found from the end record. -/
theorem findDirectory_of_holds (h : reader.Holds l.bytes) (s : σ) :
    ∃ s', findDirectory reader l.last l.endOffset s = (.ok l.extent, s') := by
  unfold findDirectory
  cases hwide : l.wide with
  | none =>
      obtain ⟨hnarrow, hextent⟩ := l.narrow hwide
      rw [if_neg hnarrow, hextent]
      exact ⟨s, rfl⟩
  | some t =>
      have hsome : l.wide ≠ none := by
        rw [hwide]
        exact Option.some_ne_none t
      have hbytes : l.wideBytes = l.wideEndRecord.bytes t ++ l.locator.bytes t := by
        rw [Parts.wideBytes, hwide]
      have hhas := l.has_wideBytes
      rw [hbytes] at hhas
      have hrecord := hhas.append_left
      rw [← l.toNat_offset_locator] at hrecord
      obtain ⟨s', hread⟩ := readWideEndRecord_of_has h hhas.append_right hrecord s
      have hend : l.front.size + l.directory.size + l.gap.size + (l.wideEndRecord.bytes t).size +
          Locator.length = l.endOffset := by
        rw [Parts.endOffset, hbytes, ByteArray.size_append, Locator.size_bytes]
        omega
      rw [hend] at hread
      rw [if_pos (l.saturated hsome), Action.bind_ok hread, l.extent_wideEndRecord]
      exact ⟨s', rfl⟩

theorem readDirectory_of_isLast (h : reader.Holds l.bytes) (hlast : EndRecord.IsLast l.bytes l.endOffset)
    (s : σ) : ∃ s', Archive.readDirectory reader s = (.ok (l.records.map DirectoryRecord.entry), s') := by
  obtain ⟨s₁, hfound⟩ := findEndRecord_of_isLast h hlast s
  obtain ⟨s₂, hextent⟩ := findDirectory_of_holds h s₁
  have hsize := l.size_bytes
  have hend : l.endOffset = l.front.size + l.directory.size + l.gap.size + l.wideBytes.size := rfl
  have hinside : l.extent.offset + l.extent.size ≤ l.endOffset :=
    calc l.front.size + l.directory.size
        ≤ l.front.size + l.directory.size + l.gap.size := Nat.le_add_right _ _
      _ ≤ l.endOffset := Nat.le_add_right _ _
  obtain ⟨s₃, hread⟩ := readBytes_of_holds h
    (show l.extent.offset + l.extent.size ≤ l.bytes.size by omega) s₂
  have hdirectory : slice l.bytes l.extent.offset l.extent.size = l.directory := l.has_directory
  rw [hdirectory] at hread
  refine ⟨s₃, ?_⟩
  rw [EndRecord.ofBytesAt_of_has l.has_last] at hfound
  rw [Archive.readDirectory, Action.bind_ok hfound]
  simp only [Action.bind_ok hextent]
  rw [if_neg (Nat.not_lt.2 hinside), Action.bind_ok hread]
  exact congrArg (fun result => wellFormed result s₃) (DirectoryRecord.parseDirectory_bytesOfAll l.records)

/-- Opening an archive gives the entries of its directory, each as it was before it was written, if its end
record is the last one that stands in its bytes. -/
theorem ofReader_eq_entries (h : reader.Holds l.bytes)
    (hlast : ∀ p, l.endOffset < p → p + EndRecord.length ≤ l.bytes.size →
      ¬ EndRecord.StandsAt l.bytes p) (s : σ) :
    ∃ s', Archive.ofReader reader s = (.ok ⟨reader, l.records.map DirectoryRecord.entry⟩, s') := by
  obtain ⟨s', hread⟩ := readDirectory_of_isLast h (l.isLast hlast) s
  exact ⟨s', Archive.ofReader_of_readDirectory hread⟩

/-- A record with two values that are too large for their fields of 32 bits. -/
def largeRecord : DirectoryRecord where
  entry := ⟨"classes.dex", .deflate, 0x100000000, 5, 0x12345678, 0xFFFFFFFF, 8⟩
  trimmings := ⟨45, 45, 0, 0, 0, 0, 0, [⟨0xD935, pack [(2, 4)]⟩], [], pack [(1, 0x2D)]⟩
  method_eq := rfl
  name_lt := by decide +kernel
  extra_lt := by decide +kernel
  comment_lt := by decide +kernel
  before_ne := by decide +kernel
  after_ne := nofun

/-- An archive with a wide end record, other bytes before and after the directory, and a comment. -/
def largeLayout : Layout where
  front := pack [(3, 0x4B50)]
  records := [largeRecord]
  gap := pack [(1, 0)]
  wide := some ⟨44, 45, 45, 0, 0, 1, .empty, 0, 1⟩
  last := ⟨0, 0, 0xFFFF, 0xFFFF, 0xFFFFFFFF, 0xFFFFFFFF, 2⟩
  comment := pack [(2, 0x4B50)]
  size_le := by decide +kernel
  comment_eq := by decide +kernel
  narrow := nofun
  saturated := fun _ => by decide

theorem ofReader_eq_entries_largeLayout :
    ∃ s', Archive.ofReader (memoryReader Unit largeLayout.bytes) () =
      (.ok ⟨memoryReader Unit largeLayout.bytes, [largeRecord.entry]⟩, s') := by
  refine ofReader_eq_entries (l := largeLayout) (Reader.serves_memoryReader Unit _).holds ?_ ()
  intro p hp hle
  have hsize : largeLayout.bytes.size = largeLayout.endOffset + EndRecord.length + 2 := by decide +kernel
  obtain rfl | rfl : p = largeLayout.endOffset + 1 ∨ p = largeLayout.endOffset + 2 := by omega
  · decide +kernel
  · decide +kernel

end Layout

end DexArchive.Zip
