import Mathlib.Data.List.Forall2
import DexArchive.Proofs.Zip.Layout
import DexArchive.Proofs.Zip.Reading

/-! Archives as they are written: files one after the other, each with a local header and with its content
stored or compressed, and then a directory with a record for each. The entries that the records are read
as are found in the archive, each with the content of its file. -/

namespace DexArchive.Zip

/-- The content `b` is written as `w` by a method that can be read. -/
def Method.Encodes : Method → ByteArray → ByteArray → Prop
  | stored, w, b => w = b
  | deflate, w, b => Deflate.Inflates w b
  | unknown _, _, _ => False

theorem Method.Encodes.isWhole {m : Method} {w b : ByteArray} (h : m.Encodes w b) : m.IsWhole w b := by
  cases m with
  | stored => exact h
  | deflate => exact Deflate.inflates_iff.1 h
  | unknown id => exact h.elim

theorem Method.Encodes.ofId_id {m : Method} {w b : ByteArray} (h : m.Encodes w b) : ofId m.id = m := by
  cases m with
  | stored => rfl
  | deflate => rfl
  | unknown id => exact h.elim

/-- A local header. Of what it says, only the lengths of its name and extra field matter. -/
structure LocalHeader where
  needed : UInt16
  flags : UInt16
  method : UInt16
  time : UInt16
  date : UInt16
  crc : UInt32
  compressedSize : UInt32
  uncompressedSize : UInt32
  name : ByteArray
  extra : ByteArray
  name_lt : name.size < 2 ^ 16
  extra_lt : extra.size < 2 ^ 16

namespace LocalHeader

def fields (h : LocalHeader) : List (Nat × Nat) :=
  [(4, Archive.localHeaderSignature), (2, h.needed.toNat), (2, h.flags.toNat), (2, h.method.toNat),
    (2, h.time.toNat), (2, h.date.toNat), (4, h.crc.toNat), (4, h.compressedSize.toNat),
    (4, h.uncompressedSize.toNat), (2, h.name.size), (2, h.extra.size)]

def bytes (h : LocalHeader) : ByteArray := pack h.fields ++ (h.name ++ h.extra)

theorem size_bytes (h : LocalHeader) :
    h.bytes.size = Archive.localHeaderLength + h.name.size + h.extra.size := by
  rw [bytes, ByteArray.size_append, ByteArray.size_append, size_pack, Nat.add_assoc]
  rfl

end LocalHeader

/-- A file of an archive, with everything that its writer is free to choose: bytes before its local header,
the header itself, how the content is written, and what stands in the directory besides the entry. -/
structure Member where
  name : String
  content : ByteArray
  method : Method
  data : ByteArray
  flags : UInt16
  lead : ByteArray
  header : LocalHeader
  trimmings : Trimmings
  encodes : method.Encodes data content
  flags_eq : flags &&& 1 = 0
  content_le : content.size ≤ addressMax
  name_lt : name.toUTF8.size < 2 ^ 16
  extra_lt : (ExtraField.bytesOfAll trimmings.before).size +
    (ExtraField.bytesOfAll trimmings.after).size + 28 < 2 ^ 16
  comment_lt : trimmings.comment.size < 2 ^ 16
  before_ne : ∀ f ∈ trimmings.before, f.id.toNat ≠ Bounds.wideId
  after_ne : ∀ f ∈ trimmings.after, f.id.toNat ≠ Bounds.wideId

namespace Member

/-- What is written for the file before the directory. -/
def bytes (m : Member) : ByteArray := m.lead ++ (m.header.bytes ++ m.data)

/-- The entry of a file that is written at `pos`. -/
def entry (m : Member) (pos : Nat) : Entry where
  name := m.name
  method := m.method
  compressedSize := .ofNat m.data.size
  uncompressedSize := .ofNat m.content.size
  crc := crc32 m.content
  headerOffset := .ofNat (pos + m.lead.size)
  flags := m.flags

theorem size_bytesOfAll_wideFields_le (b : Bounds) : (ExtraField.bytesOfAll b.wideFields).size ≤ 28 := by
  have hwide := b.size_wideBytes_le
  unfold Bounds.wideFields
  split
  · exact Nat.zero_le 28
  · rw [ExtraField.bytesOfAll_cons, ByteArray.size_append, ExtraField.size_bytes]
    show 4 + b.wideBytes.size + ByteArray.empty.size ≤ 28
    rw [ByteArray.size_empty]
    omega

theorem extra_lt_entry (m : Member) (pos : Nat) : ((m.entry pos).extra m.trimmings).size < 2 ^ 16 := by
  have hwide := size_bytesOfAll_wideFields_le (m.entry pos).bounds
  have hextra := m.extra_lt
  rw [Entry.extra, ByteArray.size_append, ByteArray.size_append]
  omega

/-- The record of a file that is written at `pos`. -/
def record (m : Member) (pos : Nat) : DirectoryRecord where
  entry := m.entry pos
  trimmings := m.trimmings
  method_eq := m.encodes.ofId_id
  name_lt := m.name_lt
  extra_lt := m.extra_lt_entry pos
  comment_lt := m.comment_lt
  before_ne := m.before_ne
  after_ne := m.after_ne

theorem unsupported?_entry (m : Member) (pos : Nat) : (m.entry pos).unsupported? = none := by
  have hencrypted : (m.entry pos).isEncrypted = false := by
    rw [Entry.isEncrypted, entry, m.flags_eq]
    rfl
  have hencodes := m.encodes
  rw [Entry.unsupported?, hencrypted]
  cases hmethod : m.method with
  | stored => simp [entry, hmethod]
  | deflate => simp [entry, hmethod]
  | unknown id =>
      rw [hmethod] at hencodes
      exact hencodes.elim

/-- Where a file was written, its entry is. -/
theorem hasEntry {m : Member} {d : ByteArray} {pos : Nat} (h : Has d pos m.bytes)
    (hmax : d.size ≤ addressMax) : Archive.HasEntry d (m.entry pos) m.data m.content := by
  have hlength : Archive.localHeaderLength = 30 := rfl
  have hheader := h.append_right.append_left
  have hdata := h.append_right.append_right
  have hfields := hheader.append_left
  have hsize := m.header.size_bytes
  have hsizes : m.bytes.size = m.lead.size + (m.header.bytes.size + m.data.size) := by
    rw [bytes, ByteArray.size_append, ByteArray.size_append]
  have hle := h.add_size_le (by omega)
  have haddress : addressMax < UInt64.size := by decide
  have hoffset : (m.entry pos).headerOffset.toNat = pos + m.lead.size :=
    UInt64.toNat_ofNat_of_lt' (by omega)
  have hname : numberAt d (pos + m.lead.size + 26) 2 = m.header.name.size :=
    hfields.number_eq 9 rfl rfl m.header.name_lt
  have hextra : numberAt d (pos + m.lead.size + 28) 2 = m.header.extra.size :=
    hfields.number_eq 10 rfl rfl m.header.extra_lt
  have hstart : Archive.dataStart d (m.entry pos) = pos + m.lead.size + m.header.bytes.size := by
    rw [Archive.dataStart, hoffset, hname, hextra]
    omega
  have hcontent := m.content_le
  exact {
    supported := m.unsupported?_entry pos
    header_le := by omega
    signature_eq := by
      rw [hoffset]
      exact hfields.number_eq 0 rfl rfl (by decide)
    compressedSize_eq := UInt64.toNat_ofNat_of_lt' (by omega)
    data_le := by omega
    data_eq := by
      rw [hstart]
      exact hdata
    isWhole := m.encodes.isWhole
    size_eq := UInt64.toNat_ofNat_of_lt' (by omega)
    crc_eq := rfl }

/-! ### All files -/

/-- Files one after the other. -/
def bytesOfAll (members : List Member) : ByteArray := members.foldr (fun m b => m.bytes ++ b) .empty

theorem bytesOfAll_cons (m : Member) (members : List Member) :
    bytesOfAll (m :: members) = m.bytes ++ bytesOfAll members := rfl

/-- The records of files that are written from `pos` on. -/
def records : (members : List Member) → (pos : Nat) → List DirectoryRecord
  | [], _ => []
  | m :: members, pos => m.record pos :: records members (pos + m.bytes.size)

theorem length_records (members : List Member) (pos : Nat) : (records members pos).length = members.length := by
  induction members generalizing pos with
  | nil => rfl
  | cons m members ih => rw [records, List.length_cons, List.length_cons, ih]

/-- The archive in `d` has the entry `e` for the file. -/
structure IsIn (d : ByteArray) (m : Member) (e : Entry) : Prop where
  name_eq : e.name = m.name
  hasEntry : Archive.HasEntry d e m.data m.content

theorem isIn_of_has {d : ByteArray} (hmax : d.size ≤ addressMax) {members : List Member} {pos : Nat}
    (h : Has d pos (bytesOfAll members)) :
    List.Forall₂ (IsIn d) members ((records members pos).map DirectoryRecord.entry) := by
  induction members generalizing pos with
  | nil => exact .nil
  | cons m members ih =>
      rw [bytesOfAll_cons] at h
      exact .cons ⟨rfl, hasEntry h.append_left hmax⟩ (ih h.append_right)

end Member

/-- An archive of files: first the files, then whatever else there is before the directory, which has a
record for each. There is no comment. -/
structure Package extends Layout where
  members : List Member
  block : ByteArray
  front_eq : front = Member.bytesOfAll members ++ block
  records_eq : records = Member.records members 0
  comment_eq_empty : comment = .empty

namespace Package

variable (p : Package)

def entries : List Entry := p.records.map DirectoryRecord.entry

/-- The entries of the archive are those of its files, in their order. -/
theorem isIn_entries : List.Forall₂ (Member.IsIn p.bytes) p.members p.entries := by
  have hfront := p.has_front
  rw [p.front_eq] at hfront
  rw [entries, p.records_eq]
  exact Member.isIn_of_has p.size_le hfront.append_left

theorem ofReader_eq {σ : Type} {reader : Reader σ} (h : reader.Holds p.bytes) (s : σ) :
    ∃ s', Archive.ofReader reader s = (.ok ⟨reader, p.entries⟩, s') := by
  obtain ⟨s', hread⟩ := Layout.readDirectory_of_isLast h
    (p.toLayout.isLast_of_comment_eq_empty p.comment_eq_empty) s
  exact ⟨s', Archive.ofReader_of_readDirectory hread⟩

end Package

/-! ### Plain archives -/

/-- A file with nothing that can be left out. -/
def Member.plain (name : String) (method : Method) (data content : ByteArray)
    (encodes : method.Encodes data content) (content_le : content.size ≤ addressMax)
    (name_lt : name.toUTF8.size < 2 ^ 16) : Member where
  name := name
  content := content
  method := method
  data := data
  flags := 0
  lead := .empty
  header := ⟨20, 0, method.id, 0, 0, 0, 0, 0, .empty, .empty, by decide, by decide⟩
  trimmings := ⟨20, 20, 0, 0, 0, 0, 0, [], [], .empty⟩
  encodes := encodes
  flags_eq := rfl
  content_le := content_le
  name_lt := name_lt
  extra_lt := by decide
  comment_lt := by decide
  before_ne := nofun
  after_ne := nofun

/-- The parts of an archive with nothing that can be left out. -/
def Parts.plain (members : List Member) : Parts where
  front := Member.bytesOfAll members
  records := Member.records members 0
  gap := .empty
  wide := none
  last := .ofExtent ⟨(Member.bytesOfAll members).size,
    (DirectoryRecord.bytesOfAll (Member.records members 0)).size, (Member.records members 0).length⟩ 0
  comment := .empty

section Plain

variable {members : List Member} (count_lt : members.length < 0xFFFF)
  (front_lt : (Member.bytesOfAll members).size < 0xFFFFFFFF)
  (directory_lt : (DirectoryRecord.bytesOfAll (Member.records members 0)).size < 0xFFFFFFFF)

include front_lt directory_lt

theorem Parts.size_plain_le : (Parts.plain members).bytes.size ≤ addressMax := by
  have hmax : 0xFFFFFFFF + 0xFFFFFFFF + 22 ≤ addressMax := by decide
  have hlength : EndRecord.length = 22 := rfl
  rw [Parts.size_bytes, Parts.endOffset]
  simp only [Parts.directory, Parts.wideBytes, Parts.plain, ByteArray.size_empty]
  omega

include count_lt

theorem Parts.narrow_plain :
    ¬ (Parts.plain members).last.IsWide ∧ (Parts.plain members).last.extent = (Parts.plain members).extent :=
  EndRecord.extent_ofExtent (by rwa [Member.length_records]) directory_lt front_lt 0

end Plain

/-- The archive of some files that the end record can describe alone. -/
def Package.plain (members : List Member) (count_lt : members.length < 0xFFFF)
    (front_lt : (Member.bytesOfAll members).size < 0xFFFFFFFF)
    (directory_lt : (DirectoryRecord.bytesOfAll (Member.records members 0)).size < 0xFFFFFFFF) : Package where
  toParts := .plain members
  size_le := Parts.size_plain_le front_lt directory_lt
  comment_eq := rfl
  narrow _ := Parts.narrow_plain count_lt front_lt directory_lt
  saturated h := absurd rfl h
  members := members
  block := .empty
  front_eq := ByteArray.append_empty.symm
  records_eq := rfl
  comment_eq_empty := rfl

end DexArchive.Zip
