import DexArchive.Zip.Directory
import DexArchive.Proofs.Bytes
import DexArchive.Proofs.Text.Utf8

/-! The central directory as it is written. A record has its fixed fields, the name, extra fields of which
at most one holds wide values, and a comment. Reading a record gives its entry, wherever it is and whatever
it has besides. -/

namespace DexArchive.Zip

namespace Bounds

/-- A value in a field of 32 bits. -/
def narrow (value : UInt64) : UInt64 := if value < saturated then value else saturated

/-- A value in the extra field for wide values: eight bytes, if the field of 32 bits is saturated. -/
def wide (value : UInt64) : ByteArray := if value < saturated then .empty else pack [(8, value.toNat)]

theorem narrow_of_lt {value : UInt64} (h : value < saturated) : narrow value = value := if_pos h

theorem toNat_narrow_lt (value : UInt64) : (narrow value).toNat < 2 ^ 32 := by
  have hsaturated : saturated.toNat < 2 ^ 32 := by decide
  unfold narrow
  split
  · rename_i h
    exact Nat.lt_trans (UInt64.lt_iff_toNat_lt.1 h) hsaturated
  · exact hsaturated

/-- The value of one field, if what was written for it is at `pos`. -/
theorem widen_narrow {dir : ByteArray} {stop pos : Nat} {value : UInt64} (h : Has dir pos (wide value))
    (hle : pos + (wide value).size ≤ stop) (hstop : stop ≤ dir.size) :
    widen dir stop (narrow value) pos = some (value, pos + (wide value).size) := by
  by_cases hlt : value < saturated
  · have hne : ¬ (value = saturated ∧ pos + 8 ≤ stop) := by
      rintro ⟨rfl, -⟩
      exact absurd hlt (UInt64.lt_irrefl _)
    rw [narrow_of_lt hlt, widen, if_neg hne, wide, if_pos hlt]
    rfl
  · rw [wide, if_neg hlt] at h hle
    have hsize : (pack [(8, value.toNat)]).size = 8 := size_pack _
    rw [hsize] at hle
    have hfits : value.toNat < 256 ^ 8 := by
      have hlt := value.toNat_lt
      omega
    have hnumber : numberAt dir (pos + 0) 8 = value.toNat := h.number_eq 0 rfl rfl hfits
    rw [Nat.add_zero] at hnumber
    rw [narrow, if_neg hlt, widen, if_pos ⟨rfl, hle⟩, if_pos (by omega), u64At_eq hnumber, wide, if_neg hlt,
      hsize]

/-- All the values that a record keeps wide, in their order. -/
def wideBytes (b : Bounds) : ByteArray := wide b.uncompressed ++ (wide b.compressed ++ wide b.offset)

/-- What the fields of 32 bits hold. -/
def narrowAll (b : Bounds) : Bounds := ⟨narrow b.uncompressed, narrow b.compressed, narrow b.offset⟩

theorem widenAll_narrowAll {dir : ByteArray} {pos : Nat} {b : Bounds} (h : Has dir pos b.wideBytes)
    (hle : pos + b.wideBytes.size ≤ dir.size) :
    b.narrowAll.widenAll dir pos (pos + b.wideBytes.size) = some b := by
  have hsize : b.wideBytes.size =
      (wide b.uncompressed).size + ((wide b.compressed).size + (wide b.offset).size) := by
    rw [wideBytes, ByteArray.size_append, ByteArray.size_append]
  have huncompressed := widen_narrow h.append_left (show _ ≤ pos + b.wideBytes.size by omega) hle
  have hcompressed := widen_narrow h.append_right.append_left
    (show _ ≤ pos + b.wideBytes.size by omega) hle
  have hoffset := widen_narrow h.append_right.append_right (show _ ≤ pos + b.wideBytes.size by omega) hle
  simp only [widenAll, narrowAll, huncompressed, hcompressed, hoffset, Option.bind_eq_bind, Option.bind_some]
  rfl

end Bounds

/-! ### Extra fields -/

/-- An extra field: its id and its bytes. -/
structure ExtraField where
  id : UInt16
  data : ByteArray

namespace ExtraField

def bytes (f : ExtraField) : ByteArray := pack [(2, f.id.toNat), (2, f.data.size)] ++ f.data

theorem size_bytes (f : ExtraField) : f.bytes.size = 4 + f.data.size := by
  rw [bytes, ByteArray.size_append, size_pack]
  rfl

def bytesOfAll (fields : List ExtraField) : ByteArray :=
  fields.foldr (fun f b => f.bytes ++ b) .empty

theorem bytesOfAll_cons (f : ExtraField) (fields : List ExtraField) :
    bytesOfAll (f :: fields) = f.bytes ++ bytesOfAll fields := rfl

end ExtraField

namespace Bounds

variable {dir : ByteArray} {pos stop : Nat}

theorem resolve_of_stop_lt (h : stop < pos + 4) (b : Bounds) : resolve dir pos stop b = some b := by
  rw [resolve, if_neg (Nat.not_le.2 h)]

theorem id_and_size_of_has {f : ExtraField} (h : Has dir pos f.bytes) (hdata : f.data.size < 2 ^ 16) :
    numberAt dir pos 2 = f.id.toNat ∧ numberAt dir (pos + 2) 2 = f.data.size := by
  exact ⟨h.append_left.number_eq 0 rfl rfl f.id.toNat_lt, h.append_left.number_eq 1 rfl rfl hdata⟩

/-- A field with another id is passed over. -/
theorem resolve_of_ne {f : ExtraField} (h : Has dir pos f.bytes) (hid : f.id.toNat ≠ wideId)
    (hdata : f.data.size < 2 ^ 16) (hle : pos + f.bytes.size ≤ stop) (b : Bounds) :
    resolve dir pos stop b = resolve dir (pos + f.bytes.size) stop b := by
  obtain ⟨hidAt, hsizeAt⟩ := id_and_size_of_has h hdata
  have hsize := f.size_bytes
  rw [resolve, if_pos (by omega)]
  simp only [hidAt, hsizeAt, if_neg hid]
  rw [hsize, Nat.add_assoc]

theorem resolve_of_all_ne {fields : List ExtraField} (h : Has dir pos (ExtraField.bytesOfAll fields))
    (hid : ∀ f ∈ fields, f.id.toNat ≠ wideId) (hdata : ∀ f ∈ fields, f.data.size < 2 ^ 16)
    (hle : pos + (ExtraField.bytesOfAll fields).size ≤ stop) (b : Bounds) :
    resolve dir pos stop b = resolve dir (pos + (ExtraField.bytesOfAll fields).size) stop b := by
  induction fields generalizing pos with
  | nil => rfl
  | cons f fields ih =>
      rw [ExtraField.bytesOfAll_cons] at h hle ⊢
      rw [ByteArray.size_append] at hle ⊢
      have hrest := ih h.append_right (fun g hg => hid g (List.mem_cons_of_mem f hg))
        (fun g hg => hdata g (List.mem_cons_of_mem f hg)) (by omega)
      rw [resolve_of_ne h.append_left (hid f List.mem_cons_self) (hdata f List.mem_cons_self) (by omega),
        hrest, Nat.add_assoc]

/-- The field for wide values. -/
def wideField (b : Bounds) : ExtraField := ⟨.ofNat wideId, b.wideBytes⟩

/-- A record has the field for wide values only if there are any. -/
def wideFields (b : Bounds) : List ExtraField := if b.wideBytes.size = 0 then [] else [b.wideField]

theorem size_wide_le (value : UInt64) : (wide value).size ≤ 8 := by
  unfold wide
  split
  · exact Nat.zero_le _
  · rw [size_pack]
    exact Nat.le_refl 8

theorem size_wideBytes_le (b : Bounds) : b.wideBytes.size ≤ 24 := by
  have huncompressed := size_wide_le b.uncompressed
  have hcompressed := size_wide_le b.compressed
  have hoffset := size_wide_le b.offset
  rw [wideBytes, ByteArray.size_append, ByteArray.size_append]
  omega

theorem narrow_of_size_wide {value : UInt64} (h : (wide value).size = 0) : narrow value = value := by
  by_cases hlt : value < saturated
  · exact narrow_of_lt hlt
  · rw [wide, if_neg hlt, size_pack] at h
    cases h

theorem narrowAll_of_size_wideBytes {b : Bounds} (h : b.wideBytes.size = 0) : b.narrowAll = b := by
  rw [wideBytes, ByteArray.size_append, ByteArray.size_append] at h
  rw [narrowAll, narrow_of_size_wide (by omega), narrow_of_size_wide (by omega),
    narrow_of_size_wide (by omega)]

theorem resolve_wideField {b : Bounds} (h : Has dir pos b.wideField.bytes)
    (hle : pos + b.wideField.bytes.size ≤ stop) (hstop : stop ≤ dir.size) :
    resolve dir pos stop b.narrowAll = resolve dir (pos + b.wideField.bytes.size) stop b := by
  have hdata : b.wideField.data = b.wideBytes := rfl
  have hwide := b.size_wideBytes_le
  have hsize : b.wideField.bytes.size = 4 + b.wideBytes.size := b.wideField.size_bytes
  obtain ⟨hidAt, hsizeAt⟩ := id_and_size_of_has h (by rw [hdata]; omega)
  have hwiden : b.narrowAll.widenAll dir (pos + 4) (pos + 4 + b.wideBytes.size) = some b :=
    widenAll_narrowAll h.append_right (by omega)
  rw [resolve, if_pos (by omega)]
  simp only [hidAt, hsizeAt, hdata]
  rw [if_pos (show b.wideField.id.toNat = wideId from rfl), hwiden, hsize, ← Nat.add_assoc]
  rfl

theorem resolve_wideFields {b : Bounds} (h : Has dir pos (ExtraField.bytesOfAll b.wideFields))
    (hle : pos + (ExtraField.bytesOfAll b.wideFields).size ≤ stop) (hstop : stop ≤ dir.size) :
    resolve dir pos stop b.narrowAll =
      resolve dir (pos + (ExtraField.bytesOfAll b.wideFields).size) stop b := by
  by_cases hnone : b.wideBytes.size = 0
  · rw [wideFields, if_pos hnone, narrowAll_of_size_wideBytes hnone]
    rfl
  · have hbytes : ExtraField.bytesOfAll b.wideFields = b.wideField.bytes := by
      rw [wideFields, if_neg hnone]
      exact ByteArray.append_empty
    rw [hbytes] at h hle ⊢
    exact resolve_wideField h hle hstop

end Bounds

/-! ### Records -/

def Entry.bounds (e : Entry) : Bounds := ⟨e.uncompressedSize, e.compressedSize, e.headerOffset⟩

/-- What stands in a record besides its entry: the fields that are not read, extra fields before and after
the one for wide values, and a comment. -/
structure Trimmings where
  madeBy : UInt16
  needed : UInt16
  time : UInt16
  date : UInt16
  disk : UInt16
  internal : UInt16
  external : UInt32
  before : List ExtraField
  after : List ExtraField
  comment : ByteArray

/-- The extra fields of a record, one after the other. -/
def Entry.extra (e : Entry) (t : Trimmings) : ByteArray :=
  ExtraField.bytesOfAll t.before ++
    (ExtraField.bytesOfAll e.bounds.wideFields ++ ExtraField.bytesOfAll t.after)

/-- A record of the central directory, as it can be written: the parts of variable length fit into their
fields of 16 bits, and no other extra field has the id of the one for wide values. -/
structure DirectoryRecord where
  entry : Entry
  trimmings : Trimmings
  method_eq : Method.ofId entry.method.id = entry.method
  name_lt : entry.name.toUTF8.size < 2 ^ 16
  extra_lt : (entry.extra trimmings).size < 2 ^ 16
  comment_lt : trimmings.comment.size < 2 ^ 16
  before_ne : ∀ f ∈ trimmings.before, f.id.toNat ≠ Bounds.wideId
  after_ne : ∀ f ∈ trimmings.after, f.id.toNat ≠ Bounds.wideId

namespace DirectoryRecord

/-- The fixed fields. -/
def fixed (r : DirectoryRecord) : List (Nat × Nat) :=
  [(4, Entry.recordSignature), (2, r.trimmings.madeBy.toNat), (2, r.trimmings.needed.toNat),
    (2, r.entry.flags.toNat), (2, r.entry.method.id.toNat), (2, r.trimmings.time.toNat),
    (2, r.trimmings.date.toNat), (4, r.entry.crc.toNat),
    (4, (Bounds.narrow r.entry.compressedSize).toNat), (4, (Bounds.narrow r.entry.uncompressedSize).toNat),
    (2, r.entry.name.toUTF8.size), (2, (r.entry.extra r.trimmings).size), (2, r.trimmings.comment.size),
    (2, r.trimmings.disk.toNat), (2, r.trimmings.internal.toNat), (4, r.trimmings.external.toNat),
    (4, (Bounds.narrow r.entry.headerOffset).toNat)]

def bytes (r : DirectoryRecord) : ByteArray :=
  pack r.fixed ++ (r.entry.name.toUTF8 ++ (r.entry.extra r.trimmings ++ r.trimmings.comment))

variable {r : DirectoryRecord} {dir : ByteArray} {pos : Nat}

theorem widths_fixed (r : DirectoryRecord) : widths r.fixed = Entry.recordLength := by
  simp only [fixed, widths, Nat.reduceAdd, Entry.recordLength]

theorem size_bytes (r : DirectoryRecord) :
    r.bytes.size = Entry.recordLength + r.entry.name.toUTF8.size + (r.entry.extra r.trimmings).size +
      r.trimmings.comment.size := by
  simp only [bytes, ByteArray.size_append, size_pack, widths_fixed]
  omega

/-- The fixed field number `i`, which begins at `place`. -/
theorem number_eq (h : Has dir pos r.bytes) (i : Nat) {width n place : Nat}
    (hfield : r.fixed[i]? = some (width, n)) (hplace : widths (r.fixed.take i) = place)
    (hn : n < 256 ^ width) : numberAt dir (pos + place) width = n :=
  h.append_left.number_eq i hfield hplace hn

/-- The fixed fields that are read, each at its place. -/
theorem numbers_eq (h : Has dir pos r.bytes) :
    numberAt dir pos 4 = Entry.recordSignature ∧
      numberAt dir (pos + 8) 2 = r.entry.flags.toNat ∧
      numberAt dir (pos + 10) 2 = r.entry.method.id.toNat ∧
      numberAt dir (pos + 16) 4 = r.entry.crc.toNat ∧
      numberAt dir (pos + 20) 4 = (Bounds.narrow r.entry.compressedSize).toNat ∧
      numberAt dir (pos + 24) 4 = (Bounds.narrow r.entry.uncompressedSize).toNat ∧
      numberAt dir (pos + 28) 2 = r.entry.name.toUTF8.size ∧
      numberAt dir (pos + 30) 2 = (r.entry.extra r.trimmings).size ∧
      numberAt dir (pos + 32) 2 = r.trimmings.comment.size ∧
      numberAt dir (pos + 42) 4 = (Bounds.narrow r.entry.headerOffset).toNat := by
  refine ⟨h.append_left.number_eq 0 rfl rfl (by decide), number_eq h 3 rfl ?_ r.entry.flags.toNat_lt,
    number_eq h 4 rfl ?_ r.entry.method.id.toNat_lt, number_eq h 7 rfl ?_ r.entry.crc.toNat_lt,
    number_eq h 8 rfl ?_ (Bounds.toNat_narrow_lt _), number_eq h 9 rfl ?_ (Bounds.toNat_narrow_lt _),
    number_eq h 10 rfl ?_ r.name_lt, number_eq h 11 rfl ?_ r.extra_lt,
    number_eq h 12 rfl ?_ r.comment_lt, number_eq h 16 rfl ?_ (Bounds.toNat_narrow_lt _)⟩ <;>
  simp only [fixed, List.take, widths, Nat.reduceAdd]

theorem toUInt64_u32At {b : ByteArray} {p : Nat} {value : UInt64}
    (h : numberAt b p 4 = (Bounds.narrow value).toNat) : (u32At b p).toUInt64 = Bounds.narrow value := by
  rw [← UInt64.toNat_inj, UInt32.toNat_toUInt64, u32At, h, UInt32.toNat_ofNat']
  exact Nat.mod_eq_of_lt (Bounds.toNat_narrow_lt value)

theorem extract_of_has {x : ByteArray} (h : Has dir pos x) (hle : pos + x.size ≤ dir.size) :
    dir.extract pos (pos + x.size) = x := by
  rw [Has, slice, Nat.min_eq_left (by omega), Nat.min_eq_left hle] at h
  exact h

theorem data_lt_of_mem {fields : List ExtraField} {f : ExtraField} (hf : f ∈ fields) {n : Nat}
    (h : (ExtraField.bytesOfAll fields).size < n) : f.data.size < n := by
  induction fields with
  | nil => cases hf
  | cons g fields ih =>
      rw [ExtraField.bytesOfAll_cons, ByteArray.size_append, ExtraField.size_bytes] at h
      rcases List.mem_cons.1 hf with rfl | hf
      · omega
      · exact ih hf (by omega)

/-- The true bounds are found among the extra fields. -/
theorem resolve_of_has (h : Has dir pos (r.entry.extra r.trimmings))
    (hle : pos + (r.entry.extra r.trimmings).size ≤ dir.size) :
    r.entry.bounds.narrowAll.resolve dir pos (pos + (r.entry.extra r.trimmings).size) =
      some r.entry.bounds := by
  have hextra := r.extra_lt
  have hsize : (r.entry.extra r.trimmings).size =
      (ExtraField.bytesOfAll r.trimmings.before).size +
        ((ExtraField.bytesOfAll r.entry.bounds.wideFields).size +
          (ExtraField.bytesOfAll r.trimmings.after).size) := by
    rw [Entry.extra, ByteArray.size_append, ByteArray.size_append]
  unfold Entry.extra at h
  rw [Bounds.resolve_of_all_ne h.append_left r.before_ne
      (fun f hf => data_lt_of_mem hf (show _ < 2 ^ 16 by omega)) (by omega),
    Bounds.resolve_wideFields h.append_right.append_left (by omega) hle,
    Bounds.resolve_of_all_ne h.append_right.append_right r.after_ne
      (fun f hf => data_lt_of_mem hf (show _ < 2 ^ 16 by omega)) (by omega),
    Bounds.resolve_of_stop_lt (by omega)]

/-- A record is read as the entry that it was written for, and the next record is after it. -/
theorem parse_of_has (h : Has dir pos r.bytes) : Entry.parse dir pos = .ok (r.entry, pos + r.bytes.size) := by
  have hsize := r.size_bytes
  have hlength : Entry.recordLength = 46 := rfl
  have hle : pos + r.bytes.size ≤ dir.size := h.add_size_le (by omega)
  obtain ⟨hsignature, hflags, hmethod, hcrc, hcompressed, huncompressed, hname, hextra, hcomment, hoffset⟩ :=
    numbers_eq h
  have hnameAt : Has dir (pos + Entry.recordLength) r.entry.name.toUTF8 := by
    have hrest := h.append_right.append_left
    rwa [size_pack, widths_fixed] at hrest
  have hextraAt : Has dir (pos + Entry.recordLength + r.entry.name.toUTF8.size)
      (r.entry.extra r.trimmings) := by
    have hrest := h.append_right.append_right.append_left
    rwa [size_pack, widths_fixed] at hrest
  have hbounds : (⟨(u32At dir (pos + 24)).toUInt64, (u32At dir (pos + 20)).toUInt64,
      (u32At dir (pos + 42)).toUInt64⟩ : Bounds) = r.entry.bounds.narrowAll := by
    rw [toUInt64_u32At huncompressed, toUInt64_u32At hcompressed, toUInt64_u32At hoffset]
    rfl
  have htext : Text.ofUtf8 (dir.extract (pos + Entry.recordLength)
      (pos + Entry.recordLength + r.entry.name.toUTF8.size)) = r.entry.name := by
    rw [extract_of_has hnameAt (by omega), Text.ofUtf8_toUTF8]
  have hnext : pos + Entry.recordLength + r.entry.name.toUTF8.size + (r.entry.extra r.trimmings).size +
      r.trimmings.comment.size = pos + r.bytes.size := by omega
  rw [Entry.parse, if_neg (by omega), if_neg fun hne => hne hsignature]
  simp only [hname, hextra, hcomment, hbounds, hnext]
  rw [if_neg (by omega), if_neg (by omega), resolve_of_has hextraAt (by omega)]
  simp only [htext, u16At, u32At, hmethod, hflags, hcrc, UInt16.ofNat_toNat, UInt32.ofNat_toNat, r.method_eq]
  rfl

/-! ### All records -/

/-- Records one after the other. -/
def bytesOfAll (records : List DirectoryRecord) : ByteArray :=
  records.foldr (fun r b => r.bytes ++ b) .empty

theorem bytesOfAll_cons (r : DirectoryRecord) (records : List DirectoryRecord) :
    bytesOfAll (r :: records) = r.bytes ++ bytesOfAll records := rfl

theorem parseRecords_of_has {records : List DirectoryRecord} (h : Has dir pos (bytesOfAll records))
    (index : Nat) : parseRecords dir records.length index pos = .ok (records.map entry) := by
  induction records generalizing pos index with
  | nil => rfl
  | cons r records ih =>
      rw [bytesOfAll_cons] at h
      rw [List.length_cons, parseRecords, parse_of_has h.append_left]
      simp only [ih h.append_right, List.map_cons]

/-- A directory is read as the entries that it was written for. -/
theorem parseDirectory_bytesOfAll (records : List DirectoryRecord) :
    parseDirectory (bytesOfAll records) records.length = .ok (records.map entry) :=
  parseRecords_of_has (.refl _) 0

end DirectoryRecord

end DexArchive.Zip
