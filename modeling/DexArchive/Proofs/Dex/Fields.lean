import Mathlib.Data.List.OfFn
import DexArchive.Proofs.Dex.Verdict

/-! Writing dex headers. A header is its magic number, its checksum, its signature and twenty more numbers, and nothing
of it is said twice: what is read from its bytes is what was written, whatever comes after them, and writing what was
read gives back the bytes that it was read from. -/

namespace DexArchive

/-! ### Numbers of 32 bits -/

/-- Numbers of 32 bits, one after the other. -/
def wordBytes (words : List UInt32) : ByteArray := pack (words.map fun w => (4, w.toNat))

/-- The numbers of 32 bits in the bytes from `p` on. -/
def wordsAt (b : ByteArray) (p n : Nat) : List UInt32 := (List.range n).map fun i => u32At b (p + 4 * i)

section Words

variable {b : ByteArray} {p : Nat}

theorem wordBytes_cons (w : UInt32) (words : List UInt32) :
    wordBytes (w :: words) = (numberBytes 4 w.toNat).toByteArray ++ wordBytes words := by
  rw [wordBytes, List.map_cons, pack_cons, wordBytes]

theorem size_numberBytes (width n : Nat) : (numberBytes width n).toByteArray.size = width := by
  rw [List.size_toByteArray, length_numberBytes]

theorem size_wordBytes (words : List UInt32) : (wordBytes words).size = 4 * words.length := by
  induction words with
  | nil => rfl
  | cons w words ih =>
      rw [wordBytes_cons, ByteArray.size_append, size_numberBytes, ih, List.length_cons]
      omega

theorem wordsAt_succ (b : ByteArray) (p n : Nat) : wordsAt b p (n + 1) = u32At b p :: wordsAt b (p + 4) n := by
  rw [wordsAt, List.range_succ_eq_map, List.map_cons, List.map_map, wordsAt]
  congr 1
  apply List.map_congr_left
  intro i _
  exact congrArg (u32At b) (show p + 4 * (i + 1) = p + 4 + 4 * i by omega)

theorem u32At_of_has {w : UInt32} (h : Has b p (numberBytes 4 w.toNat).toByteArray) : u32At b p = w := by
  have hsize := size_numberBytes 4 w.toNat
  have hle := h.add_size_le (by omega)
  rw [Has, hsize] at h
  rw [u32At_eq_iff]
  exact (slice_eq_numberBytes_iff (by omega) w.toNat_lt).1 h

/-- Numbers that were written are read back. -/
theorem wordsAt_of_has {words : List UInt32} (h : Has b p (wordBytes words)) : wordsAt b p words.length = words := by
  induction words generalizing p with
  | nil => rfl
  | cons w words ih =>
      rw [wordBytes_cons] at h
      have hrest := h.append_right
      rw [size_numberBytes] at hrest
      rw [List.length_cons, wordsAt_succ, u32At_of_has h.append_left, ih hrest]

/-- Writing the numbers that are read gives back the bytes. -/
theorem wordBytes_wordsAt {n : Nat} (h : p + 4 * n ≤ b.size) : wordBytes (wordsAt b p n) = slice b p (4 * n) := by
  induction n generalizing p with
  | zero => exact (slice_zero b p).symm
  | succ n ih =>
      have hfirst : (numberBytes 4 (u32At b p).toNat).toByteArray = slice b p 4 := by
        rw [toNat_u32At]
        exact ((slice_eq_numberBytes_iff (by omega) (numberAt_lt b p 4)).2 rfl).symm
      rw [wordsAt_succ, wordBytes_cons, hfirst, ih (by omega), slice_append_slice, Nat.add_comm 4]
      rfl

end Words

/-! ### Single bytes -/

/-- The bytes from `p` on, one by one. -/
def bytesAt (b : ByteArray) (p n : Nat) : Vector UInt8 n := Vector.ofFn fun i => byteAt b (p + i)

section Bytes

variable {b : ByteArray} {p n : Nat}

theorem bytesAt_of_has {bytes : Vector UInt8 n} (h : Has b p bytes.toList.toByteArray) : bytesAt b p n = bytes := by
  apply Vector.ext
  intro i hi
  rw [Has, List.size_toByteArray, Vector.length_toList] at h
  calc
    (bytesAt b p n)[i] = byteAt (slice b p n) i := by
      rw [bytesAt, Vector.getElem_ofFn, byteAt_slice, if_pos hi]
    _ = bytes[i] := by
      rw [h, byteAt_toByteArray]
      simp [hi]

theorem toByteArray_bytesAt (h : p + n ≤ b.size) : (bytesAt b p n).toList.toByteArray = slice b p n := by
  have hsize : (bytesAt b p n).toList.toByteArray.size = n := by
    rw [List.size_toByteArray, Vector.length_toList]
  apply ext_byteAt
  · rw [hsize, size_slice]
    omega
  · intro i hi
    rw [hsize] at hi
    rw [byteAt_toByteArray, byteAt_slice, if_pos hi]
    simp [bytesAt, hi]

end Bytes

namespace Dex

theorem size_magic {version : UInt32} (h : version.toNat < 1000) : (magic version).size = 8 := by
  rw [magic_eq h]
  rfl

namespace Header

/-! ### Headers in bytes -/

/-- The numbers that come after the signature. -/
def words (h : Header) : List UInt32 :=
  [h.fileSize, h.headerSize, h.endianTag, h.linkSize, h.linkOff, h.mapOff, h.stringIdsSize, h.stringIdsOff,
    h.typeIdsSize, h.typeIdsOff, h.protoIdsSize, h.protoIdsOff, h.fieldIdsSize, h.fieldIdsOff, h.methodIdsSize,
    h.methodIdsOff, h.classDefsSize, h.classDefsOff, h.dataSize, h.dataOff]

/-- The bytes of a header. -/
def encode (h : Header) : ByteArray :=
  magic h.version ++ (wordBytes [h.checksum] ++ (h.signature.toList.toByteArray ++ wordBytes h.words))

theorem eq_of_words_eq {h h' : Header} (hversion : h.version = h'.version) (hchecksum : h.checksum = h'.checksum)
    (hsignature : h.signature = h'.signature) (hwords : h.words = h'.words) : h = h' := by
  cases h
  cases h'
  simp_all [words]

section Encoding

variable {b : ByteArray} {h : Header} {version : UInt32}

theorem size_encode (hversion : h.version.toNat < 1000) : h.encode.size = headerLength := by
  have hmagic := size_magic hversion
  simp only [encode, ByteArray.size_append, size_wordBytes, hmagic, List.size_toByteArray, Vector.length_toList]
  rfl

/-- A header is read back from its bytes. -/
theorem ofFields_of_has (hb : Has b 0 h.encode) (hversion : h.version.toNat < 1000) :
    ofFields h.version b = h := by
  have hrest := hb.append_right
  rw [size_magic hversion] at hrest
  have hchecksum := wordsAt_of_has hrest.append_left
  have hrest := hrest.append_right
  rw [size_wordBytes] at hrest
  have hsignature := bytesAt_of_has hrest.append_left
  have hrest := hrest.append_right
  rw [List.size_toByteArray, Vector.length_toList] at hrest
  have hwords := wordsAt_of_has hrest
  exact eq_of_words_eq rfl (List.head_eq_of_cons_eq hchecksum) hsignature hwords

/-- The bytes that a header is read from are those of the header. -/
theorem encode_ofFields (hle : headerLength ≤ b.size) (hmagic : slice b 0 8 = magic version) :
    (ofFields version b).encode = slice b 0 headerLength := by
  have hlength : headerLength = 112 := rfl
  have hchecksum : wordBytes (wordsAt b 8 1) = slice b 8 4 := wordBytes_wordsAt (by omega)
  have hsignature : (bytesAt b 12 20).toList.toByteArray = slice b 12 20 := toByteArray_bytesAt (by omega)
  have hwords : wordBytes (wordsAt b 32 20) = slice b 32 80 := wordBytes_wordsAt (by omega)
  calc
    (ofFields version b).encode =
        magic version ++ (wordBytes (wordsAt b 8 1) ++ ((bytesAt b 12 20).toList.toByteArray ++
          wordBytes (wordsAt b 32 20))) := rfl
    _ = slice b 0 8 ++ (slice b 8 4 ++ (slice b 12 20 ++ slice b 32 80)) := by
      rw [hmagic, hchecksum, hsignature, hwords]
    _ = slice b 0 headerLength := by
      rw [slice_append_slice b 12 20 80, slice_append_slice b 8 4 100, slice_append_slice b 0 8 104]
      rfl

theorem verify_of_has (hb : Has b 0 h.encode) (hversion : h.version ∈ supportedVersions)
    (htag : h.endianTag = littleEndianTag) : verify b = .ok h.version := by
  have hlt := lt_of_mem_supportedVersions hversion
  have hsize := size_encode hlt
  have hle := hb.add_size_le (by rw [hsize]; decide)
  have hlength : sniffLength ≤ headerLength := by decide
  have hmagic := hb.append_left
  rw [Has, size_magic hlt] at hmagic
  have hread : u32At b 40 = h.endianTag := congrArg endianTag (ofFields_of_has hb hlt)
  refine verify_eq_ok_iff.2 ⟨by omega, hmagic, hversion, ?_⟩
  rw [← u32At_eq_littleEndianTag_iff (by omega), hread, htag]

theorem parse_encode_append (hversion : h.version ∈ supportedVersions) (htag : h.endianTag = littleEndianTag)
    (rest : ByteArray) : parse (h.encode ++ rest) = .ok h := by
  have hb : Has (h.encode ++ rest) 0 h.encode := (Has.refl _).append_left
  have hlt := lt_of_mem_supportedVersions hversion
  have hle : headerLength ≤ (h.encode ++ rest).size := by
    rw [ByteArray.size_append, size_encode hlt]
    exact Nat.le_add_right _ _
  rw [parse_of_le_size (verify_of_has hb hversion htag) hle, ofFields_of_has hb hlt]

theorem parse_of_rejected {e : HeaderError} (hverify : verify b = .error e) : parse b = .error e := by
  rw [parse, hverify]

/-- What was read is well-formed and has the bytes that it was read from. -/
theorem exists_of_parse_ok (hparse : parse b = .ok h) :
    verify b = .ok h.version ∧ headerLength ≤ b.size ∧ h = ofFields h.version b := by
  cases hverify : verify b with
  | error e =>
      rw [parse_of_rejected hverify] at hparse
      cases hparse
  | ok version =>
      by_cases hlt : b.size < headerLength
      · rw [parse_of_size_lt hverify hlt] at hparse
        cases hparse
      · have hle := Nat.le_of_not_lt hlt
        rw [parse_of_le_size hverify hle] at hparse
        cases hparse
        exact ⟨rfl, hle, rfl⟩

end Encoding

/-- What reading a header from `b` comes to. -/
structure IsReadFrom (b : ByteArray) : Prop where
  of_ok : ∀ h, parse b = .ok h →
    h.encode = slice b 0 headerLength ∧ verify b = .ok h.version ∧ h.endianTag = littleEndianTag
  ok_iff : (∃ h, parse b = .ok h) ↔ (∃ version, verify b = .ok version) ∧ headerLength ≤ b.size
  of_rejected : ∀ e, verify b = .error e → parse b = .error e
  of_truncated : ∀ version, verify b = .ok version → b.size < headerLength →
    parse b = .error (.truncated b.size) ∧ (HeaderError.truncated b.size).rejection = .invalid

/-- Reading headers and writing them are inverse to each other, and a header is read wherever there is enough of a dex
file. -/
theorem parse_inverse_encode :
    (∀ (h : Header) (rest : ByteArray), h.version ∈ supportedVersions → h.endianTag = littleEndianTag →
      h.encode.size = headerLength ∧ parse (h.encode ++ rest) = .ok h) ∧
    ∀ b, IsReadFrom b := by
  refine ⟨fun h rest hversion htag => ?_, fun b => ⟨?_, ?_, ?_, ?_⟩⟩
  · exact ⟨size_encode (lt_of_mem_supportedVersions hversion), parse_encode_append hversion htag rest⟩
  · intro h hparse
    obtain ⟨hverify, hle, hfields⟩ := exists_of_parse_ok hparse
    obtain ⟨hsize, hmagic, -, htag⟩ := verify_eq_ok_iff.1 hverify
    rw [← u32At_eq_littleEndianTag_iff hsize] at htag
    refine ⟨?_, hverify, ?_⟩
    · rw [hfields]
      exact encode_ofFields hle hmagic
    · rw [hfields]
      exact htag
  · constructor
    · rintro ⟨h, hparse⟩
      obtain ⟨hverify, hle, -⟩ := exists_of_parse_ok hparse
      exact ⟨⟨_, hverify⟩, hle⟩
    · rintro ⟨⟨version, hverify⟩, hle⟩
      exact ⟨_, parse_of_le_size hverify hle⟩
  · intro e hverify
    exact parse_of_rejected hverify
  · intro version hverify hlt
    exact ⟨parse_of_size_lt hverify hlt, rfl⟩

/-- A header of which no two fields are the same. -/
def countingHeader : Header where
  version := 39
  checksum := 1
  signature := .ofFn fun i => .ofNat (101 + i)
  fileSize := 2
  headerSize := 3
  endianTag := littleEndianTag
  linkSize := 4
  linkOff := 5
  mapOff := 6
  stringIdsSize := 7
  stringIdsOff := 8
  typeIdsSize := 9
  typeIdsOff := 10
  protoIdsSize := 11
  protoIdsOff := 12
  fieldIdsSize := 13
  fieldIdsOff := 14
  methodIdsSize := 15
  methodIdsOff := 16
  classDefsSize := 17
  classDefsOff := 18
  dataSize := 19
  dataOff := 0xFFFFFFFF

theorem parse_inverse_encode_counting :
    countingHeader.version ∈ supportedVersions ∧ countingHeader.endianTag = littleEndianTag ∧
      parse (countingHeader.encode ++ littleEndianBytes) = .ok countingHeader := by
  have hversion : countingHeader.version ∈ supportedVersions := by decide
  exact ⟨hversion, rfl, (parse_inverse_encode.1 countingHeader littleEndianBytes hversion rfl).2⟩

end Header
end Dex
end DexArchive
