import DexArchive.Proofs.Runs
import DexArchive.Proofs.Zip.Splitting

/-! Entries that are stored as they are. Such an entry can be read exactly if its local header is there, its two
sizes are the same, its data are within the archive and their checksum is that of the directory; what is read is
those data. -/

namespace DexArchive.Zip.Archive

variable {σ : Type} {a : Archive σ} {d b : ByteArray} {e : Entry} {s s' : σ}

/-- The entry can be read as it is stored in the bytes `d`. Where the data begin is for the local header to say;
an entry without data may begin anywhere. -/
structure IsStoredIn (d : ByteArray) (e : Entry) : Prop where
  not_encrypted : e.isEncrypted = false
  header_le : e.headerOffset.toNat + 30 ≤ d.size
  signature_eq : slice d e.headerOffset.toNat 4 = ⟨#[0x50, 0x4B, 0x03, 0x04]⟩
  sizes_eq : e.compressedSize = e.uncompressedSize
  data_le : 0 < e.compressedSize → dataStart d e + e.compressedSize.toNat ≤ d.size
  crc_eq : crc32 (slice d (dataStart d e) e.compressedSize.toNat) = e.crc

theorem signature_iff (hle : e.headerOffset.toNat + 30 ≤ d.size) :
    slice d e.headerOffset.toNat 4 = ⟨#[0x50, 0x4B, 0x03, 0x04]⟩ ↔
      numberAt d e.headerOffset.toNat 4 = localHeaderSignature := by
  have hmark : numberAt ⟨#[0x50, 0x4B, 0x03, 0x04]⟩ 0 4 = localHeaderSignature := by decide
  constructor
  · intro heq
    have hnumber : numberAt (slice d e.headerOffset.toNat 4) 0 4 = numberAt d (e.headerOffset.toNat + 0) 4 :=
      numberAt_slice d (by decide)
    rw [heq, hmark, Nat.add_zero] at hnumber
    exact hnumber.symm
  · intro hnumber
    apply ext_byteAt
    · rw [size_slice, Nat.min_eq_left (by omega)]
      rfl
    · intro i hi
      rw [size_slice] at hi
      rw [byteAt_slice, if_pos (by omega), byteAt_eq_of_numberAt_eq (hnumber.trans hmark.symm) (by omega),
        Nat.zero_add]

section Data

variable (hmax : d.size + 2 ^ 17 < 2 ^ 64) (hheader : e.headerOffset.toNat + 30 ≤ d.size)

include hmax hheader

theorem dataStart_lt : dataStart d e < addressMax := by
  have hname := numberAt_lt d (e.headerOffset.toNat + 26) 2
  have hextra := numberAt_lt d (e.headerOffset.toNat + 28) 2
  have hlength : localHeaderLength = 30 := rfl
  have haddress : addressMax = 2 ^ 64 - 1 := rfl
  rw [dataStart]
  omega

theorem remaining_data :
    (Range.ofLength (dataStart d e) e.compressedSize.toNat).remaining =
      min e.compressedSize.toNat (addressMax - dataStart d e) := by
  have hstart := @dataStart_lt d e hmax hheader
  show min (dataStart d e + e.compressedSize.toNat) addressMax - dataStart d e = _
  omega

/-- The data of an entry come to their end iff they are within the archive. A range that is cut at the largest
address does not, as the archive ends before that. -/
theorem ending_dataOf_eq_ok_iff :
    Range.ending (dataOf d e) (.ofLength (dataStart d e) e.compressedSize.toNat) = .ok () ↔
      (0 < e.compressedSize.toNat → dataStart d e + e.compressedSize.toNat ≤ d.size) := by
  have hstart := @dataStart_lt d e hmax hheader
  have haddress : addressMax = 2 ^ 64 - 1 := rfl
  have hremaining := @remaining_data d e hmax hheader
  have hsize := size_slice d (dataStart d e) (Range.ofLength (dataStart d e) e.compressedSize.toNat).remaining
  rw [Range.ending, dataOf, hsize]
  split
  · exact iff_of_true rfl fun hpos => by omega
  · refine iff_of_false ?_ fun h => by omega
    intro heq
    cases heq

theorem dataOf_eq_slice (h : 0 < e.compressedSize.toNat → dataStart d e + e.compressedSize.toNat ≤ d.size) :
    dataOf d e = slice d (dataStart d e) e.compressedSize.toNat ∧
      (dataOf d e).size = e.compressedSize.toNat := by
  have hstart := @dataStart_lt d e hmax hheader
  have haddress : addressMax = 2 ^ 64 - 1 := rfl
  have hwhole : (Range.ofLength (dataStart d e) e.compressedSize.toNat).remaining = e.compressedSize.toNat := by
    rw [remaining_data hmax hheader]
    omega
  rw [dataOf, hwhole, size_slice]
  exact ⟨rfl, by omega⟩

end Data

theorem size_dataOf_le (d : ByteArray) (e : Entry) : (dataOf d e).size ≤ d.size := by
  rw [dataOf, size_slice]
  omega

theorem header_le_of_content_ok {c : Content} (h : a.reader.Gives d) (hc : a.content e s = (.ok c, s')) :
    e.headerOffset.toNat + 30 ≤ d.size ∧ numberAt d e.headerOffset.toNat 4 = localHeaderSignature := by
  obtain ⟨-, header, hread, hsignature, -⟩ := exists_of_content_ok hc
  have hwithin : 0 + 4 ≤ localHeaderLength := by decide
  obtain ⟨s'', hexact⟩ := h.readExact e.headerOffset.toNat localHeaderLength s
  rw [hread, readExactly] at hexact
  split at hexact
  · rename_i hle
    rw [h.isTruthful.readExact hread, numberAt_slice d hwithin] at hsignature
    exact ⟨hle.resolve_left (by decide), hsignature⟩
  · cases hexact

/-- The data of an entry that is not compressed are what reading it to its end comes to. -/
theorem exists_readToEnd_eq (h : a.reader.Gives d) (hm : e.method = .stored) (s : σ) :
    ∃ t, (Content.stream a.reader).readToEnd e.uncompressedSize.toNat
        (min (e.uncompressedSize.toNat + 1) addressMax) (.ofEntry e (dataStart d e), s) =
      (Stream.upTo (dataOf d e)
        (Range.ending (dataOf d e) (.ofLength (dataStart d e) e.compressedSize.toNat))
        (min (e.uncompressedSize.toNat + 1) addressMax), t) := by
  have hstored : e.method ≠ .deflate := by rw [hm]; exact nofun
  exact (Content.pours_stream (carries_dataOf h e) hstored).readToEnd _ _
    (Content.hands_ofEntry e (dataStart d e) (dataOf d e) s)

section Stored

variable (h : a.reader.Serves d) (hmax : d.size + 2 ^ 17 < 2 ^ 64) (hm : e.method = .stored)

include h hm

include hmax

/-- What was read is stored in the archive. -/
theorem isStoredIn_of_readEntry_ok (hread : (a.readEntry e s).1 = .ok b) :
    IsStoredIn d e ∧ b = slice d (dataStart d e) e.compressedSize.toNat := by
  obtain ⟨s', t, hcontent, htoEnd, hsize, hcrc⟩ := exists_of_readEntry_ok h.gives hread
  obtain ⟨hheader, hsignature⟩ := header_le_of_content_ok h.gives hcontent
  obtain ⟨hencrypted, -⟩ := Entry.of_unsupported?_eq_none (content_of_ok h hcontent).1
  obtain ⟨t', hpours⟩ := exists_readToEnd_eq h.gives hm s'
  rw [htoEnd] at hpours
  have hresult := congrArg Prod.fst hpours
  have haddress : addressMax = 2 ^ 64 - 1 := rfl
  have hword := e.uncompressedSize.toNat_lt
  simp only [Stream.upTo] at hresult
  split at hresult
  · -- More than was read can only be there where the length is the largest number.
    rename_i hle
    have hb : b = slice (dataOf d e) 0 (min (e.uncompressedSize.toNat + 1) addressMax) := Except.ok.inj hresult
    have hbsize := congrArg ByteArray.size hb
    have hdata := size_dataOf_le d e
    rw [size_slice, hsize] at hbsize
    omega
  · cases hending : Range.ending (dataOf d e) (.ofLength (dataStart d e) e.compressedSize.toNat) with
    | error cause =>
        rw [hending] at hresult
        cases hresult
    | ok u =>
        rw [hending] at hresult
        obtain rfl : b = dataOf d e := Except.ok.inj hresult
        have hle := (ending_dataOf_eq_ok_iff hmax hheader).1 hending
        obtain ⟨hslice, hwhole⟩ := dataOf_eq_slice hmax hheader hle
        refine ⟨⟨hencrypted, hheader, (signature_iff hheader).2 hsignature, ?_, fun hpos => hle ?_, ?_⟩,
          hslice⟩
        · rw [← UInt64.toNat_inj, ← hwhole, hsize]
        · exact UInt64.lt_iff_toNat_lt.1 hpos
        · rw [← hslice, hcrc]

theorem IsStoredIn.readEntry (hstored : IsStoredIn d e) (s : σ) :
    (a.readEntry e s).1 = .ok (slice d (dataStart d e) e.compressedSize.toNat) := by
  have hheader := hstored.header_le
  have hle : 0 < e.compressedSize.toNat → dataStart d e + e.compressedSize.toNat ≤ d.size := fun hpos =>
    hstored.data_le (UInt64.lt_iff_toNat_lt.2 hpos)
  have hending := (ending_dataOf_eq_ok_iff hmax hheader).2 hle
  obtain ⟨hslice, hwhole⟩ := dataOf_eq_slice hmax hheader hle
  have hunsupported : e.unsupported? = none := by
    rw [Entry.unsupported?, if_neg (by rw [hstored.not_encrypted]; exact Bool.false_ne_true), hm]
  obtain ⟨s', hcontent⟩ := content_of_holds h.holds hunsupported hheader
    ((signature_iff hheader).1 hstored.signature_eq) s
  obtain ⟨t', hpours⟩ := exists_readToEnd_eq h.gives hm s'
  have hsizes : (dataOf d e).size = e.uncompressedSize.toNat := by rw [hwhole, hstored.sizes_eq]
  have haddress : addressMax = 2 ^ 64 - 1 := rfl
  rw [Stream.upTo_of_lt (by omega), hending] at hpours
  rw [readEntry_of_readToEnd_ok hcontent hpours hsizes (by rw [hslice, hstored.crc_eq]), hslice]

/-- An entry that is not compressed can be read iff it is stored in the archive; what is read is the data that its
local header leads to, and otherwise there is an error. The archive is so much shorter than there are addresses that
every place a local header can lead to has one, which holds of all bytes in memory and in files. -/
theorem readEntry_stored_iff (s : σ) :
    (∀ b, (a.readEntry e s).1 = .ok b ↔
      IsStoredIn d e ∧ b = slice d (dataStart d e) e.compressedSize.toNat) ∧
    (¬ IsStoredIn d e → ∃ error, (a.readEntry e s).1 = .error error) := by
  refine ⟨fun b => ⟨isStoredIn_of_readEntry_ok h hmax hm, ?_⟩, fun hnot => ?_⟩
  · rintro ⟨hstored, rfl⟩
    exact hstored.readEntry h hmax hm s
  · cases hread : (a.readEntry e s).1 with
    | error error => exact ⟨error, rfl⟩
    | ok b => exact absurd (isStoredIn_of_readEntry_ok h hmax hm hread).1 hnot

end Stored

/-- The entry of a dex file, as it is and with a size that runs past the end of the archive. -/
theorem readEntry_stored_iff_shortEntry :
    shortBytes.size + 2 ^ 17 < 2 ^ 64 ∧ IsStoredIn shortBytes shortEntry ∧
      ((⟨memoryReader Unit shortBytes, []⟩ : Archive Unit).readEntry shortEntry ()).1 = .ok Dex.shortDex ∧
      ∃ error, ((⟨memoryReader Unit shortBytes, []⟩ : Archive Unit).readEntry
        { shortEntry with compressedSize := 45, uncompressedSize := 45 } ()).1 = .error error := by
  have hserves := Reader.serves_memoryReader Unit shortBytes
  have hmax : shortBytes.size + 2 ^ 17 < 2 ^ 64 := by decide +kernel
  have hdata : slice shortBytes (dataStart shortBytes shortEntry) 44 = Dex.shortDex :=
    hasEntry_shortEntry.data_eq
  have hstored : IsStoredIn shortBytes shortEntry :=
    ⟨rfl, by decide +kernel, by decide +kernel, rfl, fun _ => by decide +kernel, congrArg crc32 hdata⟩
  refine ⟨hmax, hstored, ?_, ?_⟩
  · exact ((readEntry_stored_iff (a := ⟨memoryReader Unit shortBytes, []⟩) hserves hmax rfl ()).1 _).2
      ⟨hstored, hdata.symm⟩
  · refine (readEntry_stored_iff (a := ⟨memoryReader Unit shortBytes, []⟩) hserves hmax rfl ()).2 ?_
    intro hlong
    exact absurd (hlong.data_le (by decide)) (by decide +kernel)

end DexArchive.Zip.Archive
