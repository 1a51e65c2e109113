import DexArchive.Proofs.Checksum
import DexArchive.Proofs.Zip.Resuming
import DexArchive.Proofs.Zip.Stored

/-! Damage to the data of an entry that is stored as it is. Data that could be read once have the length and the
checksum of the directory. If bytes of them change that are no further apart than a checksum is long, what is read has
that length still, but not that checksum. -/

namespace DexArchive.Zip.Archive

variable {σ τ : Type} {a : Archive σ} {a' : Archive τ} {d d' b : ByteArray} {e : Entry} {start length : Nat}

/-- What was read of a truthful reader is as many bytes of the data as the directory says, and they have its
checksum. -/
theorem eq_slice_of_readEntry_ok (h : a.reader.IsTruthful d) (hm : e.method = .stored) {s : σ}
    (hread : (a.readEntry e s).1 = .ok b) :
    b = slice d (dataStart d e) b.size ∧ b.size = e.uncompressedSize.toNat ∧ crc32 b = e.crc := by
  rcases a.readEntry_cases e s with ⟨error, s', -, herror⟩ | ⟨c, s', hcontent, ⟨cause, herror⟩ |
    ⟨b', t, htoEnd, hsize, hcrc, hok⟩⟩
  · rw [herror] at hread
    cases hread
  · rw [herror] at hread
    cases hread
  · rw [hok] at hread
    cases hread
    obtain ⟨-, rfl⟩ := content_of_isTruthful h hcontent
    obtain ⟨log, hreads, -, hall⟩ := (Content.stream a.reader).exists_reads_readToEnd e.uncompressedSize.toNat
      (min (e.uncompressedSize.toNat + 1) addressMax) (.ofEntry e (dataStart d e), s')
    rw [htoEnd] at hall
    obtain rfl := hall b rfl
    rw [Content.ofEntry, hm] at hreads
    obtain ⟨now, -, -, hhands⟩ := Content.handsOver_of_reads h (Range.handsOver_empty d _) hreads
    rw [ByteArray.empty_append] at hhands
    exact ⟨hhands.got_eq, hsize, hcrc⟩

/-- A range of data that is all there is read as it is. Only one of the largest length reaches the limit. -/
theorem exists_readToEnd_dataOf (h : a.reader.Gives d) (hm : e.method = .stored)
    (hall : (dataOf d e).size = (Range.ofLength (dataStart d e) e.compressedSize.toNat).remaining)
    (hle : (dataOf d e).size ≤ min (e.uncompressedSize.toNat + 1) addressMax) (s : σ) :
    ∃ t, (Content.stream a.reader).readToEnd e.uncompressedSize.toNat
        (min (e.uncompressedSize.toNat + 1) addressMax) (.ofEntry e (dataStart d e), s) =
      (.ok (dataOf d e), t) := by
  obtain ⟨t, hread⟩ := exists_readToEnd_eq h hm s
  refine ⟨t, ?_⟩
  rw [hread, Range.ending, if_pos hall, Stream.upTo]
  split
  · rw [slice_of_size_le hle]
  · rfl

/-- What was read of an entry is the range of its data, all of it. -/
theorem eq_dataOf_of_readEntry_ok (h : a.reader.Gives d) (hm : e.method = .stored) {s : σ}
    (hread : (a.readEntry e s).1 = .ok b) :
    b = dataOf d e ∧
      (dataOf d e).size = (Range.ofLength (dataStart d e) e.compressedSize.toNat).remaining := by
  have hstored : e.method ≠ .deflate := by rw [hm]; exact nofun
  obtain ⟨s', t, -, htoEnd, hsize, -⟩ := exists_of_readEntry_ok h hread
  have hall := Content.size_eq_of_readToEnd (carries_dataOf h e) hstored hsize htoEnd
  refine ⟨?_, hall⟩
  obtain ⟨t', hread'⟩ := exists_readToEnd_eq h hm s'
  rw [htoEnd, Range.ending, if_pos hall] at hread'
  have hresult : Except.ok b = Stream.upTo (dataOf d e) (.ok ()) _ := congrArg Prod.fst hread'
  unfold Stream.upTo at hresult
  split at hresult
  · have hb := Except.ok.inj hresult
    have hbsize := congrArg ByteArray.size hb
    have hrange : (Range.ofLength (dataStart d e) e.compressedSize.toNat).remaining ≤ addressMax :=
      Nat.le_trans (Nat.sub_le _ _) (Nat.min_le_right _ _)
    rw [size_slice, hsize] at hbsize
    rw [hb, slice_of_size_le (by omega)]
  · exact Except.ok.inj hresult

/-! ### The same entry in other bytes -/

section Damage

variable (hd : DiffersWithin d d' start length) (hstart : dataStart d e ≤ start)

include hd hstart

theorem byteAt_header_eq {i : Nat} (hi : i < 30) :
    byteAt d (e.headerOffset.toNat + i) = byteAt d' (e.headerOffset.toNat + i) := by
  have hlength : localHeaderLength = 30 := rfl
  apply hd.same
  unfold dataStart at hstart
  omega

theorem numberAt_header_eq {i width : Nat} (hi : i + width ≤ 30) :
    numberAt d (e.headerOffset.toNat + i) width = numberAt d' (e.headerOffset.toNat + i) width := by
  apply numberAt_congr
  intro j hj
  rw [Nat.add_assoc]
  exact byteAt_header_eq hd hstart (by omega)

theorem dataStart_eq : dataStart d' e = dataStart d e := by
  rw [dataStart, dataStart, numberAt_header_eq hd hstart (show 26 + 2 ≤ 30 by decide),
    numberAt_header_eq hd hstart (show 28 + 2 ≤ 30 by decide)]

/-- The data differ within as many bytes as the archives do. -/
theorem differsWithin_dataOf
    (hstop : start + length ≤ (Range.ofLength (dataStart d e) e.compressedSize.toNat).stop) :
    DiffersWithin (dataOf d e) (dataOf d' e) (start - dataStart d e) length := by
  have hrange : dataStart d e + (Range.ofLength (dataStart d e) e.compressedSize.toNat).remaining =
      (Range.ofLength (dataStart d e) e.compressedSize.toNat).stop :=
    Nat.add_sub_cancel' (Nat.le_trans hstart (Nat.le_trans (Nat.le_add_right _ _) hstop))
  rw [dataOf, dataOf, dataStart_eq hd hstart]
  exact hd.slice hstart (by omega)

/-- The local header is as it was, and so the content is opened as it was. -/
theorem exists_content_of_damage (h : a.reader.Gives d) (h' : a'.reader.Gives d') {c : Content} {s s' : σ}
    (hcontent : a.content e s = (.ok c, s')) (t : τ) :
    ∃ t', a'.content e t = (.ok (.ofEntry e (dataStart d' e)), t') := by
  obtain ⟨hle, hsignature⟩ := header_le_of_content_ok h hcontent
  rw [hd.size_eq] at hle
  rw [← Nat.add_zero e.headerOffset.toNat, numberAt_header_eq hd hstart (show 0 + 4 ≤ 30 by decide),
    Nat.add_zero] at hsignature
  have hserves := Reader.serves_memoryReader Unit d'
  obtain ⟨s'', hopened⟩ := content_of_holds (a := ⟨memoryReader Unit d', []⟩) hserves.holds
    (content_of_gives h hcontent).1 hle hsignature ()
  exact exists_content_eq (a := ⟨memoryReader Unit d', []⟩) hserves.gives h' hopened t

end Damage

/-- If an entry that is stored as it is could be read, no change of up to four bytes one after the other in its data
escapes notice, wherever it is and however long they are. What else the changed archive is said to hold does not
matter, nor does it matter if its reader fails at times; where it does not, the checksum is found not to be that of
the entry. -/
theorem readEntry_of_damage (h : a.reader.Gives d) (hm : e.method = .stored) {s : σ}
    (hread : (a.readEntry e s).1 = .ok b) (hd : DiffersWithin d d' start length) (hlength : length ≤ 4)
    (hstart : dataStart d e ≤ start)
    (hstop : start + length ≤ (Range.ofLength (dataStart d e) e.compressedSize.toNat).stop)
    (h' : a'.reader.IsTruthful d') (t : τ) :
    (∀ b', (a'.readEntry e t).1 ≠ .ok b') ∧
      (a'.reader.Gives d' → ∃ cause, (a'.readEntry e t).1 = .error (.io cause) ∧ cause.kind = .invalidData ∧
        ∃ got, got ≠ e.crc ∧ cause = .checksumMismatch e.name e.crc got) := by
  obtain ⟨-, hsize, hcrc⟩ := eq_slice_of_readEntry_ok h.isTruthful hm hread
  obtain ⟨rfl, hall⟩ := eq_dataOf_of_readEntry_ok h hm hread
  have hplace := dataStart_eq hd hstart
  have hdata := differsWithin_dataOf hd hstart hstop
  have hne : crc32 (dataOf d' e) ≠ e.crc := by
    rw [← hcrc]
    exact (hdata.crc32_ne hlength).symm
  refine ⟨fun b' hread' => ?_, fun hgives => ?_⟩
  · obtain ⟨hslice, hsize', hcrc'⟩ := eq_slice_of_readEntry_ok h' hm hread'
    have hb' : b' = dataOf d' e := by
      rw [hslice, dataOf, hplace, ← hall, hsize, hsize']
    exact hne (hb' ▸ hcrc')
  · obtain ⟨s', u, hcontent, -⟩ := exists_of_readEntry_ok h hread
    obtain ⟨t', hcontent'⟩ := exists_content_of_damage hd hstart h hgives hcontent t
    have hall' : (dataOf d' e).size = (Range.ofLength (dataStart d' e) e.compressedSize.toNat).remaining := by
      rw [← hdata.size_eq, hplace, hall]
    have hsize' : (dataOf d' e).size = e.uncompressedSize.toNat := by rw [← hdata.size_eq, hsize]
    have hlimit : (dataOf d' e).size ≤ min (e.uncompressedSize.toNat + 1) addressMax := by
      rw [hsize']
      exact Nat.le_min.2 ⟨Nat.le_succ _, Nat.le_sub_one_of_lt e.uncompressedSize.toNat_lt⟩
    obtain ⟨u', htoEnd⟩ := exists_readToEnd_dataOf hgives hm hall' hlimit t'
    have hverified : verified e (dataOf d' e) =
        .error (.io (.checksumMismatch e.name e.crc (crc32 (dataOf d' e)))) := by
      rw [verified, if_neg fun hneq => hneq hsize', if_pos hne]
    refine ⟨.checksumMismatch e.name e.crc (crc32 (dataOf d' e)), ?_, rfl, _, hne, rfl⟩
    rw [readEntry_eq_bind, Action.bind_ok hcontent', Action.bind_ok (readContent_ok htoEnd), hverified]
    rfl

/-- The archive of a dex file, with one byte of it changed. -/
def scratchedBytes : ByteArray := shortBytes.set 40 0xFF (by decide +kernel)

theorem readEntry_of_damage_scratchedBytes :
    shortEntry.method = .stored ∧
      ((⟨memoryReader Unit shortBytes, []⟩ : Archive Unit).readEntry shortEntry ()).1 = .ok Dex.shortDex ∧
      DiffersWithin shortBytes scratchedBytes 40 1 ∧ dataStart shortBytes shortEntry ≤ 40 ∧
      40 + 1 ≤ (Range.ofLength (dataStart shortBytes shortEntry) shortEntry.compressedSize.toNat).stop ∧
      ∃ got, got ≠ shortEntry.crc ∧
        ((⟨memoryReader Unit scratchedBytes, []⟩ : Archive Unit).readEntry shortEntry ()).1 =
          .error (.io (.checksumMismatch "classes.dex" shortEntry.crc got)) := by
  have hserves := Reader.serves_memoryReader Unit shortBytes
  have hgives' : (⟨memoryReader Unit scratchedBytes, []⟩ : Archive Unit).reader.Gives scratchedBytes :=
    (Reader.serves_memoryReader Unit scratchedBytes).gives
  obtain ⟨s, hread⟩ := hasEntry_shortEntry.readEntry (a := ⟨memoryReader Unit shortBytes, []⟩)
    (by decide +kernel) hserves.holds ()
  have hok := congrArg Prod.fst hread
  have hdiffers : DiffersWithin shortBytes scratchedBytes 40 1 := .of_set _ (by decide +kernel)
  have hstart : dataStart shortBytes shortEntry ≤ 40 := by decide +kernel
  have hstop : 40 + 1 ≤ (Range.ofLength (dataStart shortBytes shortEntry)
      shortEntry.compressedSize.toNat).stop := by decide +kernel
  obtain ⟨-, hmismatch⟩ := readEntry_of_damage (a := ⟨memoryReader Unit shortBytes, []⟩) hserves.gives rfl hok
    hdiffers (by decide) hstart hstop hgives'.isTruthful ()
  obtain ⟨cause, hfails, -, got, hne, rfl⟩ := hmismatch hgives'
  exact ⟨rfl, hok, hdiffers, hstart, hstop, got, hne, hfails⟩

end DexArchive.Zip.Archive
