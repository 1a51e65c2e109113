import DexArchive.Dex.Sniff
import DexArchive.Proofs.Zip.Content
import DexArchive.Proofs.Zip.Opening

/-! Reading the content of an entry, all of it or its start. If it is all there, both go well, and both give
what the content is. -/

namespace DexArchive

namespace Dex

variable {τ : Type} {st : Stream τ} {t t' : τ}

theorem sniff_of_fill_ok {b : ByteArray} (h : st.fill sniffLength t = (.ok b, t')) :
    sniff st t = (.ok (verify b), t') := by
  rw [sniff, Action.bind_ok h]
  rfl

theorem sniff_of_fill {result : Except IoError ByteArray} (h : st.fill sniffLength t = (result, t')) :
    sniff st t = (result.map verify, t') := by
  cases result with
  | ok b => exact sniff_of_fill_ok h
  | error e => exact Action.bind_error h

theorem exists_of_sniff_ok {verdict : Except HeaderError UInt32} (h : sniff st t = (.ok verdict, t')) :
    ∃ b, st.fill sniffLength t = (.ok b, t') ∧ verdict = verify b := by
  unfold sniff at h
  obtain ⟨b, t'', hfill, h⟩ := Action.exists_of_bind_eq_ok h
  cases h
  exact ⟨b, hfill, rfl⟩

end Dex

namespace Zip

namespace Content

variable {σ : Type} {reader : Reader σ} {w : ByteArray} {e : Entry} {start : Nat} {s : σ} {t' : Content × σ}

theorem isPart_of_fill (h : Range.Carries reader w (.ofLength start e.compressedSize.toNat)) {n : Nat}
    {p : ByteArray} (hread : (stream reader).fill n (ofEntry e start, s) = (.ok p, t')) :
    e.method.IsPart w p ∧ p.size ≤ n ∧ (p.size < n → e.method.IsWhole w p) := by
  obtain ⟨hands, hsize, hend⟩ := Stream.reveals_fill (reveals_stream h) (hands_ofEntry e start w s) hread
  exact ⟨hands.isPart, hsize, fun hlt => (hend hlt).isWhole⟩

theorem isPart_of_readToEnd (h : Range.Carries reader w (.ofLength start e.compressedSize.toNat))
    {length limit : Nat} {b : ByteArray}
    (hread : (stream reader).readToEnd length limit (ofEntry e start, s) = (.ok b, t')) :
    e.method.IsPart w b ∧
      (b.size < limit → IsEnd e.method w (.ofLength start e.compressedSize.toNat) b) := by
  obtain ⟨hands, -, hend⟩ := Stream.reveals_readToEnd (reveals_stream h) (hands_ofEntry e start w s) hread
  exact ⟨hands.isPart, hend⟩

/-- A sound content is read to its end and no further, unless its length is the largest there is. -/
theorem readToEnd_of_isSound (h : Range.Carries reader w (.ofLength start e.compressedSize.toNat))
    (hsound : IsSound e.method w (.ofLength start e.compressedSize.toNat)) {b : ByteArray}
    (hb : e.method.IsWhole w b) (hmax : b.size ≤ addressMax) (s : σ) :
    ∃ t', (stream reader).readToEnd b.size (min (b.size + 1) addressMax) (ofEntry e start, s) =
      (.ok b, t') := by
  obtain ⟨p, t', hread⟩ := Stream.flows_readToEnd (flows_stream h hsound) b.size
    (min (b.size + 1) addressMax) (hands_ofEntry e start w s)
  obtain ⟨hands, hle, hend⟩ := Stream.reveals_readToEnd (reveals_stream h) (hands_ofEntry e start w s) hread
  have hpb : p = b := by
    by_cases hlt : p.size < min (b.size + 1) addressMax
    · exact (hend hlt).isWhole.eq hb
    · have hsize := hb.size_le hands.isPart
      rw [hands.isPart.eq_slice hb.isPart hsize, show p.size = b.size by omega,
        slice_of_size_le (Nat.le_refl _)]
  rw [hpb] at hread
  exact ⟨t', hread⟩

theorem sniff_of_isSound (h : Range.Carries reader w (.ofLength start e.compressedSize.toNat))
    (hsound : IsSound e.method w (.ofLength start e.compressedSize.toNat)) {b : ByteArray}
    (hb : e.method.IsWhole w b) (s : σ) :
    ∃ t', Dex.sniff (stream reader) (ofEntry e start, s) = (.ok (Dex.verify b), t') := by
  obtain ⟨p, t', hfill⟩ := Stream.flows_fill (flows_stream h hsound) Dex.sniffLength
    (hands_ofEntry e start w s)
  obtain ⟨hp, hle, hwhole⟩ := isPart_of_fill h hfill
  refine ⟨t', ?_⟩
  rw [Dex.sniff_of_fill_ok hfill, hp.verify_eq hb.isPart hle hwhole fun _ => hb]

end Content

namespace Archive

variable {σ : Type} {a : Archive σ} {d w b : ByteArray} {e : Entry}

/-- Opens the content of an entry for the verdict on its start. -/
def sniff (a : Archive σ) (e : Entry) : Action Error σ (Except Dex.HeaderError UInt32) := do
  readContent (← a.content e) (Dex.sniff (Content.stream a.reader))

theorem sniff_of_content_ok {c : Content} {s s' : σ} (h : a.content e s = (.ok c, s')) :
    a.sniff e s = readContent c (Dex.sniff (Content.stream a.reader)) s' := Action.bind_ok h

/-- What comes of reading a content to its end comes of reading the entry, but for what is checked then. -/
theorem readEntry_of_readToEnd {c : Content} {s s' : σ} {t : Content × σ} {result : Except IoError ByteArray}
    (hcontent : a.content e s = (.ok c, s'))
    (hread : (Content.stream a.reader).readToEnd e.uncompressedSize.toNat
      (min (e.uncompressedSize.toNat + 1) addressMax) (c, s') = (result, t)) :
    a.readEntry e s = (result.mapError Error.io >>= verified e, t.2) := by
  rw [readEntry_eq_bind, Action.bind_ok hcontent]
  cases result with
  | error cause => exact Action.bind_error (readContent_error hread)
  | ok b => exact (Action.bind_ok (readContent_ok hread)).trans (Action.ofExcept_eq _ _)

/-- The content that was read is given if length and checksum are those of the directory. -/
theorem readEntry_of_readToEnd_ok {c : Content} {s s' : σ} {t : Content × σ}
    (hcontent : a.content e s = (.ok c, s'))
    (hread : (Content.stream a.reader).readToEnd e.uncompressedSize.toNat
      (min (e.uncompressedSize.toNat + 1) addressMax) (c, s') = (.ok b, t))
    (hsize : b.size = e.uncompressedSize.toNat) (hcrc : crc32 b = e.crc) :
    a.readEntry e s = (.ok b, t.2) := by
  have hverified : verified e b = .ok b := by
    rw [verified, if_neg fun hne => hne hsize, if_neg fun hne => hne hcrc]
  exact (readEntry_of_readToEnd hcontent hread).trans (congrArg (fun checked => (checked, t.2)) hverified)

theorem carries_dataOf {reader : Reader σ} (h : reader.Gives d) (e : Entry) :
    Range.Carries reader (dataOf d e) (.ofLength (dataStart d e) e.compressedSize.toNat) :=
  Range.carries_of_gives h (.ofLength (dataStart d e) e.compressedSize.toNat)

/-- The archive in `d` has the entry with the content `b`, written as `w`: the local header is where the
directory says, the data are after it, and length and checksum are those of the directory. -/
structure HasEntry (d : ByteArray) (e : Entry) (w b : ByteArray) : Prop where
  supported : e.unsupported? = none
  header_le : e.headerOffset.toNat + localHeaderLength ≤ d.size
  signature_eq : numberAt d e.headerOffset.toNat 4 = localHeaderSignature
  compressedSize_eq : e.compressedSize.toNat = w.size
  data_le : dataStart d e + w.size ≤ d.size
  data_eq : slice d (dataStart d e) w.size = w
  isWhole : e.method.IsWhole w b
  size_eq : e.uncompressedSize.toNat = b.size
  crc_eq : e.crc = crc32 b

namespace HasEntry

theorem range_eq (h : HasEntry d e w b) (hmax : d.size ≤ addressMax) :
    Range.ofLength (dataStart d e) e.compressedSize.toNat = ⟨dataStart d e, dataStart d e + w.size⟩ := by
  have hle := h.data_le
  rw [Range.ofLength, h.compressedSize_eq, Nat.min_eq_left (by omega)]

theorem carries (h : HasEntry d e w b) (hmax : d.size ≤ addressMax) (ha : a.reader.Holds d) :
    Range.Carries a.reader w (.ofLength (dataStart d e) e.compressedSize.toNat) := by
  rw [h.range_eq hmax]
  have hcarries := Range.carries_of_holds ha (r := ⟨dataStart d e, dataStart d e + w.size⟩) h.data_le
  rwa [show Range.remaining ⟨dataStart d e, dataStart d e + w.size⟩ = w.size from Nat.add_sub_cancel_left _ _,
    h.data_eq] at hcarries

theorem isSound (h : HasEntry d e w b) (hmax : d.size ≤ addressMax) :
    Content.IsSound e.method w (.ofLength (dataStart d e) e.compressedSize.toNat) where
  enough := by
    rw [h.range_eq hmax]
    exact .inl (Nat.add_sub_cancel_left _ _).symm
  completes hm := by
    have hwhole := h.isWhole
    rw [hm] at hwhole
    exact ⟨b, hwhole⟩

theorem content (h : HasEntry d e w b) (ha : a.reader.Holds d) (s : σ) :
    ∃ s', a.content e s = (.ok (.ofEntry e (dataStart d e)), s') :=
  content_of_holds ha h.supported h.header_le h.signature_eq s

/-- An entry that the archive has is loaded. -/
theorem readEntry (h : HasEntry d e w b) (hmax : d.size ≤ addressMax) (ha : a.reader.Holds d) (s : σ) :
    ∃ s', a.readEntry e s = (.ok b, s') := by
  obtain ⟨s₁, hcontent⟩ := h.content ha s
  have hsize : b.size ≤ addressMax := by
    rw [← h.size_eq]
    exact Nat.le_sub_one_of_lt e.uncompressedSize.toNat_lt
  obtain ⟨t', hread⟩ := Content.readToEnd_of_isSound (h.carries hmax ha) (h.isSound hmax) h.isWhole hsize s₁
  rw [← h.size_eq] at hread
  exact ⟨t'.2, readEntry_of_readToEnd_ok hcontent hread h.size_eq.symm h.crc_eq.symm⟩

/-- An entry that the archive has is recognised by its content. -/
theorem sniff (h : HasEntry d e w b) (hmax : d.size ≤ addressMax) (ha : a.reader.Holds d) (s : σ) :
    ∃ s', a.sniff e s = (.ok (Dex.verify b), s') := by
  obtain ⟨s₁, hcontent⟩ := h.content ha s
  obtain ⟨t', hsniff⟩ := Content.sniff_of_isSound (h.carries hmax ha) (h.isSound hmax) h.isWhole s₁
  rw [sniff_of_content_ok hcontent]
  exact ⟨t'.2, readContent_ok hsniff⟩

end HasEntry

end Archive

end Zip

end DexArchive
