import DexArchive.Proofs.Zip.Opening

/-! The records at the end of an archive, as they are written and as they are found. An end record counts
if it stands where its comment takes up the rest, and none stands further on; so bytes in the comment that
look like an end record matter only if their own comment would fit as well. -/

namespace DexArchive.Zip

variable {σ : Type} {reader : Reader σ} {b d : ByteArray} {pos : Nat}

namespace EndRecord

def fields (r : EndRecord) : List (Nat × Nat) :=
  [(4, signature), (2, r.diskNumber.toNat), (2, r.directoryDisk.toNat), (2, r.diskEntries.toNat),
    (2, r.totalEntries.toNat), (4, r.directorySize.toNat), (4, r.directoryOffset.toNat),
    (2, r.commentLength.toNat)]

def bytes (r : EndRecord) : ByteArray := pack r.fields

theorem size_bytes (r : EndRecord) : r.bytes.size = length := size_pack _

theorem ofBytesAt_of_has {r : EndRecord} (h : Has b pos r.bytes) : ofBytesAt b pos = r := by
  have hdisk : numberAt b (pos + 4) 2 = _ := h.number_eq 1 rfl rfl r.diskNumber.toNat_lt
  have hdirectoryDisk : numberAt b (pos + 6) 2 = _ := h.number_eq 2 rfl rfl r.directoryDisk.toNat_lt
  have hentries : numberAt b (pos + 8) 2 = _ := h.number_eq 3 rfl rfl r.diskEntries.toNat_lt
  have htotal : numberAt b (pos + 10) 2 = _ := h.number_eq 4 rfl rfl r.totalEntries.toNat_lt
  have hsize : numberAt b (pos + 12) 4 = _ := h.number_eq 5 rfl rfl r.directorySize.toNat_lt
  have hoffset : numberAt b (pos + 16) 4 = _ := h.number_eq 6 rfl rfl r.directoryOffset.toNat_lt
  have hcomment : numberAt b (pos + 20) 2 = _ := h.number_eq 7 rfl rfl r.commentLength.toNat_lt
  simp only [ofBytesAt, u16At, u32At, hdisk, hdirectoryDisk, hentries, htotal, hsize, hoffset, hcomment,
    UInt16.ofNat_toNat, UInt32.ofNat_toNat]

theorem standsAt_of_has {r : EndRecord} (h : Has b pos r.bytes)
    (hcomment : r.commentLength.toNat = b.size - pos - length) : StandsAt b pos := by
  have hsignature : numberAt b pos 4 = signature := h.number_eq 0 rfl rfl (by decide)
  refine ⟨hsignature, ?_⟩
  rw [← hcomment]
  exact h.number_eq 7 rfl rfl r.commentLength.toNat_lt

/-- The end record of a directory that it can point to without a wide end record. -/
def ofExtent (x : Extent) (commentLength : Nat) : EndRecord :=
  ⟨0, 0, .ofNat x.count, .ofNat x.count, .ofNat x.size, .ofNat x.offset, .ofNat commentLength⟩

theorem extent_ofExtent {x : Extent} (hcount : x.count < 0xFFFF) (hsize : x.size < 0xFFFFFFFF)
    (hoffset : x.offset < 0xFFFFFFFF) (commentLength : Nat) :
    ¬ (ofExtent x commentLength).IsWide ∧ (ofExtent x commentLength).extent = x := by
  have hcount' : (UInt16.ofNat x.count).toNat = x.count := UInt16.toNat_ofNat_of_lt' (Nat.lt_trans hcount (by decide))
  have hsize' : (UInt32.ofNat x.size).toNat = x.size :=
    UInt32.toNat_ofNat_of_lt' (Nat.lt_trans hsize (by decide))
  have hoffset' : (UInt32.ofNat x.offset).toNat = x.offset :=
    UInt32.toNat_ofNat_of_lt' (Nat.lt_trans hoffset (by decide))
  constructor
  · rintro (hwide | hwide | hwide | hwide)
    · exact Nat.ne_of_lt hcount (hcount'.symm.trans (congrArg UInt16.toNat hwide))
    · exact Nat.ne_of_lt hcount (hcount'.symm.trans (congrArg UInt16.toNat hwide))
    · exact Nat.ne_of_lt hsize (hsize'.symm.trans (congrArg UInt32.toNat hwide))
    · exact Nat.ne_of_lt hoffset (hoffset'.symm.trans (congrArg UInt32.toNat hwide))
  · simp only [extent, ofExtent, hcount', hsize', hoffset']

/-! ### The last one -/

/-- The end record that counts stands at `pos`. -/
structure IsLast (b : ByteArray) (pos : Nat) : Prop where
  standsAt : StandsAt b pos
  le : pos + length ≤ b.size
  not_after : ∀ p, pos < p → p + length ≤ b.size → ¬ StandsAt b p

theorem lastPlace?_eq_some_iff {n : Nat} :
    lastPlace? b n = some pos ↔ StandsAt b pos ∧ pos < n ∧ ∀ p, pos < p → p < n → ¬ StandsAt b p := by
  induction n with
  | zero => exact ⟨nofun, fun ⟨_, hlt, _⟩ => absurd hlt (Nat.not_lt_zero pos)⟩
  | succ n ih =>
      unfold lastPlace?
      by_cases hn : StandsAt b n
      · rw [if_pos hn, Option.some.injEq]
        constructor
        · rintro rfl
          exact ⟨hn, Nat.lt_succ_self n, fun p hp hpn => by omega⟩
        · rintro ⟨-, hlt, hlast⟩
          apply Decidable.byContradiction
          intro hne
          exact hlast n (by omega) (Nat.lt_succ_self n) hn
      · rw [if_neg hn, ih]
        constructor
        · rintro ⟨hstands, hlt, hlast⟩
          refine ⟨hstands, by omega, fun p hp hpn => ?_⟩
          rcases Nat.lt_succ_iff_lt_or_eq.1 hpn with hpn | rfl
          · exact hlast p hp hpn
          · exact hn
        · rintro ⟨hstands, hlt, hlast⟩
          have hne : pos ≠ n := by
            rintro rfl
            exact hn hstands
          exact ⟨hstands, by omega, fun p hp hpn => hlast p hp (by omega)⟩

theorem lastPlace?_eq_none_iff {n : Nat} : lastPlace? b n = none ↔ ∀ p, p < n → ¬ StandsAt b p := by
  induction n with
  | zero => exact ⟨fun _ p hp => absurd hp (Nat.not_lt_zero p), fun _ => rfl⟩
  | succ n ih =>
      unfold lastPlace?
      by_cases hn : StandsAt b n
      · rw [if_pos hn]
        exact ⟨nofun, fun hnone => absurd hn (hnone n (Nat.lt_succ_self n))⟩
      · rw [if_neg hn, ih]
        constructor
        · intro hnone p hp
          rcases Nat.lt_succ_iff_lt_or_eq.1 hp with hp | rfl
          · exact hnone p hp
          · exact hn
        · exact fun hnone p hp => hnone p (by omega)

theorem place?_eq_some_iff : place? b = some pos ↔ IsLast b pos := by
  rw [place?, lastPlace?_eq_some_iff]
  constructor
  · rintro ⟨hstands, hlt, hlast⟩
    exact ⟨hstands, by omega, fun p hp hle => hlast p hp (by omega)⟩
  · rintro ⟨hstands, hle, hlast⟩
    exact ⟨hstands, by omega, fun p hp hlt => hlast p hp (by omega)⟩

theorem place?_eq_none_iff : place? b = none ↔ ∀ p, p + length ≤ b.size → ¬ StandsAt b p := by
  rw [place?, lastPlace?_eq_none_iff]
  exact ⟨fun h p hle => h p (by omega), fun h p hlt => h p (by omega)⟩

/-- From some byte on to the end, an end record stands where it stands in the whole. -/
theorem standsAt_slice_iff {start : Nat} (hle : start + pos + length ≤ d.size) :
    StandsAt (slice d start (d.size - start)) pos ↔ StandsAt d (start + pos) := by
  have hlength : length = 22 := rfl
  rw [StandsAt, StandsAt, numberAt_slice d (by omega), numberAt_slice d (by omega), size_slice, Nat.min_self,
    Nat.sub_sub d.size start pos, Nat.add_assoc]

theorem ofBytesAt_slice {start n : Nat} (hle : pos + length ≤ n) :
    ofBytesAt (slice d start n) pos = ofBytesAt d (start + pos) := by
  have hlength : length = 22 := rfl
  have hnumber : ∀ place width, place + width ≤ length →
      numberAt (slice d start n) (pos + place) width = numberAt d (start + pos + place) width := by
    intro place width hplace
    rw [numberAt_slice d (by omega), Nat.add_assoc]
  simp only [ofBytesAt, u16At, u32At, hnumber 4 2 (by omega), hnumber 6 2 (by omega), hnumber 8 2 (by omega),
    hnumber 10 2 (by omega), hnumber 12 4 (by omega), hnumber 16 4 (by omega), hnumber 20 2 (by omega)]

/-- The comment is no longer than its field can say, so an end record is in the tail. -/
theorem size_le_of_standsAt (h : StandsAt d pos) (hle : pos + length ≤ d.size) :
    d.size ≤ pos + tailLength := by
  have hcomment := numberAt_lt d (pos + 20) 2
  have hrest := h.2
  have hlength : length = 22 := rfl
  have htail : tailLength = 22 + 65535 := rfl
  omega

/-- The search through the tail is the search through the whole. -/
theorem place?_eq_map_place?_slice (d : ByteArray) :
    place? d = (place? (slice d (d.size - tailLength) (d.size - (d.size - tailLength)))).map
      (d.size - tailLength + ·) := by
  have hlength : length = 22 := rfl
  have hsize := size_slice d (d.size - tailLength) (d.size - (d.size - tailLength))
  cases hplace : place? (slice d (d.size - tailLength) (d.size - (d.size - tailLength))) with
  | none =>
      have hnone := place?_eq_none_iff.1 hplace
      rw [Option.map_none, place?_eq_none_iff]
      intro p hle hstands
      have htail := size_le_of_standsAt hstands hle
      obtain ⟨place, rfl⟩ : ∃ place, p = d.size - tailLength + place := ⟨p - (d.size - tailLength), by omega⟩
      exact hnone place (by omega) ((standsAt_slice_iff hle).2 hstands)
  | some place =>
      obtain ⟨hstands, hle, hlast⟩ := place?_eq_some_iff.1 hplace
      rw [Option.map_some, place?_eq_some_iff]
      refine ⟨(standsAt_slice_iff (by omega)).1 hstands, by omega, fun p hp hple hstandsp => ?_⟩
      obtain ⟨place', rfl⟩ : ∃ place', p = d.size - tailLength + place' :=
        ⟨p - (d.size - tailLength), by omega⟩
      exact hlast place' (by omega) (by omega) ((standsAt_slice_iff hple).2 hstandsp)

/-- The end record that counts with its place, by a search through all the bytes. -/
def search (d : ByteArray) : Except Malformed (EndRecord × Nat) :=
  match place? d with
  | some pos => .ok (.ofBytesAt d pos, pos)
  | none => .error (if d.size < length then .tooShort d.size else .noEndRecord)

theorem search_of_place?_eq_none (h : place? d = none) :
    search d = .error (if d.size < length then .tooShort d.size else .noEndRecord) := by
  unfold search
  simp only [h]

theorem search_eq_ok_iff {r : EndRecord} : search d = .ok (r, pos) ↔ IsLast d pos ∧ r = .ofBytesAt d pos := by
  unfold search
  cases hplace : place? d with
  | none =>
      have hnone := place?_eq_none_iff.1 hplace
      exact ⟨nofun, fun ⟨hlast, _⟩ => absurd hlast.standsAt (hnone pos hlast.le)⟩
  | some place =>
      have hlast := place?_eq_some_iff.1 hplace
      simp only [Except.ok.injEq, Prod.mk.injEq]
      constructor
      · rintro ⟨rfl, rfl⟩
        exact ⟨hlast, rfl⟩
      · rintro ⟨hlast', rfl⟩
        obtain rfl : place = pos := Option.some.inj (hplace.symm.trans (place?_eq_some_iff.2 hlast'))
        exact ⟨rfl, rfl⟩

theorem search_eq_error_iff :
    (∃ cause, search d = .error cause) ↔ ∀ p, p + length ≤ d.size → ¬ StandsAt d p := by
  rw [← place?_eq_none_iff]
  unfold search
  generalize place? d = found
  cases found with
  | none => exact ⟨fun _ => rfl, fun _ => ⟨_, rfl⟩⟩
  | some place => exact ⟨nofun, nofun⟩

end EndRecord

/-- What is found is what a search through all the bytes finds. -/
theorem findEndRecord_of_holds (h : reader.Holds d) (s : σ) :
    ∃ s', findEndRecord reader s = ((EndRecord.search d).mapError (.notAnArchive none), s') := by
  have hlength : EndRecord.length = 22 := rfl
  rw [findEndRecord, h.size_eq]
  by_cases hshort : d.size < EndRecord.length
  · have hplace : EndRecord.place? d = none :=
      EndRecord.place?_eq_none_iff.2 fun p hle => absurd hle (by omega)
    rw [if_pos hshort, EndRecord.search_of_place?_eq_none hplace, if_pos hshort]
    exact ⟨s, rfl⟩
  · rw [if_neg hshort]
    obtain ⟨s₁, hread⟩ := readBytes_of_holds h
      (show d.size - EndRecord.length + EndRecord.length ≤ d.size by omega) s
    simp only [Action.bind_ok hread]
    have hrest : d.size - (d.size - EndRecord.length) = EndRecord.length := by omega
    have hstands : EndRecord.StandsAt (slice d (d.size - EndRecord.length) EndRecord.length) 0 ↔
        EndRecord.StandsAt d (d.size - EndRecord.length) := by
      have hslice := EndRecord.standsAt_slice_iff
        (show d.size - EndRecord.length + 0 + EndRecord.length ≤ d.size by omega)
      rwa [hrest, Nat.add_zero] at hslice
    by_cases hfast : EndRecord.StandsAt d (d.size - EndRecord.length)
    · -- Nothing can stand after this one, so it is the one that counts.
      have hlast : EndRecord.IsLast d (d.size - EndRecord.length) :=
        ⟨hfast, by omega, fun p hp hle => by omega⟩
      rw [if_pos (hstands.2 hfast), EndRecord.ofBytesAt_slice (by omega), Nat.add_zero,
        EndRecord.search_eq_ok_iff.2 ⟨hlast, rfl⟩]
      exact ⟨s₁, rfl⟩
    · rw [if_neg fun hslice => hfast (hstands.1 hslice)]
      have htail : min tailLength d.size = d.size - (d.size - tailLength) := by omega
      obtain ⟨s₂, hread⟩ := readBytes_of_holds h
        (show d.size - tailLength + min tailLength d.size ≤ d.size by omega) s₁
      have hwhole := EndRecord.place?_eq_map_place?_slice d
      simp only [Action.bind_ok hread]
      rw [htail]
      cases hplace : EndRecord.place? (slice d (d.size - tailLength) (d.size - (d.size - tailLength))) with
      | none =>
          rw [hplace, Option.map_none] at hwhole
          rw [EndRecord.search_of_place?_eq_none hwhole, if_neg hshort]
          exact ⟨s₂, rfl⟩
      | some place =>
          have hle := (EndRecord.place?_eq_some_iff.1 hplace).le
          rw [size_slice, Nat.min_self] at hle
          have hrecord : EndRecord.ofBytesAt (slice d (d.size - tailLength) (d.size - (d.size - tailLength))) place =
              EndRecord.ofBytesAt d (d.size - tailLength + place) := EndRecord.ofBytesAt_slice hle
          rw [hplace, Option.map_some] at hwhole
          rw [EndRecord.search_eq_ok_iff.2 ⟨EndRecord.place?_eq_some_iff.1 hwhole, rfl⟩]
          simp only [hrecord]
          exact ⟨s₂, rfl⟩

/-- The end record that counts is found, with or without a comment after it. -/
theorem findEndRecord_of_isLast (h : reader.Holds d) (hlast : EndRecord.IsLast d pos) (s : σ) :
    ∃ s', findEndRecord reader s = (.ok (.ofBytesAt d pos, pos), s') := by
  obtain ⟨s', hfound⟩ := findEndRecord_of_holds h s
  rw [EndRecord.search_eq_ok_iff.2 ⟨hlast, rfl⟩] at hfound
  exact ⟨s', hfound⟩

/-- An end record is found exactly where the last one stands in all the bytes, and none is found exactly if
none stands anywhere; looking at the last bytes first, and not further back than a comment reaches, makes no
difference to a search through all the bytes. -/
theorem findEndRecord_exact (h : reader.Holds d) (s : σ) :
    (∀ r o, (findEndRecord reader s).1 = .ok (r, o) ↔ EndRecord.IsLast d o ∧ r = .ofBytesAt d o) ∧
      ((∃ cause, (findEndRecord reader s).1 = .error (.notAnArchive none cause)) ↔
        ∀ o, o + EndRecord.length ≤ d.size → ¬ EndRecord.StandsAt d o) ∧
      (findEndRecord reader s).1 = (EndRecord.search d).mapError (.notAnArchive none) := by
  obtain ⟨s', hfound⟩ := findEndRecord_of_holds h s
  rw [hfound]
  refine ⟨fun r o => ?_, ?_, rfl⟩
  · rw [← EndRecord.search_eq_ok_iff]
    cases EndRecord.search d with
    | error cause => exact ⟨nofun, nofun⟩
    | ok found => exact ⟨fun hok => congrArg Except.ok (Except.ok.inj hok),
        fun hok => congrArg Except.ok (Except.ok.inj hok)⟩
  · rw [← EndRecord.search_eq_error_iff]
    cases EndRecord.search d with
    | error cause => exact ⟨fun _ => ⟨cause, rfl⟩, fun _ => ⟨cause, rfl⟩⟩
    | ok found => exact ⟨nofun, nofun⟩

/-- An end record whose comment looks like another one; that one's comment would not take up the rest. -/
def nested : ByteArray :=
  (EndRecord.ofExtent ⟨0, 0, 0⟩ 26).bytes ++ (EndRecord.ofExtent ⟨0, 0, 0⟩ 3).bytes ++ pack [(4, 0)]

theorem findEndRecord_exact_nested :
    (memoryReader Unit nested).Holds nested ∧
      (findEndRecord (memoryReader Unit nested) ()).1 = .ok (.ofBytesAt nested 0, 0) := by
  have hsize : nested.size = 48 := by decide +kernel
  have hlength : EndRecord.length = 22 := rfl
  have hnot : ∀ p : Fin 27, p.val ≠ 0 → ¬ EndRecord.StandsAt nested p.val := by decide +kernel
  have hlast : EndRecord.IsLast nested 0 :=
    ⟨by decide +kernel, by omega, fun p hp hle => hnot ⟨p, by omega⟩ (Nat.ne_of_gt hp)⟩
  have hholds := (Reader.serves_memoryReader Unit nested).holds
  exact ⟨hholds, ((findEndRecord_exact hholds ()).1 _ 0).2 ⟨hlast, rfl⟩⟩

/-! ### Wide end records -/

/-- What stands in a wide end record and its locator besides what is read: numbers, and bytes after the
fixed fields of the record. -/
structure WideTrimmings where
  recordSize : UInt64
  madeBy : UInt16
  needed : UInt16
  disk : UInt32
  directoryDisk : UInt32
  diskEntries : UInt64
  more : ByteArray
  locatorDisk : UInt32
  disks : UInt32

def Locator.bytes (l : Locator) (t : WideTrimmings) : ByteArray :=
  pack [(4, signature), (4, t.locatorDisk.toNat), (8, l.offset.toNat), (4, t.disks.toNat)]

theorem Locator.size_bytes (l : Locator) (t : WideTrimmings) : (l.bytes t).size = length := size_pack _

theorem Locator.parse_of_has {l : Locator} {t : WideTrimmings} (h : Has d pos (l.bytes t)) :
    parse (slice d pos length) = .ok l := by
  have hlength : length = 20 := rfl
  have hsize := l.size_bytes t
  have hle := h.add_size_le (by omega)
  have hsignature : numberAt d (pos + 0) 4 = signature := h.number_eq 0 rfl rfl (by decide)
  have hoffset : numberAt d (pos + 8) 8 = l.offset.toNat := h.number_eq 2 rfl rfl l.offset.toNat_lt
  rw [← numberAt_slice d (show 0 + 4 ≤ length by omega)] at hsignature
  rw [← numberAt_slice d (show 8 + 8 ≤ length by omega)] at hoffset
  rw [parse, size_slice, hsignature, if_neg (by omega), u64At_eq hoffset]

namespace WideEndRecord

def fields (w : WideEndRecord) (t : WideTrimmings) : List (Nat × Nat) :=
  [(4, signature), (8, t.recordSize.toNat), (2, t.madeBy.toNat), (2, t.needed.toNat), (4, t.disk.toNat),
    (4, t.directoryDisk.toNat), (8, t.diskEntries.toNat), (8, w.totalEntries.toNat),
    (8, w.directorySize.toNat), (8, w.directoryOffset.toNat)]

def bytes (w : WideEndRecord) (t : WideTrimmings) : ByteArray := pack (w.fields t) ++ t.more

theorem size_bytes (w : WideEndRecord) (t : WideTrimmings) : (w.bytes t).size = length + t.more.size := by
  rw [bytes, ByteArray.size_append, size_pack]
  rfl

theorem parse_of_has {w : WideEndRecord} {t : WideTrimmings} (h : Has d pos (w.bytes t)) :
    parse (slice d pos length) = .ok w := by
  have hlength : length = 56 := rfl
  have hsize := w.size_bytes t
  have hle := h.add_size_le (by omega)
  have hfields := h.append_left
  have hsignature : numberAt d (pos + 0) 4 = signature := hfields.number_eq 0 rfl rfl (by decide)
  have htotal : numberAt d (pos + 32) 8 = _ := hfields.number_eq 7 rfl rfl w.totalEntries.toNat_lt
  have hdirectory : numberAt d (pos + 40) 8 = _ := hfields.number_eq 8 rfl rfl w.directorySize.toNat_lt
  have hoffset : numberAt d (pos + 48) 8 = _ := hfields.number_eq 9 rfl rfl w.directoryOffset.toNat_lt
  rw [← numberAt_slice d (show 0 + 4 ≤ length by omega)] at hsignature
  rw [← numberAt_slice d (show 32 + 8 ≤ length by omega)] at htotal
  rw [← numberAt_slice d (show 40 + 8 ≤ length by omega)] at hdirectory
  rw [← numberAt_slice d (show 48 + 8 ≤ length by omega)] at hoffset
  rw [parse, size_slice, hsignature, if_neg (by omega), u64At_eq htotal, u64At_eq hdirectory, u64At_eq hoffset]

end WideEndRecord

/-- The locator is just before the end record; it says where to look. -/
theorem readWideEndRecord_of_locator (h : reader.Holds d) {l : Locator} {t : WideTrimmings}
    (hlocator : Has d pos (l.bytes t)) (s : σ) :
    ∃ s', readWideEndRecord reader (pos + Locator.length) s =
      (if d.size < l.offset.toNat + WideEndRecord.length then malformed .wideEndRecordOutOfBounds
        else do wellFormed (WideEndRecord.parse (← readBytes reader l.offset.toNat WideEndRecord.length)) :
          Action Error σ WideEndRecord) s' := by
  have hlength : Locator.length = 20 := rfl
  have hsize := l.size_bytes t
  have hle := hlocator.add_size_le (by omega)
  obtain ⟨s₁, hread⟩ := readBytes_of_holds h (show pos + Locator.length ≤ d.size by omega) s
  refine ⟨s₁, ?_⟩
  rw [readWideEndRecord, if_neg (by omega), Nat.add_sub_cancel]
  simp only [Action.bind_ok hread, Locator.parse_of_has hlocator]
  rw [Action.bind_ok (wellFormed_ok l s₁), h.size_eq]

theorem readWideEndRecord_of_has (h : reader.Holds d) {l : Locator} {w : WideEndRecord} {t : WideTrimmings}
    (hlocator : Has d pos (l.bytes t)) (hwide : Has d l.offset.toNat (w.bytes t)) (s : σ) :
    ∃ s', readWideEndRecord reader (pos + Locator.length) s = (.ok w, s') := by
  have hlength : WideEndRecord.length = 56 := rfl
  have hsize := w.size_bytes t
  have hle := hwide.add_size_le (by omega)
  obtain ⟨s₁, hlook⟩ := readWideEndRecord_of_locator h hlocator s
  obtain ⟨s₂, hread⟩ := readBytes_of_holds h (show l.offset.toNat + WideEndRecord.length ≤ d.size by omega) s₁
  refine ⟨s₂, ?_⟩
  rw [hlook, if_neg (by omega)]
  simp only [Action.bind_ok hread, WideEndRecord.parse_of_has hwide]
  exact wellFormed_ok w s₂

theorem readWideEndRecord_of_lt (h : reader.Holds d) {l : Locator} {t : WideTrimmings}
    (hlocator : Has d pos (l.bytes t)) (hout : d.size < l.offset.toNat + WideEndRecord.length) (s : σ) :
    ∃ s', readWideEndRecord reader (pos + Locator.length) s =
      (.error (.notAnArchive none .wideEndRecordOutOfBounds), s') := by
  obtain ⟨s₁, hlook⟩ := readWideEndRecord_of_locator h hlocator s
  rw [if_pos hout] at hlook
  exact ⟨s₁, hlook⟩

end DexArchive.Zip
