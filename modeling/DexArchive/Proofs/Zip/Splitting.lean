import DexArchive.Proofs.Zip.Sniffing

/-! Readers that give the same bytes, each in pieces of its own. The pieces do not show in the entries of an
archive, nor in what is read of an entry that is not compressed, failures included. They do not show in a
compressed content either, unless the archive ends with the last byte of it and before the entry does: to
find that the content is at its end then takes bytes that are not there, or not, as the pieces fall. -/

namespace DexArchive

/-- Bytes in memory that are handed over in portions. -/
def portionReader (σ : Type) (portion : Nat) (data : ByteArray) : Reader σ where
  size := data.size
  readAt offset length s := (.ok (slice data offset (min portion length)), s)
  interruptions _ := 0
  size_readAt_le offset length s b h := by
    cases h
    exact Nat.le_trans (size_slice_le data offset _) (Nat.min_le_right portion length)
  interruptions_readAt := (memoryReader σ data).interruptions_readAt

theorem Reader.serves_portionReader (σ : Type) {portion : Nat} (h : 0 < portion) (d : ByteArray) :
    (portionReader σ portion d).Serves d where
  size_eq := rfl
  answers offset length s := ⟨slice d offset (min portion length), s, rfl, isPiece_slice_min h d offset length⟩

namespace Zip.Archive

variable {σ τ : Type} {a : Archive σ} {a' : Archive τ} {d : ByteArray} {e : Entry}

theorem agrees_ofReader {reader : Reader σ} {reader' : Reader τ} (h : reader.Gives d) (h' : reader'.Gives d)
    (hsize : reader.size = reader'.size) (s : σ) (t : τ) :
    (ofReader reader s).1.map Archive.entries = (ofReader reader' t).1.map Archive.entries := by
  have hagrees := agrees_readDirectory h h' hsize s t
  cases hread : readDirectory reader s with
  | mk result s' =>
      cases hread' : readDirectory reader' t with
      | mk result' t' =>
          rw [hread, hread'] at hagrees
          obtain rfl : result = result' := hagrees
          rw [ofReader_of_readDirectory hread, ofReader_of_readDirectory hread']
          cases result <;> rfl

theorem agrees_readContent {α : Type} {c : Content} {p : Action IoError (Content × σ) α}
    {q : Action IoError (Content × τ) α} (h : ∀ s t, (p (c, s)).1 = (q (c, t)).1) :
    Action.Agrees (readContent c p) (readContent c q) := by
  intro s t
  exact congrArg (Except.mapError Error.io) (h s t)

/-! ### What is not compressed -/

section Stored

variable (h : a.reader.Gives d) (h' : a'.reader.Gives d) (hm : e.method ≠ .deflate)

include h h' hm

theorem agrees_readEntry : Action.Agrees (a.readEntry e) (a'.readEntry e) := by
  rw [readEntry_eq_bind, readEntry_eq_bind]
  refine (agrees_content_of_gives h h' e).bind_of fun c s s' hc => ?_
  obtain ⟨-, rfl⟩ := content_of_gives h hc
  refine (agrees_readContent fun s t => ?_).bind fun b => (Action.matches_ofExcept _).agrees
  obtain ⟨s', hs⟩ := (Content.pours_stream (carries_dataOf h e) hm).readToEnd _ _
    (Content.hands_ofEntry e (dataStart d e) (dataOf d e) s)
  obtain ⟨t', ht⟩ := (Content.pours_stream (carries_dataOf h' e) hm).readToEnd _ _
    (Content.hands_ofEntry e (dataStart d e) (dataOf d e) t)
  rw [hs, ht]

theorem agrees_sniff : Action.Agrees (a.sniff e) (a'.sniff e) := by
  unfold sniff
  refine (agrees_content_of_gives h h' e).bind_of fun c s s' hc => agrees_readContent fun s t => ?_
  obtain ⟨-, rfl⟩ := content_of_gives h hc
  obtain ⟨s', hs⟩ := (Content.pours_stream (carries_dataOf h e) hm).fill Dex.sniffLength
    (Content.hands_ofEntry e (dataStart d e) (dataOf d e) s)
  obtain ⟨t', ht⟩ := (Content.pours_stream (carries_dataOf h' e) hm).fill Dex.sniffLength
    (Content.hands_ofEntry e (dataStart d e) (dataOf d e) t)
  rw [Dex.sniff_of_fill hs, Dex.sniff_of_fill ht]

end Stored

/-! ### What is compressed -/

/-- Where a content could be read and was not cut at its end, its bytes were all that is needed. -/
theorem isSound_of_readToEnd_ok {reader : Reader σ} (h : reader.Gives d) (hm : e.method = .deflate)
    (hcut : ¬ IsCutAtEnd d e) {length limit : Nat} {s : σ} {t : Content × σ} {b : ByteArray}
    (hlt : b.size < limit)
    (hread : (Content.stream reader).readToEnd length limit (.ofEntry e (dataStart d e), s) = (.ok b, t)) :
    Content.IsSound e.method (dataOf d e) (.ofLength (dataStart d e) e.compressedSize.toNat) ∧
      e.method.IsWhole (dataOf d e) b := by
  have hcarries := carries_dataOf h e
  have hwhole := ((Content.isPart_of_readToEnd hcarries hread).2 hlt).isWhole
  have hcompletes : Deflate.Completes (dataOf d e) := by
    rw [hm] at hwhole
    exact ⟨b, hwhole⟩
  refine ⟨⟨?_, fun _ => hcompletes⟩, hwhole⟩
  rcases Nat.lt_or_eq_of_le hcarries.size_le with hshort | hall
  · by_cases hover : Deflate.LeavesOver (dataOf d e)
    · exact .inr ⟨hm, hover⟩
    · exact absurd ⟨isCutOff_of_size_lt hshort, hcompletes, hover⟩ hcut
  · exact .inl hall

theorem readEntry_of_isSound (h : a.reader.Gives d) {s s' : σ}
    (hcontent : a.content e s = (.ok (.ofEntry e (dataStart d e)), s'))
    (hsound : Content.IsSound e.method (dataOf d e) (.ofLength (dataStart d e) e.compressedSize.toNat))
    {b : ByteArray} (hwhole : e.method.IsWhole (dataOf d e) b) (hsize : b.size = e.uncompressedSize.toNat)
    (hcrc : crc32 b = e.crc) : (a.readEntry e s).1 = .ok b := by
  have hmax : b.size ≤ addressMax := by
    rw [hsize]
    exact Nat.le_sub_one_of_lt e.uncompressedSize.toNat_lt
  obtain ⟨t, hread⟩ := Content.readToEnd_of_isSound (carries_dataOf h e) hsound hwhole hmax s'
  rw [hsize] at hread
  rw [readEntry_of_readToEnd_ok hcontent hread hsize hcrc]

theorem sniff_of_isSound (h : a.reader.Gives d) {s s' : σ}
    (hcontent : a.content e s = (.ok (.ofEntry e (dataStart d e)), s'))
    (hsound : Content.IsSound e.method (dataOf d e) (.ofLength (dataStart d e) e.compressedSize.toNat))
    {b : ByteArray} (hwhole : e.method.IsWhole (dataOf d e) b) : (a.sniff e s).1 = .ok (Dex.verify b) := by
  obtain ⟨t, hsniff⟩ := Content.sniff_of_isSound (carries_dataOf h e) hsound hwhole s'
  rw [sniff_of_content_ok hcontent, readContent_ok hsniff]

/-- The content is opened by another reader as well. -/
theorem exists_content_eq (h : a.reader.Gives d) (h' : a'.reader.Gives d) {c : Content} {s s' : σ}
    (hcontent : a.content e s = (.ok c, s')) (t : τ) : ∃ t', a'.content e t = (.ok c, t') := by
  have hagrees := agrees_content_of_gives h' h e t s
  rw [hcontent] at hagrees
  exact ⟨_, Prod.ext hagrees rfl⟩

/-- A content that was read, and was not cut at its end, is read by another reader as well. -/
theorem readEntry_of_readEntry_ok (h : a.reader.Gives d) (h' : a'.reader.Gives d) (hm : e.method = .deflate)
    (hcut : ¬ IsCutAtEnd d e) {s : σ} {b : ByteArray} (hmax : b.size < addressMax)
    (hread : (a.readEntry e s).1 = .ok b) (t : τ) :
    (a'.readEntry e t).1 = .ok b ∧ (a'.sniff e t).1 = .ok (Dex.verify b) := by
  obtain ⟨s', u, hcontent, htoEnd, hsize, hcrc⟩ := exists_of_readEntry_ok h hread
  obtain ⟨hsound, hwhole⟩ := isSound_of_readToEnd_ok h hm hcut (by omega) htoEnd
  obtain ⟨t', hcontent'⟩ := exists_content_eq h h' hcontent t
  exact ⟨readEntry_of_isSound h' hcontent' hsound hwhole hsize hcrc,
    sniff_of_isSound h' hcontent' hsound hwhole⟩

/-- Of the same data two readers never read different contents. -/
theorem readEntry_ok_eq {d' : ByteArray} (h : a.reader.Gives d) (h' : a'.reader.Gives d')
    (hdata : dataOf d e = dataOf d' e) {s : σ} {t : τ} {b b' : ByteArray}
    (hread : (a.readEntry e s).1 = .ok b) (hread' : (a'.readEntry e t).1 = .ok b') : b = b' := by
  obtain ⟨s', u, -, htoEnd, hsize, -⟩ := exists_of_readEntry_ok h hread
  obtain ⟨t', v, -, htoEnd', hsize', -⟩ := exists_of_readEntry_ok h' hread'
  have hpart := (Content.isPart_of_readToEnd (carries_dataOf h e) htoEnd).1
  have hpart' := (Content.isPart_of_readToEnd (carries_dataOf h' e) htoEnd').1
  rw [← hdata] at hpart'
  rw [hpart.eq_slice hpart' (by omega), show b.size = b'.size by omega, slice_of_size_le (Nat.le_refl _)]

/-- Nor do they come to different verdicts. -/
theorem sniff_ok_eq {d' : ByteArray} (h : a.reader.Gives d) (h' : a'.reader.Gives d')
    (hdata : dataOf d e = dataOf d' e) {s : σ} {t : τ} {v v' : Except Dex.HeaderError UInt32}
    (hsniff : (a.sniff e s).1 = .ok v) (hsniff' : (a'.sniff e t).1 = .ok v') : v = v' := by
  obtain ⟨p, hp, rfl⟩ := begins_of_sniff_ok h hsniff
  obtain ⟨q, hq, rfl⟩ := begins_of_sniff_ok h' hsniff'
  have hpart := hq.isPart
  have hwhole := hq.isWhole
  rw [← hdata] at hpart hwhole
  exact hp.isPart.verify_eq hpart hp.size_le hp.isWhole hwhole

/-! ### All of an archive -/

/-- It does not show in what is read of an entry of `d` which of the two archives it is read from. -/
structure ReadsAlike (d : ByteArray) (a : Archive σ) (a' : Archive τ) (e : Entry) : Prop where
  content : Action.Agrees (a.content e) (a'.content e)
  readEntry : e.method ≠ .deflate → Action.Agrees (a.readEntry e) (a'.readEntry e)
  sniff : e.method ≠ .deflate → Action.Agrees (a.sniff e) (a'.sniff e)
  readEntry_ok_iff : e.method = .deflate → ¬ IsCutAtEnd d e → ∀ b, b.size < addressMax → ∀ s t,
    (a.readEntry e s).1 = .ok b ↔ (a'.readEntry e t).1 = .ok b
  sniff_of_readEntry_ok : e.method = .deflate → ¬ IsCutAtEnd d e → ∀ b, b.size < addressMax → ∀ s,
    (a.readEntry e s).1 = .ok b → ∀ s' t',
      (a.sniff e s').1 = .ok (Dex.verify b) ∧ (a'.sniff e t').1 = .ok (Dex.verify b)
  eq_of_readEntry_ok : ∀ s t b b', (a.readEntry e s).1 = .ok b → (a'.readEntry e t).1 = .ok b' → b = b'
  eq_of_sniff_ok : ∀ s t v v', (a.sniff e s).1 = .ok v → (a'.sniff e t).1 = .ok v' → v = v'

theorem reads_alike (h : a.reader.Gives d) (h' : a'.reader.Gives d) (e : Entry) : ReadsAlike d a a' e where
  content := agrees_content_of_gives h h' e
  readEntry := agrees_readEntry h h'
  sniff := agrees_sniff h h'
  readEntry_ok_iff hm hcut _ hmax s t :=
    ⟨fun hread => (readEntry_of_readEntry_ok h h' hm hcut hmax hread t).1,
      fun hread => (readEntry_of_readEntry_ok h' h hm hcut hmax hread s).1⟩
  sniff_of_readEntry_ok hm hcut _ hmax _ hread s' t' :=
    ⟨(readEntry_of_readEntry_ok h h hm hcut hmax hread s').2,
      (readEntry_of_readEntry_ok h h' hm hcut hmax hread t').2⟩
  eq_of_readEntry_ok _ _ _ _ := readEntry_ok_eq h h' rfl
  eq_of_sniff_ok _ _ _ _ := sniff_ok_eq h h' rfl

/-- Readers that give the same bytes and report the same length lead to the same entries or the same
failure, and what is read of an entry does not depend on the pieces that its bytes came in. -/
theorem readsAlike_of_gives (h : a.reader.Gives d) (h' : a'.reader.Gives d)
    (hsize : a.reader.size = a'.reader.size) :
    (∀ s t, (ofReader a.reader s).1.map Archive.entries = (ofReader a'.reader t).1.map Archive.entries) ∧
      ∀ e, ReadsAlike d a a' e :=
  ⟨agrees_ofReader h h' hsize, reads_alike h h'⟩

/-! ### In portions and at once -/

section Letter

variable {reader : Reader Unit} {mark : UInt8}

/-- What comes at once ends with the archive, and the end of the content is not found. -/
theorem readEntry_letter_atOnce (h : reader.Holds (letterAnnex.bytes mark))
    (hatOnce : ∀ offset length, length ≤ 12 →
      reader.readAt offset length () = (.ok (slice (letterAnnex.bytes mark) offset length), ())) :
    (letterAnnex.archive reader).readEntry (letterEntry 12) () = (.error (.io (.truncatedEntry 116)), ()) := by
  have hfirst : reader.readAt 105 12 () = (.ok letterData, ()) := by
    rw [hatOnce 105 12 (by decide), slice_letterAnnex mark 0 12]
    rfl
  have hsecond : reader.readAt 116 1 () = (.ok .empty, ()) := by
    rw [hatOnce 116 1 (by decide), slice_letterAnnex mark 11 1]
    rfl
  obtain ⟨s, hcontent⟩ := content_letterEntry h 12 ()
  exact readEntry_letter_of_atOnce hfirst hsecond hcontent

/-- What comes first is a block, and what comes then ends the content. -/
theorem readEntry_letter_portions (mark : UInt8) :
    (letterAnnex.archive (portionReader Unit 6 (letterAnnex.bytes mark))).readEntry (letterEntry 12) () =
      (.ok letter, ()) := by
  have hserves := Reader.serves_portionReader Unit (show 0 < 6 by decide) (letterAnnex.bytes mark)
  have hfirst : (portionReader Unit 6 (letterAnnex.bytes mark)).readAt 105 12 () =
      (.ok (slice letterData 0 6), ()) := congrArg (fun b => (Except.ok b, ())) (slice_letterAnnex mark 0 6)
  have hsecond : (portionReader Unit 6 (letterAnnex.bytes mark)).readAt 111 6 () =
      (.ok (slice letterData 6 5), ()) := congrArg (fun b => (Except.ok b, ())) (slice_letterAnnex mark 6 6)
  obtain ⟨s, hcontent⟩ := content_letterEntry hserves.holds 12 ()
  exact readEntry_letter_of_portions hfirst hsecond hcontent

/-- Two readers of the archive of the letter: its bytes in memory, at once and in portions. -/
def promptReader : Reader Unit := memoryReader Unit (letterAnnex.bytes 0)

def sluggishReader : Reader Unit := portionReader Unit 6 (letterAnnex.bytes 0)

theorem serves_promptReader : promptReader.Serves (letterAnnex.bytes 0) := Reader.serves_memoryReader Unit _

theorem serves_sluggishReader : sluggishReader.Serves (letterAnnex.bytes 0) :=
  Reader.serves_portionReader Unit (by decide) _

/-- The archive is opened by both. The letter is read if it comes in portions, and not if it comes at once. -/
theorem readEntry_letterEntry :
    promptReader.Gives (letterAnnex.bytes 0) ∧ sluggishReader.Gives (letterAnnex.bytes 0) ∧
      promptReader.size = sluggishReader.size ∧ (letterEntry 12).method = .deflate ∧
      ofReader promptReader () = (.ok (letterAnnex.archive promptReader), ()) ∧
      ofReader sluggishReader () = (.ok (letterAnnex.archive sluggishReader), ()) ∧
      (letterAnnex.archive promptReader).entries = [letterEntry 12] ∧
      ((letterAnnex.archive promptReader).readEntry (letterEntry 12) ()).1 = .error (.io (.truncatedEntry 116)) ∧
      ((letterAnnex.archive sluggishReader).readEntry (letterEntry 12) ()).1 = .ok letter := by
  obtain ⟨s, hopen⟩ := letterAnnex.ofReader_eq 0 serves_promptReader.holds ()
  obtain ⟨s', hopen'⟩ := letterAnnex.ofReader_eq 0 serves_sluggishReader.holds ()
  refine ⟨serves_promptReader.gives, serves_sluggishReader.gives, rfl, rfl, hopen, hopen', rfl, ?_, ?_⟩
  · exact congrArg Prod.fst (readEntry_letter_atOnce serves_promptReader.holds fun _ _ _ => rfl)
  · exact congrArg Prod.fst (readEntry_letter_portions 0)

theorem hasEntry_letterEntry : HasEntry (letterAnnex.bytes 0) (letterEntry 11) letterData letter :=
  Annex.hasEntry (a := letterAnnex) (e := letterEntry 11) rfl (by decide) size_letterData.symm
    ⟨_, leads_letterData, rfl, rfl⟩ size_letter.symm rfl

/-- An entry that is there as a whole is read in portions as it is at once. -/
theorem readsAlike_of_gives_letter :
    promptReader.Gives (letterAnnex.bytes 0) ∧ sluggishReader.Gives (letterAnnex.bytes 0) ∧
      promptReader.size = sluggishReader.size ∧ ¬ IsCutAtEnd (letterAnnex.bytes 0) (letterEntry 11) ∧
      ((letterAnnex.archive sluggishReader).readEntry (letterEntry 11) ()).1 = .ok letter ∧
      ((letterAnnex.archive sluggishReader).sniff (letterEntry 11) ()).1 = .ok (.error .tooShort) := by
  have hgives : (letterAnnex.archive promptReader).reader.Gives (letterAnnex.bytes 0) := serves_promptReader.gives
  have hgives' : (letterAnnex.archive sluggishReader).reader.Gives (letterAnnex.bytes 0) := serves_sluggishReader.gives
  have halike := (readsAlike_of_gives hgives hgives' rfl).2 (letterEntry 11)
  have hcut : ¬ IsCutAtEnd (letterAnnex.bytes 0) (letterEntry 11) := by
    rintro ⟨hcut, -⟩
    rw [isCutOff_bytes_iff letterAnnex 0 (e := letterEntry 11) rfl] at hcut
    exact Nat.ne_of_lt hcut size_letterData
  have hmax : letter.size < addressMax := size_letter ▸ by decide
  obtain ⟨s, hread⟩ := hasEntry_letterEntry.readEntry (a := letterAnnex.archive promptReader)
    (letterAnnex.layout 0).size_le serves_promptReader.holds ()
  have hok := congrArg Prod.fst hread
  exact ⟨hgives, hgives', rfl, hcut, (halike.readEntry_ok_iff rfl hcut letter hmax () ()).1 hok,
    (halike.sniff_of_readEntry_ok rfl hcut letter hmax () hok () ()).2⟩

end Letter

end Zip.Archive

end DexArchive
