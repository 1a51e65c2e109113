import DexArchive.Proofs.Deflate.Steady
import DexArchive.Proofs.Dex.Sniff
import DexArchive.Proofs.Zip.Annex

/-! Sniffing agrees with loading. The verdict on the start of an entry's content is the verdict on the whole
of it; and where the whole content can be read, so can its start. A start that is all there is read whatever
pieces it comes in. Where the content is shorter, the end of it has to be seen as well. Only in an archive
that is cut off with the last byte of a compressed content can this fail, after all, for a reader that does
not split alike each time. -/

namespace DexArchive

/-- Bytes in memory that are handed over in portions for so many reads, and at once from then on. -/
def hasteningReader (portion : Nat) (data : ByteArray) : Reader Nat where
  size := data.size
  readAt offset length n := (.ok (slice data offset (if n = 0 then length else min portion length)), n - 1)
  interruptions _ := 0
  size_readAt_le offset length n b h := by
    cases h
    refine Nat.le_trans (size_slice_le data offset _) ?_
    split
    · exact Nat.le_refl length
    · exact Nat.min_le_right portion length
  interruptions_readAt _ _ _ := Nat.le_refl 0

theorem Reader.serves_hasteningReader {portion : Nat} (h : 0 < portion) (d : ByteArray) :
    (hasteningReader portion d).Serves d where
  size_eq := rfl
  answers offset length n := by
    refine ⟨slice d offset (if n = 0 then length else min portion length), n - 1, rfl, ?_⟩
    by_cases hn : n = 0
    · rw [if_pos hn]
      exact isPiece_slice d offset length
    · rw [if_neg hn]
      exact isPiece_slice_min h d offset length

namespace Zip

namespace Content

open Deflate Inflating

variable {σ : Type} {reader : Reader σ} {w : ByteArray} {r : Range}

theorem read_stream_deflate {length : Nat} {z z' : Inflating} {s s' : σ} {result : Except IoError ByteArray}
    (h : Inflating.read reader length (z, s) = (result, z', s')) :
    (stream reader).read length (.deflate z, s) = (result, .deflate z', s') := by
  rw [show (stream reader).read = read reader from rfl]
  simp only [read, h]

theorem exists_of_read_stream {length : Nat} {z : Inflating} {s : σ} {b : ByteArray} {t : Content × σ}
    (h : (stream reader).read length (.deflate z, s) = (.ok b, t)) :
    ∃ z' s', Inflating.read reader length (z, s) = (.ok b, z', s') ∧ t = (.deflate z', s') := by
  cases hread : Inflating.read reader length (z, s) with
  | mk result t' =>
      rw [read_stream_deflate hread] at h
      cases h
      exact ⟨t'.1, t'.2, rfl, rfl⟩

theorem drained_of_ready {z : Inflating} (hle : z.delivered ≤ z.inflater.output.size) (h : z.ready = 0) :
    z.drained = z := by
  unfold ready at h
  rw [drained, withDelivered, show z.inflater.output.size = z.delivered by omega]

/-- A reading of the whole output shows that the decompression goes on without failing. -/
theorem drains_of_readRest (h : Range.Carries reader w r) {limit : Nat} {g : Stream.Growth}
    {got b : ByteArray} {z : Inflating} {s : σ} {t' : Content × σ} (hg : 0 < g.most)
    (hgot : Hands .deflate w r got (.deflate z, s)) (hlt : b.size < limit)
    (hread : (stream reader).readRest limit g got (.deflate z, s) = (.ok b, t')) :
    Drains reader z.drained := by
  induction hm : limit - got.size using Nat.strongRecOn generalizing g got z s with
  | ind m ih =>
      have ⟨_, hz, _, hover⟩ := hgot
      have hpos := Stream.Growth.request_pos hg got.size
      have hle := hz.delivered_le
      have hdelivered := hover.1
      unfold Stream.readRest at hread
      generalize hlength : min (g.request got.size) (limit - got.size) = length at hread
      by_cases hdone : length = 0
      · rw [if_pos hdone] at hread
        cases hread
        omega
      · rw [if_neg hdone] at hread
        obtain ⟨c, t, hc, hnext, hcase⟩ :=
          (reveals_stream h).readMore hgot (Nat.pos_of_ne_zero hdone) hread
        obtain ⟨z', s', hc', rfl⟩ := exists_of_read_stream hc
        obtain ⟨k, z₁, s₁, z₂, s₂, hsupply, hfailure, hcases, hsize, rfl⟩ := exists_of_read_ok hc'
        obtain ⟨houtput, hdelivered₁⟩ := supply_frame hsupply
        have hadvances : z₁.ready = 0 → decompress reader length (z₁, s₁) = (.ok (), z₂, s₂) →
            Advances reader z.drained (z₂, s₂) := by
          intro hready hdecompress
          rw [ready, houtput, hdelivered₁] at hready
          rw [drained_of_ready hle hready]
          exact ⟨s, k, z₁, s₁, length, s₁, hsupply, hfailure, hdone, hdecompress⟩
        rcases hcase with ⟨hzero, -⟩ | ⟨hne, hcle, hrest⟩
        · rcases hcases with ⟨hready, rfl⟩ | ⟨hready, hdecompress⟩
          · omega
          · exact .last (hadvances hready hdecompress) (by simp only; omega)
        · have happend := ByteArray.size_append (a := got) (b := c)
          have hdrains : Drains reader (z₂.withDelivered (z₂.delivered + c.size)).drained :=
            ih (limit - (got ++ c).size) (by omega) (Stream.Growth.most_next_pos hg _ _) hnext hrest rfl
          rcases hcases with ⟨-, rfl⟩ | ⟨hready, hdecompress⟩
          · exact Drains.of_supply hsupply hdrains
          · exact .more (hadvances hready hdecompress) hdrains

/-- One read of a start, as long as the decompression advances. `hrest` is for what comes after it. -/
theorem exists_fillFrom_of_advances (h : reader.IsSteady) {n : Nat} (hn : n ≤ window) {z : Inflating}
    {t : Inflating × σ} (hadvances : Advances reader z t) {got : ByteArray} (hgot : z.delivered = got.size)
    (hall : z.inflater.output.size = got.size)
    (hrest : t.1.ready = 0 ∨ ∀ got' s', t.1.inflater.output.size = got'.size →
      ∃ p t', (stream reader).fillFrom n got' (.deflate t.1.drained, s') = (.ok p, t')) (s : σ) :
    ∃ p t', (stream reader).fillFrom n got (.deflate z, s) = (.ok p, t') := by
  unfold Stream.fillFrom
  by_cases hdone : n ≤ got.size
  · rw [if_pos hdone]
    exact ⟨got, _, rfl⟩
  · have hready : z.ready = 0 := by
      unfold ready
      omega
    have hlength : n - got.size ≠ 0 := by omega
    obtain ⟨b, z', s', hread, hsize, hdelivered, hcase⟩ :=
      hadvances.exists_read_eq h hready hlength (by omega) s
    have happend := ByteArray.size_append (a := got) (b := b)
    rw [ready, hdelivered, hgot] at hsize
    rw [if_neg hdone, Action.bind_ok (Stream.readThrough_of_ok (read_stream_deflate hread))]
    by_cases hb : b.size = 0
    · rw [if_pos hb]
      exact ⟨got, _, rfl⟩
    · rw [if_neg hb]
      by_cases henough : n ≤ z'.inflater.output.size
      · rw [Stream.fillFrom, if_pos (by omega)]
        exact ⟨got ++ b, _, rfl⟩
      · obtain rfl := hcase.resolve_right (by omega)
        have hdrained : t.1.withDelivered (t.1.delivered + b.size) = t.1.drained := by
          rw [drained, show t.1.delivered + b.size = t.1.inflater.output.size by omega]
        rw [hdrained]
        rcases hrest with hrest | hrest
        · unfold ready at hrest
          omega
        · exact hrest (got ++ b) s' (by omega)

/-- Where the decompression goes on without failing, the start of its output can be read. -/
theorem exists_fillFrom_of_drains (h : reader.IsSteady) {n : Nat} (hn : n ≤ window) {z : Inflating}
    (hdrains : Drains reader z) {got : ByteArray} (hgot : z.delivered = got.size)
    (hall : z.inflater.output.size = got.size) (s : σ) :
    ∃ p t', (stream reader).fillFrom n got (.deflate z, s) = (.ok p, t') := by
  induction hdrains generalizing got s with
  | last hadvances hready => exact exists_fillFrom_of_advances h hn hadvances hgot hall (.inl hready) s
  | more hadvances hrest ih =>
      refine exists_fillFrom_of_advances h hn hadvances hgot hall (.inr fun got' s' hgot' => ?_) s
      exact ih hgot' hgot' s'

/-- However the reader splits what it hands over, as much of the first window can be read as is put out. -/
theorem exists_fillFrom_of_isOutput (h : Range.Carries reader w r) {n : Nat} (hn : n ≤ window) {b : ByteArray}
    (hb : IsOutput w b) (hle : n ≤ b.size) (hlasts : ¬ FallsShort w n) {z : Inflating} (hz : z.Tracks w r)
    (hfailure : z.failure = none) {got : ByteArray} (hgot : z.HandedOver got) (hready : z.ready = 0) (s : σ) :
    ∃ p t', (stream reader).fillFrom n got (.deflate z, s) = (.ok p, t') := by
  induction hm : n - got.size using Nat.strongRecOn generalizing got z s with
  | ind m ih =>
      unfold Stream.fillFrom
      by_cases hdone : n ≤ got.size
      · rw [if_pos hdone]
        exact ⟨got, _, rfl⟩
      · have hdelivered := hgot.1
        unfold ready at hready
        have hsound : ¬ z.IsAtFault w r (n - got.size) := by
          rintro (hfailed | ⟨-, hlast | hwindow, -⟩ | hshort)
          · exact hfailed hfailure
          · have hsize : b.size ≤ z.inflater.output.size := hb.size_le hz.leads hlast
            omega
          · omega
          · rw [hdelivered, Nat.add_sub_cancel' (by omega)] at hshort
            exact hlasts hshort
        rw [if_neg hdone]
        rcases Inflating.read_cases h (show n - got.size ≠ 0 by omega) hz hgot s with
          ⟨c, z', s', hread, hc⟩ | ⟨e, t', -, -, hfault⟩
        · rw [Action.bind_ok (Stream.readThrough_of_ok (read_stream_deflate hread))]
          by_cases hempty : c.size = 0
          · rw [if_pos hempty]
            exact ⟨got, _, rfl⟩
          · have happend := ByteArray.size_append (a := got) (b := c)
            rw [if_neg hempty]
            by_cases henough : n ≤ (got ++ c).size
            · rw [Stream.fillFrom, if_pos henough]
              exact ⟨got ++ c, _, rfl⟩
            · exact ih (n - (got ++ c).size) (by omega) hc.tracks
                ((hc.failure_eq.resolve_right hsound).trans hfailure) hc.handedOver
                (hc.ready_eq (by omega)) s' rfl
        · exact absurd hfault hsound

/-! ### Both ways of reading -/

section OfEntry

variable {e : Entry} {start : Nat} {s : σ} {t' : Content × σ}

/-- The largest limit is reached only if a range of the largest length is all there. -/
theorem size_eq_of_readToEnd (h : Range.Carries reader w (.ofLength start e.compressedSize.toNat))
    (hm : e.method ≠ .deflate) {length : Nat} {b : ByteArray} (hsize : b.size = length)
    (hread : (stream reader).readToEnd length (min (length + 1) addressMax) (ofEntry e start, s) =
      (.ok b, t')) : w.size = (Range.ofLength start e.compressedSize.toNat).remaining := by
  obtain ⟨hpart, hend⟩ := isPart_of_readToEnd h hread
  by_cases hlt : b.size < min (length + 1) addressMax
  · exact (hend hlt).size_eq hm
  · have hle : b.size ≤ w.size := by
      have hpart : ∃ rest, w = b ++ rest := by
        cases hmethod : e.method with
        | deflate => exact absurd hmethod hm
        | stored | unknown id =>
            rw [hmethod] at hpart
            exact hpart
      obtain ⟨rest, rfl⟩ := hpart
      rw [ByteArray.size_append]
      omega
    have hstop : (Range.ofLength start e.compressedSize.toNat).remaining ≤ addressMax := by
      simp only [Range.remaining, Range.ofLength]
      omega
    have hw := h.size_le
    omega

/-- Where the whole content can be read, so can its start. A compressed content that is shorter than the
start ends before the range does, and whether this is seen can depend on how the reads were split, unless
all of the range is there or some of what is there is not needed. -/
theorem exists_fill_of_readToEnd (h : Range.Carries reader w (.ofLength start e.compressedSize.toNat))
    {length : Nat} {b : ByteArray} (hsize : b.size = length)
    (hsplit : e.method = .deflate → w.size < (Range.ofLength start e.compressedSize.toNat).remaining →
      TakesAll w → b.size < Dex.sniffLength → reader.IsSteady)
    (hread : (stream reader).readToEnd length (min (length + 1) addressMax) (ofEntry e start, s) =
      (.ok b, t')) (s' : σ) :
    ∃ p t, (stream reader).fill Dex.sniffLength (ofEntry e start, s') = (.ok p, t) := by
  have hwindow : Dex.sniffLength ≤ window := by decide
  have hmax : window < addressMax := by decide
  obtain ⟨hpart, hend⟩ := isPart_of_readToEnd h hread
  by_cases hm : e.method = .deflate
  · rw [hm] at hpart
    have hcontent : ofEntry e start =
        .deflate (.ofRange (.ofLength start e.compressedSize.toNat)) := by rw [ofEntry, hm]
    by_cases hshort : b.size < Dex.sniffLength
    -- The end of the output has to be seen, which may take bytes of the range that are not there.
    · have hlt : b.size < min (length + 1) addressMax := by omega
      have hwhole := (hend hlt).isWhole
      rw [hm] at hwhole
      have hcompletes : Completes w := ⟨b, hwhole⟩
      by_cases henough : w.size = (Range.ofLength start e.compressedSize.toNat).remaining ∨
          e.method = .deflate ∧ LeavesOver w
      · exact Stream.flows_fill (flows_stream h ⟨henough, fun _ => hcompletes⟩) _ (hands_ofEntry e start w s')
      · have hcut := Nat.lt_of_le_of_ne h.size_le fun hall => henough (.inl hall)
        have htakesAll : TakesAll w := ⟨hcompletes, fun hover => henough (.inr ⟨hm, hover⟩)⟩
        have hhands := hands_ofEntry e start w s
        rw [hcontent] at hread hhands ⊢
        rw [hm] at hhands
        have hdrains := drains_of_readRest h (Nat.zero_lt_succ _) hhands hlt hread
        exact exists_fillFrom_of_drains (hsplit hm hcut htakesAll hshort) hwindow hdrains rfl rfl s'
    -- There is output enough, and all of the start comes before anything can fail.
    · have hlasts : ¬ FallsShort w Dex.sniffLength := by
        by_cases hlt : b.size < min (length + 1) addressMax
        · have hwhole := (hend hlt).isWhole
          rw [hm] at hwhole
          exact not_fallsShort_of_completes ⟨b, hwhole⟩ _
        · exact not_fallsShort_of_isOutput hpart (by omega) hwindow
      rw [hcontent]
      exact exists_fillFrom_of_isOutput h hwindow hpart (by omega) hlasts (tracks_ofRange w _) rfl
        ⟨rfl, (slice_zero _ 0).symm⟩ rfl s'
  · have hw := size_eq_of_readToEnd h hm hsize hread
    exact Stream.flows_fill (flows_stream h ⟨.inl hw, fun hdeflate => absurd hdeflate hm⟩) _
      (hands_ofEntry e start w s')

end OfEntry

end Content

namespace Archive

variable {σ : Type} {d : ByteArray}

/-- The archive ends within the data of the entry. -/
def IsCutOff (d : ByteArray) (e : Entry) : Prop := d.size < dataStart d e + e.compressedSize.toNat

theorem isCutOff_of_size_lt {e : Entry}
    (h : (slice d (Range.ofLength (dataStart d e) e.compressedSize.toNat).pos
      (Range.ofLength (dataStart d e) e.compressedSize.toNat).remaining).size <
        (Range.ofLength (dataStart d e) e.compressedSize.toNat).remaining) : IsCutOff d e := by
  rw [size_slice] at h
  simp only [Range.ofLength, Range.remaining] at h
  unfold IsCutOff
  omega

theorem isCutOff_bytes_iff (a : Annex) (mark : UInt8) {e : Entry}
    (he : e.headerOffset = a.record.entry.headerOffset) :
    IsCutOff (a.bytes mark) e ↔ a.data.size < e.compressedSize.toNat := by
  rw [IsCutOff, Annex.dataStart_eq he, a.size_bytes_eq_start]
  omega

/-- The archive ends with the last byte of a compressed content, before the entry is said to end. -/
def IsCutAtEnd (d : ByteArray) (e : Entry) : Prop := IsCutOff d e ∧ Deflate.TakesAll (dataOf d e)

/-- The content of an entry begins with `p`, which is long enough for a verdict. -/
structure Begins (d : ByteArray) (e : Entry) (p : ByteArray) : Prop where
  isPart : e.method.IsPart (dataOf d e) p
  size_le : p.size ≤ Dex.sniffLength
  isWhole : p.size < Dex.sniffLength → e.method.IsWhole (dataOf d e) p

theorem Begins.verify_eq {e : Entry} {p q : ByteArray} (hp : Begins d e p) (hq : Begins d e q) :
    Dex.verify p = Dex.verify q :=
  hp.isPart.verify_eq hq.isPart hp.size_le hp.isWhole hq.isWhole

/-- A verdict is one on the beginning of the content. -/
theorem begins_of_readContent_ok {a : Archive σ} (h : a.reader.Gives d) {e : Entry} {s s' s₁ : σ} {c : Content}
    (hcontent : a.content e s = (.ok c, s')) {verdict : Except Dex.HeaderError UInt32}
    (hsniff : (readContent c (Dex.sniff (Content.stream a.reader)) s₁).1 = .ok verdict) :
    ∃ p, Begins d e p ∧ verdict = Dex.verify p := by
  obtain ⟨-, rfl⟩ := content_of_gives h hcontent
  obtain ⟨t, hrun, -⟩ := exists_of_readContent_ok (Prod.ext hsniff rfl)
  obtain ⟨p, hfill, rfl⟩ := Dex.exists_of_sniff_ok hrun
  obtain ⟨hpart, hle, hwhole⟩ := Content.isPart_of_fill (carries_dataOf h e) hfill
  exact ⟨p, ⟨hpart, hle, hwhole⟩, rfl⟩

theorem begins_of_sniff_ok {a : Archive σ} (h : a.reader.Gives d) {e : Entry} {s : σ}
    {verdict : Except Dex.HeaderError UInt32} (hsniff : (a.sniff e s).1 = .ok verdict) :
    ∃ p, Begins d e p ∧ verdict = Dex.verify p := by
  obtain ⟨c, s', hcontent, hread⟩ := Action.exists_of_bind_eq_ok (Prod.ext hsniff rfl)
  exact begins_of_readContent_ok h hcontent (congrArg Prod.fst hread)

/-- A content that was read was opened and read to its end, and is what the directory says. -/
theorem exists_of_readEntry_ok {a : Archive σ} (h : a.reader.Gives d) {e : Entry} {s : σ} {b : ByteArray}
    (hread : (a.readEntry e s).1 = .ok b) :
    ∃ s' t, a.content e s = (.ok (.ofEntry e (dataStart d e)), s') ∧
      (Content.stream a.reader).readToEnd e.uncompressedSize.toNat
        (min (e.uncompressedSize.toNat + 1) addressMax) (.ofEntry e (dataStart d e), s') = (.ok b, t) ∧
      b.size = e.uncompressedSize.toNat ∧ crc32 b = e.crc := by
  rcases a.readEntry_cases e s with ⟨error, s', -, herror⟩ | ⟨c, s', hcontent, ⟨cause, herror⟩ |
    ⟨b', t, htoEnd, hsize, hcrc, hok⟩⟩
  · rw [herror] at hread
    cases hread
  · rw [herror] at hread
    cases hread
  · rw [hok] at hread
    cases hread
    obtain ⟨-, rfl⟩ := content_of_gives h hcontent
    exact ⟨s', t, hcontent, htoEnd, hsize, hcrc⟩

/-- Where an entry can be loaded, it can be opened and sniffed, and the verdict is that on the whole content,
however the reader splits what it hands over. There is one exception: if an archive is cut off with the last
byte of a compressed content that is shorter than what is sniffed, and the reader does not split alike each
time, sniffing can fail to read. Another verdict is never given. -/
theorem verdict_of_readEntry_ok {a : Archive σ} (h : a.reader.Gives d) {e : Entry} {s : σ} {b : ByteArray}
    (hread : (a.readEntry e s).1 = .ok b) :
    ∃ c, ∀ s', (a.content e s').1 = .ok c ∧
      ((readContent c (Dex.sniff (Content.stream a.reader)) s').1 = .ok (Dex.verify b) ∨
        e.method = .deflate ∧ IsCutAtEnd d e ∧ b.size < Dex.sniffLength ∧ ¬ a.reader.IsSteady ∧
          ∃ cause, (readContent c (Dex.sniff (Content.stream a.reader)) s').1 = .error (.io cause)) := by
  obtain ⟨s₁, t, hcontent, htoEnd, hsize, -⟩ := exists_of_readEntry_ok h hread
  have hcarries := carries_dataOf h e
  obtain ⟨hpart, hend⟩ := Content.isPart_of_readToEnd hcarries htoEnd
  refine ⟨.ofEntry e (dataStart d e), fun s' => ⟨?_, ?_⟩⟩
  · rw [agrees_content_of_gives h h e s' s, hcontent]
  · cases hfill : (Content.stream a.reader).fill Dex.sniffLength (.ofEntry e (dataStart d e), s') with
    | mk result t' =>
        cases result with
        | ok p =>
            obtain ⟨hp, hple, hpwhole⟩ := Content.isPart_of_fill hcarries hfill
            have hverdict : Dex.verify p = Dex.verify b := by
              refine hp.verify_eq hpart hple hpwhole fun hshort => (hend ?_).isWhole
              have hmax : Dex.sniffLength ≤ addressMax := by decide
              omega
            rw [readContent_ok (Dex.sniff_of_fill_ok hfill), hverdict]
            exact .inl rfl
        | error cause =>
            have hsniff := Dex.sniff_of_fill hfill
            rw [readContent_error hsniff]
            -- Were one of the conditions not met, the start could be read.
            refine Classical.byContradiction fun hno => ?_
            obtain ⟨p, t'', hok⟩ := Content.exists_fill_of_readToEnd hcarries hsize
              (fun hm hcut hall hshort => Classical.byContradiction fun hsteady => hno (.inr
                ⟨hm, ⟨isCutOff_of_size_lt hcut, hall⟩, hshort, hsteady, cause, rfl⟩)) htoEnd s'
            rw [hfill] at hok
            cases hok

/-- A local header without name and extra field, and the dex file after it. -/
def shortBytes : ByteArray := pack [(4, localHeaderSignature), (26, 0)] ++ Dex.shortDex

def shortEntry : Entry := ⟨"classes.dex", .stored, 44, 44, crc32 Dex.shortDex, 0, 0⟩

theorem hasEntry_shortEntry : HasEntry shortBytes shortEntry Dex.shortDex Dex.shortDex where
  supported := rfl
  header_le := by decide +kernel
  signature_eq := by decide +kernel
  compressedSize_eq := by decide +kernel
  data_le := by decide +kernel
  data_eq := by decide +kernel
  isWhole := rfl
  size_eq := by decide +kernel
  crc_eq := rfl

theorem verdict_of_readEntry_ok_shortEntry :
    ∃ c, ∀ s', ((⟨memoryReader Unit shortBytes, []⟩ : Archive Unit).content shortEntry s').1 = .ok c ∧
      (readContent c (Dex.sniff (Content.stream (memoryReader Unit shortBytes))) s').1 = .ok (.ok 35) := by
  have hserves := Reader.serves_memoryReader Unit shortBytes
  obtain ⟨s', hread⟩ := hasEntry_shortEntry.readEntry (a := ⟨memoryReader Unit shortBytes, []⟩)
    (by decide +kernel) hserves.holds ()
  obtain ⟨c, hsniff⟩ := verdict_of_readEntry_ok (a := ⟨memoryReader Unit shortBytes, []⟩) hserves.gives
    (congrArg Prod.fst hread)
  refine ⟨c, fun s' => ⟨(hsniff s').1, (hsniff s').2.resolve_right ?_⟩⟩
  rintro ⟨-, -, -, hsteady, -⟩
  exact hsteady (Reader.isSteady_memoryReader Unit shortBytes)

/-! ### A content that is cut at its end -/

section Letter

open Deflate Inflating

def letter : ByteArray := pack [(1, 0x68)]

theorem size_letter : letter.size = 1 := size_pack _

/-- A letter in two stored blocks, the second of which is empty. -/
def letterData : ByteArray :=
  pack [(1, 0), (2, 1), (2, 0xFFFE), (1, 0x68), (1, 1), (2, 0), (2, 0xFFFF)]

theorem size_letterData : letterData.size = 11 := size_pack _

theorem size_slice_letterData (k n : Nat) : (slice letterData k n).size = min n (11 - k) := by
  rw [size_slice, size_letterData]

def letterEntry (compressedSize : UInt64) : Entry :=
  ⟨"letter", .deflate, compressedSize, 1, crc32 letter, 75, 0⟩

/-- The letter as the file of an archive. By the directory its data are one byte longer than they are. -/
def letterAnnex : Annex where
  record := .bare (letterEntry 12) rfl (by decide +kernel) (by decide +kernel)
  data := letterData
  record_lt := by decide +kernel
  comment_lt := by decide +kernel
  headerOffset_eq := by decide +kernel
  isLast := by decide +kernel

theorem start_letterAnnex : letterAnnex.start = 105 := rfl

/-- The inflater with the first block, and with both. -/
def afterFirst : Inflater := ⟨slice letterData 0 6, 48, .header, false, letter, by simp [size_slice_letterData]⟩

def afterBoth : Inflater := ⟨letterData, 88, .ended, true, letter, by simp [size_letterData]⟩

/-- The decompression of the data at some place in them, with nothing gone wrong. -/
def inflatingAt (pos : Nat) (f : Inflater) (unused delivered : Nat) : Inflating :=
  ⟨⟨pos, 117⟩, f, unused, delivered, none⟩

theorem size_letter_lt : letter.size < window := size_letter ▸ by decide

theorem leads_afterFirst : Decoding.Leads afterFirst.input .initial afterFirst.decoding := by
  refine .head (b := ⟨40, .stored 1, false, .empty⟩) rfl ?_
  have hle : 5 + 1 ≤ afterFirst.input.size := Nat.le_of_eq (size_slice_letterData 0 6).symm
  exact Decoding.leads_stored hle Nat.one_pos false .empty

theorem next?_afterFirst : afterFirst.decoding.next? letterData = some afterBoth.decoding := rfl

theorem input_append : afterFirst.input ++ slice letterData 6 5 = letterData := by
  rw [show afterFirst.input = slice letterData 0 6 from rfl, slice_append_slice]
  exact slice_of_size_le (Nat.le_of_eq size_letterData)

theorem leads_letterData : Decoding.Leads letterData .initial afterBoth.decoding := by
  have happend := leads_afterFirst.append (slice letterData 6 5)
  rw [input_append] at happend
  exact happend.tail next?_afterFirst

section Reads

variable {a : Archive σ} {s s' s₁ s₂ : σ}

section AtOnce

variable (h : a.reader.readAt 105 12 s' = (.ok letterData, s₁)) (h' : a.reader.readAt 116 1 s₁ = (.ok .empty, s₂))

include h h'

/-- Both blocks come at once, and the letter is handed over. The next read asks for bytes that are not
there. -/
theorem read_letter_of_atOnce {length : Nat} (hlength : 0 < length) (length' : Nat) :
    ∃ z, read a.reader length (.ofRange ⟨105, 117⟩, s') = (.ok letter, z, s₁) ∧
      read a.reader length' (z, s₁) = (.error (.truncatedEntry 116), z, s₂) := by
  have hsupply : supply a.reader (.ofRange ⟨105, 117⟩, s') =
      (.ok 11, inflatingAt 116 (.feed .initial letterData) 11 0, s₁) :=
    supply_of_readAt_ok (z := .ofRange ⟨105, 117⟩) rfl (by decide) h (by simp [size_letterData])
  have hinflate : (inflatingAt 116 (.feed .initial letterData) 11 0).inflate false (0 + length) =
      (.ended, inflatingAt 116 afterBoth 0 0) :=
    inflate_eq_of_ended (z := inflatingAt 116 (.feed .initial letterData) 11 0) (f := afterBoth)
      ByteArray.empty_append leads_letterData rfl size_letter_lt false _
  have hslice : slice letter 0 length = letter := slice_of_size_le hlength
  refine ⟨inflatingAt 116 afterBoth 0 1, ?_, ?_⟩
  · rw [read_of_inflate hsupply rfl rfl (by decide) hinflate (.inl rfl)]
    simp only [deliver, inflatingAt, afterBoth, hslice]
    rfl
  · rw [Inflating.read]
    exact Action.bind_error (supply_of_readAt_end (z := inflatingAt 116 afterBoth 0 1) rfl (by decide) h' rfl)

theorem readEntry_letter_of_atOnce
    (hcontent : a.content (letterEntry 12) s = (.ok (.deflate (.ofRange ⟨105, 117⟩)), s')) :
    a.readEntry (letterEntry 12) s = (.error (.io (.truncatedEntry 116)), s₂) := by
  obtain ⟨z, hfirst, hsecond⟩ := read_letter_of_atOnce h h' (show 0 < 2 by decide) 1
  have htoEnd : (Content.stream a.reader).readToEnd 1 2 (.deflate (.ofRange ⟨105, 117⟩), s') =
      (.error (.truncatedEntry 116), .deflate z, s₂) := by
    refine (Stream.readRest_of_ok (n := 2) rfl (by decide)
      (Content.read_stream_deflate hfirst) (size_letter ▸ Nat.one_ne_zero)).trans ?_
    exact Stream.readRest_of_error (n := 1) rfl (by decide)
      (Content.read_stream_deflate hsecond) (by decide)
  exact readEntry_of_readToEnd hcontent htoEnd

theorem sniff_letter_of_atOnce :
    readContent (.deflate (.ofRange ⟨105, 117⟩)) (Dex.sniff (Content.stream a.reader)) s' =
      (.error (.io (.truncatedEntry 116)), s₂) := by
  have hempty : ByteArray.empty.size < Dex.sniffLength := by decide
  have hletter : (ByteArray.empty ++ letter).size < Dex.sniffLength := by
    rw [ByteArray.empty_append, size_letter]
    decide
  obtain ⟨z, hfirst, hsecond⟩ := read_letter_of_atOnce h h' (Nat.sub_pos_of_lt hempty)
    (Dex.sniffLength - (ByteArray.empty ++ letter).size)
  have hfill : (Content.stream a.reader).fill Dex.sniffLength (.deflate (.ofRange ⟨105, 117⟩), s') =
      (.error (.truncatedEntry 116), .deflate z, s₂) := by
    refine (Stream.fillFrom_of_ok hempty (Content.read_stream_deflate hfirst) (size_letter ▸ Nat.one_ne_zero)).trans ?_
    exact Stream.fillFrom_of_error hletter (Content.read_stream_deflate hsecond) (by decide)
  exact readContent_error (Dex.sniff_of_fill hfill)

end AtOnce

section Portions

variable (h : a.reader.readAt 105 12 s' = (.ok (slice letterData 0 6), s₁))
  (h' : a.reader.readAt 111 6 s₁ = (.ok (slice letterData 6 5), s₂))

include h h'

/-- The first block comes alone, and the letter is handed over. What comes next ends the content. -/
theorem read_letter_of_portions :
    ∃ z z', read a.reader 2 (.ofRange ⟨105, 117⟩, s') = (.ok letter, z, s₁) ∧
      read a.reader 1 (z, s₁) = (.ok .empty, z', s₂) := by
  have hsupply : supply a.reader (.ofRange ⟨105, 117⟩, s') =
      (.ok 6, inflatingAt 111 (.feed .initial (slice letterData 0 6)) 6 0, s₁) :=
    supply_of_readAt_ok (z := .ofRange ⟨105, 117⟩) rfl (by decide) h (by simp [size_slice_letterData])
  have hmore : afterFirst.decoding.next? (afterFirst.input ++ slice letterData 6 5) ≠ none := by
    rw [input_append, next?_afterFirst]
    exact Option.some_ne_none _
  have hinflate : (inflatingAt 111 (.feed .initial (slice letterData 0 6)) 6 0).inflate false (0 + 2) =
      (.starved, inflatingAt 111 afterFirst 0 0) :=
    inflate_eq_of_starved (z := inflatingAt 111 (.feed .initial (slice letterData 0 6)) 6 0) (f := afterFirst)
      ByteArray.empty_append leads_afterFirst rfl hmore size_letter_lt false _
  have hsupply' : supply a.reader (inflatingAt 111 afterFirst 0 1, s₁) =
      (.ok 5, inflatingAt 116 (afterFirst.feed (slice letterData 6 5)) 5 1, s₂) :=
    supply_of_readAt_ok (z := inflatingAt 111 afterFirst 0 1) rfl (by decide) h' (by simp [size_slice_letterData])
  have hinflate' : (inflatingAt 116 (afterFirst.feed (slice letterData 6 5)) 5 1).inflate false (1 + 1) =
      (.ended, inflatingAt 116 afterBoth 0 1) :=
    inflate_eq_of_ended (f := afterBoth) (z := inflatingAt 116 (afterFirst.feed (slice letterData 6 5)) 5 1)
      input_append (.single next?_afterFirst) rfl size_letter_lt false _
  refine ⟨inflatingAt 111 afterFirst 0 1, inflatingAt 116 afterBoth 0 1, ?_, ?_⟩
  · rw [read_of_inflate hsupply rfl rfl (by decide) hinflate (.inr ⟨rfl, by decide⟩)]
    rfl
  · rw [read_of_inflate hsupply' rfl rfl (by decide) hinflate' (.inl rfl)]
    rfl

theorem readEntry_letter_of_portions
    (hcontent : a.content (letterEntry 12) s = (.ok (.deflate (.ofRange ⟨105, 117⟩)), s')) :
    a.readEntry (letterEntry 12) s = (.ok letter, s₂) := by
  obtain ⟨z, z', hfirst, hsecond⟩ := read_letter_of_portions h h'
  have htoEnd : (Content.stream a.reader).readToEnd 1 2 (.deflate (.ofRange ⟨105, 117⟩), s') =
      (.ok letter, .deflate z', s₂) := by
    refine (Stream.readRest_of_ok (n := 2) rfl (by decide)
      (Content.read_stream_deflate hfirst) (size_letter ▸ Nat.one_ne_zero)).trans ?_
    exact Stream.readRest_of_end (n := 1) rfl (by decide)
      (Content.read_stream_deflate hsecond) rfl
  exact readEntry_of_readToEnd_ok hcontent htoEnd rfl rfl

end Portions

end Reads

/-! In the archive of the letter the data begin at 105, and the archive ends at 116. -/

theorem slice_letterAnnex (mark : UInt8) (k n : Nat) :
    slice (letterAnnex.bytes mark) (105 + k) n = slice letterData k n := by
  rw [← start_letterAnnex, letterAnnex.slice_bytes_start]
  rfl

theorem content_letterEntry {mark : UInt8} {reader : Reader σ} (h : reader.Holds (letterAnnex.bytes mark))
    (n : UInt64) (s : σ) : ∃ s', (letterAnnex.archive reader).content (letterEntry n) s =
      (.ok (.deflate (.ofRange (.ofLength 105 n.toNat))), s') := by
  have hsupported : (letterEntry 0).unsupported? = none := by decide
  obtain ⟨s', hcontent⟩ := letterAnnex.content_eq (e := letterEntry n) rfl h hsupported s
  rw [start_letterAnnex] at hcontent
  exact ⟨s', hcontent⟩

/-- The archive of the letter, read by a reader that hastens. -/
def hasteningArchive : Archive Nat := letterAnnex.archive (hasteningReader 6 (letterAnnex.bytes 0))

/-- The letter is read while it comes in portions. Once all comes at once, it can be opened, but not be sniffed
any more. -/
theorem sniff_error_of_readEntry_ok_letter :
    hasteningArchive.reader.Serves (letterAnnex.bytes 0) ∧
      ofReader hasteningArchive.reader 40 = (.ok hasteningArchive, 7) ∧
      hasteningArchive.readEntry (letterEntry 12) 7 = (.ok letter, 0) ∧
      hasteningArchive.content (letterEntry 12) 0 = (.ok (.deflate (.ofRange ⟨105, 117⟩)), 0) ∧
      readContent (.deflate (.ofRange ⟨105, 117⟩)) (Dex.sniff (Content.stream hasteningArchive.reader)) 0 =
        (.error (.io (.truncatedEntry 116)), 0) := by
  have hserves : hasteningArchive.reader.Serves (letterAnnex.bytes 0) :=
    Reader.serves_hasteningReader (by decide) _
  have hopen : ofReader hasteningArchive.reader 40 = (.ok hasteningArchive, 7) := by
    obtain ⟨s, hs⟩ := letterAnnex.ofReader_eq 0 hserves.holds 40
    have hstate : (ofReader hasteningArchive.reader 40).2 = 7 := by decide +kernel
    rw [hs] at hstate
    rw [hs, ← hstate]
    rfl
  have hcontent : ∀ n : Nat, (hasteningArchive.content (letterEntry 12) n).1 =
      .ok (.deflate (.ofRange ⟨105, 117⟩)) := by
    intro n
    obtain ⟨s, hs⟩ := content_letterEntry hserves.holds 12 n
    exact congrArg Prod.fst hs
  have hportions : hasteningArchive.content (letterEntry 12) 7 = (.ok (.deflate (.ofRange ⟨105, 117⟩)), 2) :=
    Prod.ext (hcontent 7) (by decide +kernel)
  have hatOnce : hasteningArchive.content (letterEntry 12) 0 = (.ok (.deflate (.ofRange ⟨105, 117⟩)), 0) :=
    Prod.ext (hcontent 0) (by decide +kernel)
  refine ⟨hserves, hopen, ?_, hatOnce, ?_⟩
  · have hfirst : hasteningArchive.reader.readAt 105 12 2 = (.ok (slice letterData 0 6), 1) :=
      congrArg (fun b => (Except.ok b, 1)) (slice_letterAnnex 0 0 6)
    have hsecond : hasteningArchive.reader.readAt 111 6 1 = (.ok (slice letterData 6 5), 0) :=
      congrArg (fun b => (Except.ok b, 0)) (slice_letterAnnex 0 6 6)
    exact readEntry_letter_of_portions hfirst hsecond hportions
  · have hfirst : hasteningArchive.reader.readAt 105 12 0 = (.ok letterData, 0) :=
      congrArg (fun b => (Except.ok b, 0)) (slice_letterAnnex 0 0 12)
    have hsecond : hasteningArchive.reader.readAt 116 1 0 = (.ok .empty, 0) :=
      congrArg (fun b => (Except.ok b, 0)) (slice_letterAnnex 0 11 1)
    exact sniff_letter_of_atOnce hfirst hsecond

end Letter

end Archive

end Zip

end DexArchive
