import DexArchive.Zip.Content
import DexArchive.Proofs.Deflate.Inflating
import DexArchive.Proofs.Dex.Header
import DexArchive.Proofs.Streaming

/-! The content that bytes are written as. A stream of it hands it over from its start, whatever is asked
for, and so what was read of it by one way of reading agrees with what was read by another. -/

namespace DexArchive.Zip

/-- The content written as `w` begins with `b`, as far as it can be read. -/
def Method.IsPart (m : Method) (w b : ByteArray) : Prop :=
  match m with
  | .deflate => Deflate.IsOutput w b
  | .stored | .unknown _ => ∃ rest, w = b ++ rest

/-- The content written as `w` is `b`. -/
def Method.IsWhole (m : Method) (w b : ByteArray) : Prop :=
  match m with
  | .deflate => Deflate.IsWholeOutput w b
  | .stored | .unknown _ => w = b

namespace Method

variable {m : Method} {w a b : ByteArray}

theorem IsPart.eq_slice (ha : m.IsPart w a) (hb : m.IsPart w b) (h : a.size ≤ b.size) :
    a = slice b 0 a.size := by
  cases m with
  | deflate => exact Deflate.IsOutput.eq_slice ha hb h
  | stored | unknown id =>
      obtain ⟨rest, ha⟩ := ha
      obtain ⟨rest', hb⟩ := hb
      exact eq_slice_of_append_eq (ha.symm.trans hb) h

theorem IsWhole.size_le (ha : m.IsWhole w a) (hb : m.IsPart w b) : b.size ≤ a.size := by
  cases m with
  | deflate => exact Deflate.IsWholeOutput.size_le ha hb
  | stored | unknown id =>
      obtain ⟨rest, hb⟩ := hb
      obtain rfl : w = a := ha
      rw [hb, ByteArray.size_append]
      omega

theorem IsWhole.isPart (ha : m.IsWhole w a) : m.IsPart w a := by
  cases m with
  | deflate => exact Deflate.IsWholeOutput.isOutput ha
  | stored | unknown id => exact ⟨.empty, ha.trans ByteArray.append_empty.symm⟩

theorem IsWhole.eq (ha : m.IsWhole w a) (hb : m.IsWhole w b) : a = b := by
  have hle := ha.size_le hb.isPart
  have hge := hb.size_le ha.isPart
  rw [ha.isPart.eq_slice hb.isPart hge, Nat.le_antisymm hge hle, slice_of_size_le (Nat.le_refl _)]

/-- The verdict on the first bytes of a content, or on all of it if it is shorter, is the verdict on any
part of it that is no shorter. -/
theorem IsPart.verify_eq (ha : m.IsPart w a) (hb : m.IsPart w b) (hle : a.size ≤ Dex.sniffLength)
    (hawhole : a.size < Dex.sniffLength → m.IsWhole w a)
    (hbwhole : b.size < Dex.sniffLength → m.IsWhole w b) : Dex.verify a = Dex.verify b := by
  by_cases hashort : a.size < Dex.sniffLength
  · have hba := (hawhole hashort).size_le hb
    rw [Dex.verify_of_size_lt hashort, Dex.verify_of_size_lt (by omega)]
  · by_cases hbshort : b.size < Dex.sniffLength
    · have hab := (hbwhole hbshort).size_le ha
      omega
    · have hstart := ha.eq_slice hb (by omega)
      rw [show a.size = Dex.sniffLength by omega] at hstart
      rw [hstart, Dex.verify_start (by omega)]

end Method

namespace Content

variable {σ : Type} {reader : Reader σ} {m : Method} {w : ByteArray} {r : Range}

/-- The content written as `w` is `b`, and all of it was there to be read. Where a compressed content
ends is for its bytes to say, not for the range. -/
structure IsEnd (m : Method) (w : ByteArray) (r : Range) (b : ByteArray) : Prop where
  isWhole : m.IsWhole w b
  size_eq : m ≠ .deflate → w.size = r.remaining

/-- What bytes have to be for a content written as them to be read to its end: they are all there, or
some that are there are not needed, and they decompress to the end if they are compressed. -/
structure IsSound (m : Method) (w : ByteArray) (r : Range) : Prop where
  enough : w.size = r.remaining ∨ m = .deflate ∧ Deflate.LeavesOver w
  completes : m = .deflate → Deflate.Completes w

theorem IsSound.not_isAtFault (h : IsSound .deflate w r) {z : Deflate.Inflating} (hz : z.Tracks w r)
    (hfailure : z.failure = none) (length : Nat) : ¬ z.IsAtFault w r length := by
  rintro (hfailed | hcut | hshort)
  · exact hfailed hfailure
  · rcases h.enough with hall | ⟨-, hover⟩
    · exact Nat.ne_of_lt hcut.size_lt hall
    · exact hz.not_isCut_of_leavesOver hover hcut
  · exact Deflate.Inflating.not_fallsShort_of_completes (h.completes rfl) _ hshort

/-- The bytes `got` of the content written as `w`, which the range `r` carries, have been handed over. -/
def Hands (m : Method) (w : ByteArray) (r : Range) (got : ByteArray) : Content × σ → Prop
  | (.stored range, _) =>
    m ≠ .deflate ∧ range = r.drop got.size ∧ got = slice w 0 got.size ∧ got.size ≤ w.size
  | (.deflate z, _) =>
    m = .deflate ∧ z.Tracks w r ∧ (IsSound .deflate w r → z.failure = none) ∧ z.HandedOver got

theorem hands_ofEntry (e : Entry) (start : Nat) (w : ByteArray) (s : σ) :
    Hands e.method w (Range.ofLength start e.compressedSize.toNat) .empty (ofEntry e start, s) := by
  unfold ofEntry
  cases hm : e.method with
  | deflate => exact ⟨rfl, Deflate.Inflating.tracks_ofRange w _, fun _ => rfl, rfl, (slice_zero _ 0).symm⟩
  | stored | unknown id => exact ⟨nofun, rfl, (slice_zero w 0).symm, Nat.zero_le _⟩

theorem Hands.isPart {got : ByteArray} {t : Content × σ} (h : Hands m w r got t) : m.IsPart w got := by
  obtain ⟨c, s⟩ := t
  cases c with
  | deflate z =>
      obtain ⟨rfl, hz, -, hdelivered, hgot⟩ := h
      have hle := hz.delivered_le
      rw [hdelivered] at hle
      exact ⟨z.inflater.decoding, _, hz.leads, (append_slice_of_eq_slice hgot hle).symm⟩
  | stored range =>
      obtain ⟨hm, -, hgot, hle⟩ := h
      have hparts := append_slice_of_eq_slice hgot hle
      cases m with
      | deflate => exact absurd rfl hm
      | stored | unknown id => exact ⟨_, hparts.symm⟩

/-- What is not compressed is handed over as it is. -/
theorem read_stored (h : Range.Carries reader w r) (hm : m ≠ .deflate) {length : Nat} (hlength : 0 < length)
    {got : ByteArray} {t : Content × σ} (hgot : Hands m w r got t) :
    (∃ b t', read reader length t = (.ok b, t') ∧ b.size ≠ 0 ∧ Hands m w r (got ++ b) t') ∨
      got = w ∧ ∃ t', read reader length t = ((Range.ending w r).map fun _ => .empty, t') ∧
        Hands m w r (got ++ .empty) t' := by
  obtain ⟨c, s⟩ := t
  cases c with
  | deflate z => exact absurd hgot.1 hm
  | stored range =>
      obtain ⟨-, rfl, hslice, hle⟩ := hgot
      obtain ⟨result, r', s', hread, houtcome⟩ := Range.outcome_of_carries h hle hlength s
      have hall : got.size = w.size → got = w := by
        intro hk
        rw [hslice, hk, slice_of_size_le (Nat.le_refl _)]
      have hstays : Hands m w r (got ++ .empty) (.stored (r.drop got.size), s') := by
        rw [ByteArray.append_empty]
        exact ⟨hm, rfl, hslice, hle⟩
      cases houtcome with
      | atEnd hk hwhole =>
          refine .inr ⟨hall hk, (.stored (r.drop got.size), s'), ?_, hstays⟩
          simp only [read, hread, Range.ending, if_pos hwhole]
          rfl
      | cutOff hk hcut =>
          refine .inr ⟨hall hk, (.stored (r.drop got.size), s'), ?_, hstays⟩
          rw [Range.ending, if_neg (Nat.ne_of_lt hcut), ← hk]
          simp only [read, hread]
          rfl
      | piece b hb heq hfits =>
          have hsize := ByteArray.size_append (a := got) (b := b)
          refine .inl ⟨b, (.stored (r.drop (got.size + b.size)), s'), by simp only [read, hread], hb, hm,
            by rw [hsize], ?_, by rw [hsize]; exact hfits⟩
          rw [hsize, ← slice_append_slice, ← hslice, Nat.zero_add, ← heq]

/-- A read hands over the next part of the content, and nothing only at the end. If it fails, the bytes
are at fault, not the source. -/
theorem read_cases (h : Range.Carries reader w r) {length : Nat} (hlength : 0 < length) {got : ByteArray}
    {t : Content × σ} (hgot : Hands m w r got t) :
    (∃ b t', read reader length t = (.ok b, t') ∧ Hands m w r (got ++ b) t' ∧
      (b.size = 0 → IsEnd m w r got)) ∨
    ∃ e t', read reader length t = (.error e, t') ∧ ¬ e.IsInterruption ∧ ¬ IsSound m w r := by
  obtain ⟨c, s⟩ := t
  cases c with
  | deflate z =>
      obtain ⟨rfl, hz, hfailure, hover⟩ := hgot
      rcases Deflate.Inflating.read_cases h (Nat.ne_of_gt hlength) hz hover s with
        ⟨b, z', s', hread, hb⟩ | ⟨e, t', hread, hcalm, hfault⟩
      · have hfailure' : IsSound .deflate w r → z'.failure = none := by
          intro hsound
          have hnone := hfailure hsound
          rw [hb.failure_eq.resolve_right (hsound.not_isAtFault hz hnone length), hnone]
        exact .inl ⟨b, (.deflate z', s'), by simp only [read, hread],
          ⟨rfl, hb.tracks, hfailure', hb.handedOver⟩,
          fun hzero => ⟨hb.isWholeOutput hzero, fun hm => absurd rfl hm⟩⟩
      · exact .inr ⟨e, (.deflate t'.1, t'.2), by simp only [read, hread], hcalm,
          fun hsound => hsound.not_isAtFault hz (hfailure hsound) length hfault⟩
  | stored range =>
      have hm : m ≠ .deflate := hgot.1
      rcases read_stored h hm hlength hgot with ⟨b, t', hread, hb, hnext⟩ | ⟨hall, t', hread, hnext⟩
      · exact .inl ⟨b, t', hread, hnext, fun hzero => absurd hzero hb⟩
      · have hwhole : m.IsWhole w got := by
          cases m with
          | deflate => exact absurd rfl hm
          | stored | unknown id => exact hall.symm
        unfold Range.ending at hread
        split at hread
        · rename_i hend
          exact .inl ⟨.empty, t', hread, hnext, fun _ => ⟨hwhole, fun _ => hend⟩⟩
        · rename_i hcut
          refine .inr ⟨_, t', hread, nofun, fun hsound => ?_⟩
          rcases hsound.enough with hall | ⟨hdeflate, -⟩
          · exact hcut hall
          · exact hm hdeflate

theorem reveals_stream (h : Range.Carries reader w r) :
    (stream reader).Reveals (Hands m w r) (IsEnd m w r) where
  of_ok hgot hlength hread := by
    rcases read_cases h hlength hgot with ⟨b, t', hread', hnext, hend⟩ | ⟨e, t', hread', -, -⟩
    · rw [show (stream reader).read = read reader from rfl, hread'] at hread
      cases hread
      exact ⟨hnext, hend⟩
    · rw [show (stream reader).read = read reader from rfl, hread'] at hread
      cases hread
  of_error hgot hlength hread := by
    rcases read_cases h hlength hgot with ⟨b, t', hread', -, -⟩ | ⟨e, t', hread', hcalm, -⟩
    · rw [show (stream reader).read = read reader from rfl, hread'] at hread
      cases hread
    · rw [show (stream reader).read = read reader from rfl, hread'] at hread
      cases hread
      exact hcalm

theorem pours_stream (h : Range.Carries reader w r) (hm : m ≠ .deflate) :
    (stream reader).Pours (Hands m w r) w (Range.ending w r) where
  isStart {got t} hgot := by
    obtain ⟨c, s⟩ := t
    cases c with
    | deflate z => exact absurd hgot.1 hm
    | stored range => exact hgot.2.2
  read hgot hlength := by
    rcases read_stored h hm hlength hgot with hpiece | ⟨hall, t', hread, -⟩
    · exact .inl hpiece
    · exact .inr ⟨hall, t', hread⟩
  calm e hending := by
    unfold Range.ending at hending
    split at hending
    · cases hending
    · cases hending
      exact nofun

theorem flows_stream (h : Range.Carries reader w r) (hsound : IsSound m w r) :
    (stream reader).Flows (Hands m w r) := by
  intro got t length hgot hlength
  rcases read_cases h hlength hgot with ⟨b, t', hread, hnext, -⟩ | ⟨e, t', -, -, hunsound⟩
  · exact ⟨b, t', hread, hnext⟩
  · exact absurd hsound hunsound

end Content

end DexArchive.Zip
