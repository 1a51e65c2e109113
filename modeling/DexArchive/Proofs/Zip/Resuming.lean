import DexArchive.Source.Faulty
import DexArchive.Zip.Archive
import DexArchive.Proofs.Range
import DexArchive.Proofs.Reads

/-! Streams of what is not compressed, over a source that hands over pieces as it likes and fails when it likes. What
was handed over so far is always a start of the range that is read, and what is left is the rest of it: a read that
fails takes nothing out, so it does not matter at which reads the source failed. The end of the range is told apart
from the end of the source. -/

namespace DexArchive

namespace Range

variable {σ : Type} {reader : Reader σ} {d : ByteArray} {r : Range} {length k : Nat} {s : σ}

theorem drop_drop (r : Range) (k n : Nat) : (r.drop k).drop n = r.drop (k + n) := by
  rw [drop, drop, drop, Nat.add_assoc]

theorem remaining_drop (r : Range) (k : Nat) : (r.drop k).remaining = r.remaining - k :=
  Nat.sub_add_eq r.stop r.pos k

/-- What a read of a range comes to: there is nothing to read, the source fails or has no byte there, or it hands over
bytes. -/
inductive Step (reader : Reader σ) (d : ByteArray) (length : Nat) (r : Range) (s : σ) :
    Except IoError ByteArray → Range → σ → Prop
  | nothing (hnone : length = 0 ∨ r.remaining = 0) : Step reader d length r s (.ok .empty) r s
  | fails {f : Failure} {s' : σ} (hwanted : 0 < min length r.remaining)
    (hread : reader.readAt r.pos (min length r.remaining) s = (.error f, s')) :
    Step reader d length r s (.error f.toIoError) r s'
  | cutOff {s' : σ} (hwanted : 0 < min length r.remaining)
    (hread : reader.readAt r.pos (min length r.remaining) s = (.ok .empty, s')) (hend : d.size ≤ r.pos) :
    Step reader d length r s (.error (.truncatedEntry r.pos)) r s'
  | piece {b : ByteArray} {s' : σ} (hread : reader.readAt r.pos (min length r.remaining) s = (.ok b, s'))
    (hb : b.size ≠ 0) (heq : b = slice d r.pos b.size) (hle : b.size ≤ r.remaining)
    (hend : r.pos + b.size ≤ d.size) : Step reader d length r s (.ok b) (r.drop b.size) s'

theorem step_read (h : reader.IsTruthful d) (length : Nat) (r : Range) (s : σ) :
    Step reader d length r s (read reader length (r, s)).1 (read reader length (r, s)).2.1
      (read reader length (r, s)).2.2 := by
  unfold read
  dsimp only
  by_cases hnone : min length r.remaining = 0
  · rw [if_pos hnone]
    exact .nothing (by omega)
  · rw [if_neg hnone]
    cases hread : reader.readAt r.pos (min length r.remaining) s with
    | mk result s' =>
        cases result with
        | error f => exact .fails (Nat.pos_of_ne_zero hnone) hread
        | ok b =>
            have hpiece := h _ _ _ _ _ hread
            dsimp only
            by_cases hb : b.size = 0
            · rw [if_pos hb]
              have hend := (hpiece.stops hb).resolve_left hnone
              rw [ByteArray.size_eq_zero_iff.1 hb] at hread
              exact .cutOff (Nat.pos_of_ne_zero hnone) hread hend
            · rw [if_neg hb]
              have hsize := hpiece.size_le
              exact .piece hread hb hpiece.eq_slice (by omega) (hpiece.add_size_le hb)

namespace Step

variable {now : Range} {s' : σ} {result : Except IoError ByteArray}

theorem of_ok {b : ByteArray} (h : Step reader d length r s (.ok b) now s') :
    b = slice d r.pos b.size ∧ now = r.drop b.size := by
  cases h with
  | nothing hnone => exact ⟨(slice_zero d r.pos).symm, rfl⟩
  | piece hread hb heq hle hend => exact ⟨heq, rfl⟩

theorem of_error {e : IoError} (h : Step reader d length r s (.error e) now s') : now = r := by
  cases h with
  | fails hwanted hread => rfl
  | cutOff hwanted hread hend => rfl

/-- Nothing is the end of the range. -/
theorem eq_empty_iff (h : Step reader d length r s result now s') (hlength : 0 < length) :
    result = .ok .empty ↔ r.remaining = 0 := by
  cases h with
  | nothing hnone => exact iff_of_true rfl (by omega)
  | fails hwanted hread => exact iff_of_false nofun (by omega)
  | cutOff hwanted hread hend => exact iff_of_false nofun (by omega)
  | piece hread hb heq hle hend =>
      refine iff_of_false (fun hempty => ?_) (by omega)
      exact hb (congrArg ByteArray.size (Except.ok.inj hempty))

/-- Where the source does not fail, its end is reported if it is before that of the range. -/
theorem eq_truncated_iff (h : Step reader d length r s result now s') (hlength : 0 < length)
    (hcalm : ∀ f, (reader.readAt r.pos (min length r.remaining) s).1 ≠ .error f) :
    result = .error (.truncatedEntry r.pos) ↔ 0 < r.remaining ∧ d.size ≤ r.pos := by
  cases h with
  | nothing hnone => exact iff_of_false nofun (by omega)
  | fails hwanted hread => exact absurd (congrArg Prod.fst hread) (hcalm _)
  | cutOff hwanted hread hend => exact iff_of_true rfl ⟨by omega, hend⟩
  | piece hread hb heq hle hend => exact iff_of_false nofun (by omega)

/-- Where it fails, that is what is reported. -/
theorem eq_error (h : Step reader d length r s result now s') (hlength : 0 < length) (hrest : 0 < r.remaining)
    {f : Failure} (hf : (reader.readAt r.pos (min length r.remaining) s).1 = .error f) :
    result = .error f.toIoError := by
  cases h with
  | nothing hnone => omega
  | fails hwanted hread =>
      rw [hread] at hf
      cases hf
      rfl
  | cutOff hwanted hread hend =>
      rw [hread] at hf
      cases hf
  | piece hread hb heq hle hend =>
      rw [hread] at hf
      cases hf

end Step

/-- The bytes `got` are the first ones of the range, they are there, and `now` is what comes after them. -/
structure HandsOver (d : ByteArray) (r : Range) (got : ByteArray) (now : Range) : Prop where
  now_eq : now = r.drop got.size
  got_eq : got = slice d r.pos got.size
  le_remaining : got.size ≤ r.remaining
  le_size : 0 < got.size → r.pos + got.size ≤ d.size

theorem handsOver_empty (d : ByteArray) (r : Range) : HandsOver d r .empty r where
  now_eq := rfl
  got_eq := (slice_zero d r.pos).symm
  le_remaining := Nat.zero_le _
  le_size := nofun

/-- A read adds to what was handed over, or leaves all as it was. -/
theorem HandsOver.step {got : ByteArray} {now now' : Range} {result : Except IoError ByteArray} {s' : σ}
    (h : HandsOver d r got now) (hstep : Step reader d length now s result now' s') :
    HandsOver d r (got ++ Stream.Exchange.bytes ⟨length, result⟩) now' := by
  obtain ⟨rfl, hgot, hremaining, hsize⟩ := h
  have hstays : HandsOver d r (got ++ .empty) (r.drop got.size) := by
    rw [ByteArray.append_empty]
    exact ⟨rfl, hgot, hremaining, hsize⟩
  cases hstep with
  | nothing hnone => exact hstays
  | fails hwanted hread => exact hstays
  | cutOff hwanted hread hend => exact hstays
  | piece hread hb heq hle hend =>
      rename_i b
      have happend := ByteArray.size_append (a := got) (b := b)
      rw [remaining_drop] at hle
      refine ⟨?_, ?_, ?_, fun _ => ?_⟩
      · show (r.drop got.size).drop b.size = r.drop (got ++ b).size
        rw [drop_drop, happend]
      · show got ++ b = slice d r.pos (got ++ b).size
        rw [happend, ← slice_append_slice, ← hgot]
        exact congrArg (got ++ ·) heq
      · show (got ++ b).size ≤ r.remaining
        omega
      · show r.pos + (got ++ b).size ≤ d.size
        rw [happend, ← Nat.add_assoc]
        exact hend

end Range

namespace Zip.Content

variable {σ : Type} {reader : Reader σ} {d : ByteArray} {r now : Range} {k length : Nat} {s : σ}

theorem read_stream_stored (reader : Reader σ) (length : Nat) (r : Range) (s : σ) :
    (stream reader).read length (.stored r, s) =
      ((Range.read reader length (r, s)).1, .stored (Range.read reader length (r, s)).2.1,
        (Range.read reader length (r, s)).2.2) := rfl

/-- However the reads went, what they handed over is a start of the range, and what is left is the rest. -/
theorem handsOver_of_reads (h : reader.IsTruthful d) {got : ByteArray} (hgot : Range.HandsOver d r got now)
    {log : List Stream.Exchange} {t : Content × σ} (hreads : (stream reader).Reads (.stored now, s) log t) :
    ∃ now' s', t = (.stored now', s') ∧ Range.HandsOver d r (got ++ Stream.delivered log) now' := by
  induction log generalizing now got s with
  | nil =>
      cases hreads
      refine ⟨now, s, rfl, ?_⟩
      rw [Stream.delivered, ByteArray.append_empty]
      exact hgot
  | cons x log ih =>
      cases hreads with
      | cons head tail =>
          obtain ⟨hresult, rfl⟩ := Prod.mk.inj head
          have hstep := Range.step_read h x.length now s
          rw [show (Range.read reader x.length (now, s)).1 = x.result from hresult] at hstep
          obtain ⟨now', s', hstate, hall⟩ := ih (hgot.step hstep) tail
          refine ⟨now', s', hstate, ?_⟩
          rw [Stream.delivered, ← ByteArray.append_assoc]
          exact hall

/-- A read of a range of `d`, of which `k` bytes were handed over. -/
structure Continues (reader : Reader σ) (d : ByteArray) (r : Range) (k length : Nat) (s : σ) : Prop where
  of_ok : ∀ b t, (stream reader).read length (.stored (r.drop k), s) = (.ok b, t) →
    b = slice d (r.pos + k) b.size ∧ t.1 = .stored (r.drop (k + b.size))
  of_error : ∀ e t, (stream reader).read length (.stored (r.drop k), s) = (.error e, t) →
    t.1 = .stored (r.drop k)
  ends_iff : 0 < length →
    (((stream reader).read length (.stored (r.drop k), s)).1 = .ok .empty ↔ k = r.remaining)
  cutOff_iff : 0 < length → (∀ f, (reader.readAt (r.pos + k) (min length (r.remaining - k)) s).1 ≠ .error f) →
    (((stream reader).read length (.stored (r.drop k), s)).1 = .error (.truncatedEntry (r.pos + k)) ↔
      r.pos + k < r.stop ∧ d.size ≤ r.pos + k)
  passes_on : 0 < length → r.pos + k < r.stop → ∀ f,
    (reader.readAt (r.pos + k) (min length (r.remaining - k)) s).1 = .error f →
      ((stream reader).read length (.stored (r.drop k), s)).1 = .error f.toIoError

theorem continues (h : reader.IsTruthful d) (hk : k ≤ r.remaining) (length : Nat) (s : σ) :
    Continues reader d r k length s := by
  have hrest := r.remaining_drop k
  have hleft : r.remaining = r.stop - r.pos := rfl
  have hpos : (r.drop k).pos = r.pos + k := rfl
  have hstep := Range.step_read h length (r.drop k) s
  have hread := read_stream_stored reader length (r.drop k) s
  generalize Range.read reader length (r.drop k, s) = outcome at hstep hread
  obtain ⟨result, now, s'⟩ := outcome
  dsimp only at hstep hread
  refine ⟨fun b t hb => ?_, fun e t he => ?_, fun hlength => ?_, fun hlength hcalm => ?_, fun hlength hlt f hf => ?_⟩
  · rw [hread] at hb
    cases hb
    obtain ⟨hslice, rfl⟩ := hstep.of_ok
    exact ⟨hslice, congrArg Content.stored (r.drop_drop k _)⟩
  · rw [hread] at he
    cases he
    rw [hstep.of_error]
  · rw [hread, hstep.eq_empty_iff hlength]
    omega
  · rw [← hrest] at hcalm
    rw [hread, ← hpos, hstep.eq_truncated_iff hlength hcalm]
    omega
  · rw [← hrest] at hf
    rw [hread, hstep.eq_error hlength (by omega) hf]

/-- Whatever reads of an entry that is stored as it is were made, over a source that may fail any of them, the bytes
that they handed over are those from the start of its data on; the next read goes on after them, ends where the range
does, and reports the end of the source where that is before. -/
theorem delivered_stored_eq_slice {e : Entry} (h : reader.IsTruthful d) (hm : e.method = .stored) (start : Nat)
    {log : List Stream.Exchange} {t : Content × σ} (hreads : (stream reader).Reads (ofEntry e start, s) log t) :
    Stream.delivered log = slice d start (Stream.delivered log).size ∧
      (0 < (Stream.delivered log).size → start + (Stream.delivered log).size ≤
        min (min (start + e.compressedSize.toNat) addressMax) d.size) ∧
      ∃ s', t = (.stored ⟨start + (Stream.delivered log).size,
          min (start + e.compressedSize.toNat) addressMax⟩, s') ∧
        ∀ length, Continues reader d (.ofLength start e.compressedSize.toNat) (Stream.delivered log).size
          length s' := by
  have hcontent : ofEntry e start = .stored (.ofLength start e.compressedSize.toNat) := by
    rw [ofEntry, hm]
  rw [hcontent] at hreads
  obtain ⟨now, s', rfl, hall⟩ :=
    handsOver_of_reads h (Range.handsOver_empty d (.ofLength start e.compressedSize.toNat)) hreads
  rw [ByteArray.empty_append] at hall
  obtain ⟨rfl, hslice, hremaining, hsize⟩ := hall
  refine ⟨hslice, fun hpos => ?_, s', rfl, fun length => continues h hremaining length s'⟩
  have hstop : (Stream.delivered log).size ≤
      min (start + e.compressedSize.toNat) addressMax - start := hremaining
  have hwithin : start + (Stream.delivered log).size ≤ d.size := hsize hpos
  omega

end Zip.Content

namespace FaultyMemory

theorem isTruthful_reader {m : FaultyMemory} (h : m.maxRead ≠ some 0) : m.reader.IsTruthful m.data := by
  intro offset length s b s' hread
  change m.readAt offset length s = (.ok b, s') at hread
  unfold readAt at hread
  split at hread
  · cases hread
  · cases hread
    cases hmax : m.maxRead with
    | none => exact isPiece_slice m.data offset length
    | some most =>
        have hmost : most ≠ 0 := fun hzero => h (by rw [hmax, hzero])
        have hsize := size_slice m.data offset (min most length)
        exact ⟨(slice_size_slice m.data offset _).symm, by dsimp only; omega, fun hzero => by
          dsimp only at hzero
          omega⟩

/-- A local header, and the end of an archive without entries, read ten bytes at a time. -/
def bare : FaultyMemory where
  name := "bare"
  data := pack [(4, Zip.Archive.localHeaderSignature), (26, 0), (4, 0x06054B50), (18, 0)]
  size := none
  maxRead := some 10
  openCause := none

/-- An entry whose data run past the end of the archive by one byte. -/
def overlong : Zip.Entry := ⟨"custom", .stored, 23, 23, 0, 0, 0⟩

/-- A read among the data fails once, and one past the end of the archive. -/
def midway : Fault := ⟨40, 41, .io .timedOut, 1⟩

def beyond : Fault := ⟨52, addressMax, .io .permissionDenied, 1⟩

/-- Reads of the data, two of which fail. -/
def bareLog : List Stream.Exchange :=
  [⟨22, .ok (slice bare.data 30 10)⟩, ⟨22, .error (midway.failureAt 40).toIoError⟩,
    ⟨22, .ok (slice bare.data 40 10)⟩, ⟨22, .ok (slice bare.data 50 2)⟩,
    ⟨1, .error (beyond.failureAt 52).toIoError⟩]

theorem reads_bare :
    (Zip.Content.stream bare.reader).Reads (.ofEntry overlong 30, ⟨[midway, beyond], 0, 0⟩) bareLog
      (.stored ⟨52, 53⟩, ⟨[{ midway with left := 0 }, { beyond with left := 0 }], 0, 0⟩) := by
  refine .cons (u := (.stored ⟨40, 53⟩, ⟨[midway, beyond], 0, 0⟩)) rfl ?_
  refine .cons (u := (.stored ⟨40, 53⟩, ⟨[{ midway with left := 0 }, beyond], 0, 0⟩)) rfl ?_
  refine .cons (u := (.stored ⟨50, 53⟩, ⟨[{ midway with left := 0 }, beyond], 0, 0⟩)) rfl ?_
  refine .cons (u := (.stored ⟨52, 53⟩, ⟨[{ midway with left := 0 }, beyond], 0, 0⟩)) rfl ?_
  exact .cons rfl (.nil _)

/-- After both failures all the data were handed over once, and the end of the archive is reported. -/
theorem delivered_stored_eq_slice_bare :
    bare.reader.IsTruthful bare.data ∧ overlong.method = .stored ∧
      Stream.delivered bareLog = slice bare.data 30 22 ∧
      ((Zip.Content.stream bare.reader).read 1
        (.stored ⟨52, 53⟩, ⟨[{ midway with left := 0 }, { beyond with left := 0 }], 0, 0⟩)).1 =
          .error (.truncatedEntry 52) := by
  have htrue : bare.reader.IsTruthful bare.data := isTruthful_reader (by decide)
  have hsize : (Stream.delivered bareLog).size = 22 := by decide +kernel
  obtain ⟨hslice, -, s', hstate, hnext⟩ :=
    Zip.Content.delivered_stored_eq_slice htrue (e := overlong) rfl 30 reads_bare
  obtain ⟨-, rfl⟩ := Prod.mk.inj hstate
  rw [hsize] at hslice hnext
  refine ⟨htrue, rfl, hslice, ((hnext 1).cutOff_iff Nat.one_pos fun f hf => ?_).2 ⟨by decide, by decide +kernel⟩⟩
  cases hf

/-- Past the end of the archive the failure of the source is reported, if it fails, and not the end. -/
theorem cutOff_not_iff_beyond :
    ¬ ∀ (reader : Reader Rehearsal) (d : ByteArray) (e : Zip.Entry) (start : Nat) (s : Rehearsal)
      (log : List Stream.Exchange) (t : Zip.Content × Rehearsal), reader.IsTruthful d → e.method = .stored →
      (Zip.Content.stream reader).Reads (.ofEntry e start, s) log t → ∀ length, 0 < length →
        (((Zip.Content.stream reader).read length t).1 =
            .error (.truncatedEntry (start + (Stream.delivered log).size)) ↔
          start + (Stream.delivered log).size < min (start + e.compressedSize.toNat) addressMax ∧
            d.size ≤ start + (Stream.delivered log).size) := by
  intro hiff
  have hreads : (Zip.Content.stream bare.reader).Reads (.ofEntry overlong 30, ⟨[beyond], 0, 0⟩)
      [⟨22, .ok (slice bare.data 30 10)⟩, ⟨22, .ok (slice bare.data 40 10)⟩,
        ⟨22, .ok (slice bare.data 50 2)⟩] (.stored ⟨52, 53⟩, ⟨[beyond], 0, 0⟩) := by
    refine .cons (u := (.stored ⟨40, 53⟩, ⟨[beyond], 0, 0⟩)) rfl ?_
    refine .cons (u := (.stored ⟨50, 53⟩, ⟨[beyond], 0, 0⟩)) rfl ?_
    exact .cons rfl (.nil _)
  have hcutOff := (hiff _ _ _ _ _ _ _ (isTruthful_reader (m := bare) (by decide)) rfl hreads 1 Nat.one_pos).2
    ⟨by decide +kernel, by decide +kernel⟩
  have hfails : ((Zip.Content.stream bare.reader).read 1 (.stored ⟨52, 53⟩, ⟨[beyond], 0, 0⟩)).1 =
      .error (beyond.failureAt 52).toIoError := rfl
  rw [hfails] at hcutOff
  cases hcutOff

end FaultyMemory

end DexArchive
