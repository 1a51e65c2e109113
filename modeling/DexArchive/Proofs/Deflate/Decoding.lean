import Mathlib.Logic.Relation
import DexArchive.Proofs.Deflate.Scan

/-! Decompression without pauses. Over given bytes a decompression is one sequence of steps, each of which
puts out a byte or scans what comes next. Wherever an inflater pauses, it stands on that sequence, and so
the room that it has and the portions in which its bytes come do not change what it puts out. -/

namespace DexArchive.Deflate

/-- Where a decompression stands: an inflater without its bytes. -/
structure Decoding where
  pos : Nat
  phase : Phase
  last : Bool
  output : ByteArray

namespace Decoding

def initial : Decoding := ⟨0, .header, false, .empty⟩

/-- The next step in a decompression of `w`. -/
def next? (w : ByteArray) (q : Decoding) : Option Decoding :=
  match q.phase with
  | .literal byte next => some { q with phase := next, output := q.output.push byte }
  | .copying 0 _ next => some { q with phase := next }
  | .copying (left + 1) distance next =>
    some { q with phase := .copying left distance next, output := repeatBack distance 1 q.output }
  | phase =>
    match phase.scan q.last w q.pos with
    | .error _ => none
    | .ok (progress, pos) => some ⟨pos, progress.phase, progress.last, q.output⟩

/-- From the one place a decompression of `w` comes to the other. -/
def Leads (w : ByteArray) : Decoding → Decoding → Prop :=
  Relation.ReflTransGen fun q q' => q.next? w = some q'

/-- There is no way on, although the stream is not at its end. -/
def IsStuck (w : ByteArray) (q : Decoding) : Prop := q.next? w = none ∧ q.phase ≠ .ended

theorem next?_of_ended (w : ByteArray) {q : Decoding} (h : q.phase = .ended) : q.next? w = none := by
  rw [next?, h]
  rfl

theorem next?_of_scan {w : ByteArray} {q : Decoding} {progress : Progress} {pos : Nat}
    (h : q.phase.scan q.last w q.pos = .ok (progress, pos)) :
    q.next? w = some ⟨pos, progress.phase, progress.last, q.output⟩ := by
  obtain ⟨qpos, phase, last, output⟩ := q
  cases phase with
  | header | stored left | coded literals distances =>
      simp only [next?]
      rw [h]
  | literal byte next => cases h
  | copying left distance next => cases h
  | ended => cases h

theorem next?_of_scan_error {w : ByteArray} {q : Decoding} {e : Stop}
    (hliteral : ∀ byte next, q.phase = .literal byte next → False)
    (hcopying : ∀ left distance next, q.phase = .copying left distance next → False)
    (h : q.phase.scan q.last w q.pos = .error e) : q.next? w = none := by
  obtain ⟨qpos, phase, last, output⟩ := q
  cases phase with
  | header | stored left | coded literals distances =>
      simp only [next?]
      rw [h]
  | literal byte next => exact (hliteral byte next rfl).elim
  | copying left distance next => exact (hcopying left distance next rfl).elim
  | ended => rfl

/-! ### Along the sequence -/

theorem leads_total {w : ByteArray} {q a b : Decoding} (ha : Leads w q a) (hb : Leads w q b) :
    Leads w a b ∨ Leads w b a := by
  refine Relation.ReflTransGen.total_of_right_unique (fun x y z hy hz => ?_) ha hb
  rw [hy] at hz
  exact Option.some.inj hz

theorem eq_of_leads {w : ByteArray} {a b : Decoding} (h : Leads w a b) (ha : a.next? w = none) : a = b := by
  rcases Relation.ReflTransGen.cases_head h with hab | ⟨c, hac, -⟩
  · exact hab
  · rw [ha] at hac
    cases hac

theorem next?_append {w : ByteArray} (more : ByteArray) {q q' : Decoding} (h : q.next? w = some q') :
    q.next? (w ++ more) = some q' := by
  obtain ⟨qpos, phase, last, output⟩ := q
  have hscan : phase.scan last w qpos ≠ .error .starved →
      phase.scan last (w ++ more) qpos = phase.scan last w qpos :=
    Scan.stable_phase last phase w more qpos
  cases phase with
  | header | stored left | coded literals distances =>
      simp only [next?] at h ⊢
      rw [hscan (fun hstarved => by rw [hstarved] at h; cases h)]
      exact h
  | literal byte next => exact h
  | copying left distance next => cases left <;> exact h
  | ended => cases h

theorem Leads.append {w : ByteArray} (more : ByteArray) {q q' : Decoding} (h : Leads w q q') :
    Leads (w ++ more) q q' := by
  induction h with
  | refl => exact .refl
  | tail _ hnext ih => exact ih.tail (next?_append more hnext)

/-- A step adds to the output and takes nothing of it back. -/
theorem exists_append_of_next? {w : ByteArray} {q q' : Decoding} (h : q.next? w = some q') :
    ∃ added, q'.output = q.output ++ added := by
  obtain ⟨qpos, phase, last, output⟩ := q
  cases phase with
  | header | stored left | coded literals distances =>
      simp only [next?] at h
      split at h
      · cases h
      · cases h
        exact ⟨.empty, ByteArray.append_empty.symm⟩
  | literal byte next =>
      cases h
      exact ⟨[byte].toByteArray, ByteArray.append_toByteArray_singleton.symm⟩
  | copying left distance next =>
      cases left with
      | zero =>
          cases h
          exact ⟨.empty, ByteArray.append_empty.symm⟩
      | succ left =>
          cases h
          exact ⟨[_].toByteArray, ByteArray.append_toByteArray_singleton.symm⟩
  | ended => cases h

theorem exists_append_of_leads {w : ByteArray} {q q' : Decoding} (h : Leads w q q') :
    ∃ added, q'.output = q.output ++ added := by
  induction h with
  | refl => exact ⟨.empty, ByteArray.append_empty.symm⟩
  | tail _ hnext ih =>
      obtain ⟨first, hfirst⟩ := ih
      obtain ⟨second, hsecond⟩ := exists_append_of_next? hnext
      exact ⟨first ++ second, by rw [hsecond, hfirst, ByteArray.append_assoc]⟩

theorem pos_le_of_next? {w : ByteArray} {q q' : Decoding} (h : q.next? w = some q') :
    q.pos ≤ q'.pos ∧ (q.pos ≤ 8 * w.size → q'.pos ≤ 8 * w.size) := by
  obtain ⟨qpos, phase, last, output⟩ := q
  cases phase with
  | header | stored left | coded literals distances =>
      simp only [next?] at h
      split at h
      · cases h
      · rename_i hscan
        cases h
        obtain ⟨hlt, hle⟩ := Scan.advances_phase _ _ _ _ _ _ hscan
        exact ⟨Nat.le_of_succ_le hlt, hle⟩
  | literal byte next =>
      cases h
      exact ⟨Nat.le_refl _, id⟩
  | copying left distance next =>
      cases left <;> cases h <;> exact ⟨Nat.le_refl _, id⟩
  | ended => cases h

theorem pos_le_of_leads {w : ByteArray} {q q' : Decoding} (h : Leads w q q') :
    q.pos ≤ q'.pos ∧ (q.pos ≤ 8 * w.size → q'.pos ≤ 8 * w.size) := by
  induction h with
  | refl => exact ⟨Nat.le_refl _, id⟩
  | tail _ hnext ih =>
      obtain ⟨hle, hsize⟩ := pos_le_of_next? hnext
      exact ⟨Nat.le_trans ih.1 hle, hsize ∘ ih.2⟩

/-- A decompression that comes to its end is stuck nowhere on the way. -/
theorem not_isStuck_of_leads {w : ByteArray} {q a b : Decoding} (ha : Leads w q a)
    (hended : a.phase = .ended) (hb : Leads w q b) : ¬ IsStuck w b := by
  rintro ⟨hnone, hphase⟩
  rcases leads_total ha hb with hab | hba
  · rw [← eq_of_leads hab (next?_of_ended w hended)] at hphase
    exact hphase hended
  · rw [eq_of_leads hba hnone] at hphase
    exact hphase hended

/-- Copying several bytes is so many steps. -/
theorem leads_copying (w : ByteArray) (q : Decoding) (distance : Nat) (next : Phase) (n left : Nat) :
    Leads w { q with phase := .copying (left + n) distance next }
      { q with phase := .copying left distance next, output := repeatBack distance n q.output } := by
  induction n generalizing q with
  | zero => exact .refl
  | succ n ih =>
      have hstep : ({ q with phase := .copying (left + (n + 1)) distance next } : Decoding).next? w =
          some { q with phase := .copying (left + n) distance next,
                        output := repeatBack distance 1 q.output } := rfl
      exact .head hstep (ih { q with output := repeatBack distance 1 q.output })

/-- A stored block puts out the bytes that it stands on. -/
theorem leads_stored {w : ByteArray} {k n : Nat} (hle : k + n ≤ w.size) (hn : 0 < n) (last : Bool)
    (output : ByteArray) : Leads w ⟨8 * k, .stored n, last, output⟩
      ⟨8 * (k + n), .afterBlock last, last, output ++ slice w k n⟩ := by
  induction n generalizing k output with
  | zero => omega
  | succ n ih =>
      have hbits := Scan.bits_of_lt (show k < w.size by omega) (show 0 + 8 ≤ 8 by decide)
      rw [Nat.pow_zero, Nat.div_one, Nat.mod_eq_of_lt (byteAt w k).toNat_lt] at hbits
      have hscan : (Phase.stored (n + 1)).scan last w (8 * k) =
          .ok (⟨.literal (byteAt w k) (.ofStored last n), last⟩, 8 * (k + 1)) := by
        rw [Phase.scan, Scan.bind_apply, ← Nat.add_zero (8 * k), hbits]
        show Except.ok ((⟨.literal (.ofNat (byteAt w k).toNat) (.ofStored last n), last⟩ : Progress), _) = _
        rw [UInt8.ofNat_toNat]
        rfl
      refine .head (next?_of_scan hscan) (.head rfl ?_)
      have hpush : output.push (byteAt w k) = output ++ slice w k 1 := push_byteAt (by omega) output
      have hslice : output ++ slice w k (n + 1) = output ++ slice w k 1 ++ slice w (k + 1) n := by
        rw [ByteArray.append_assoc, slice_append_slice, Nat.add_comm 1 n]
      simp only [hpush]
      rw [hslice, show k + (n + 1) = k + 1 + n by omega]
      by_cases hrest : n = 0
      · rw [hrest, slice_zero, ByteArray.append_empty]
        exact .refl
      · rw [Phase.ofStored, if_neg hrest]
        exact ih (by omega) (by omega) _

end Decoding

namespace Inflater

open Decoding

def decoding (f : Inflater) : Decoding := ⟨f.pos, f.phase, f.last, f.output⟩

theorem input_run (limit : Nat) (f : Inflater) : (run limit f).2.input = f.input := by
  fun_induction run limit f with
  | case3 f _ byte next _ ih => exact ih
  | case4 f _ left distance next _ n ih => exact ih
  | case7 f _ progress pos _ _ _ hscan ih => exact ih
  | _ => rfl

/-- An inflater goes along the sequence of steps. -/
theorem leads_run (limit : Nat) (f : Inflater) :
    Leads f.input f.decoding (run limit f).2.decoding := by
  fun_induction run limit f with
  | case3 f _ byte next hphase ih =>
      refine .head ?_ ih
      simp only [decoding, next?, hphase]
  | case4 f _ left distance next hphase n ih =>
      refine Relation.ReflTransGen.trans ?_ ih
      have hcopy := leads_copying f.input f.decoding distance next n (left - n)
      rw [Nat.sub_add_cancel (Nat.min_le_left _ _)] at hcopy
      have hstart : ({ f.decoding with phase := .copying left distance next } : Decoding) = f.decoding := by
        simp only [decoding, hphase]
      rw [hstart] at hcopy
      by_cases hn : n = left
      · apply hcopy.tail
        simp only [decoding, hn, Nat.sub_self]
        rfl
      · simp only [decoding, dif_neg hn]
        exact hcopy
  | case7 f _ progress pos _ _ _ hscan ih => exact .head (next?_of_scan hscan) ih
  | _ => exact .refl

theorem size_repeatBack (distance n : Nat) (output : ByteArray) :
    (repeatBack distance n output).size = output.size + n := by
  induction n generalizing output with
  | zero => rfl
  | succ n ih =>
      rw [repeatBack, ih, ByteArray.size_push]
      omega

/-- Nothing is put out without room for it. -/
theorem size_run_le (limit : Nat) (f : Inflater) :
    (run limit f).2.output.size ≤ max limit f.output.size := by
  fun_induction run limit f with
  | case3 f hroom byte next hphase ih =>
      have hlt : f.output.size < limit := by
        rw [hphase] at hroom
        exact Nat.lt_of_not_le fun hle => hroom ⟨trivial, hle⟩
      simp only [ByteArray.size_push] at ih
      omega
  | case4 f hroom left distance next hphase n ih =>
      apply Nat.le_trans ih
      rw [size_repeatBack]
      omega
  | case7 f _ progress pos _ _ _ hscan ih => exact ih
  | _ => exact Nat.le_max_right _ _

theorem phase_of_run_eq_ended {limit : Nat} {f : Inflater} (h : (run limit f).1 = .ended) :
    (run limit f).2.phase = .ended := by
  fun_induction run limit f with
  | case2 f _ hphase => exact hphase
  | case3 f _ byte next _ ih => exact ih h
  | case4 f _ left distance next _ n ih => exact ih h
  | case7 f _ progress pos _ _ _ hscan ih => exact ih h
  | _ => cases h

/-- A starved inflater is stuck with the bytes it has. -/
theorem isStuck_of_run_eq_starved {limit : Nat} {f : Inflater} (h : (run limit f).1 = .starved) :
    IsStuck f.input (run limit f).2.decoding := by
  fun_induction run limit f with
  | case3 f _ byte next _ ih => exact ih h
  | case4 f _ left distance next _ n ih => exact ih h
  | case5 f _ hended hliteral hcopying hscan =>
      exact ⟨next?_of_scan_error hliteral hcopying hscan, hended⟩
  | case7 f _ progress pos _ _ _ hscan ih => exact ih h
  | _ => cases h

/-- What a starved inflater scans last is starved. -/
theorem scan_of_run_eq_starved {limit : Nat} {f : Inflater} (h : (run limit f).1 = .starved) :
    (run limit f).2.phase.scan (run limit f).2.last f.input (run limit f).2.pos = .error .starved := by
  fun_induction run limit f with
  | case3 f _ byte next _ ih => exact ih h
  | case4 f _ left distance next _ n ih => exact ih h
  | case5 f _ hended hliteral hcopying hscan => exact hscan
  | case7 f _ progress pos _ _ _ hscan ih => exact ih h
  | _ => cases h

/-- An inflater that met corrupt data is stuck whatever bytes follow. -/
theorem isStuck_of_run_eq_corrupt {limit : Nat} {f : Inflater} (h : (run limit f).1 = .corrupt)
    (more : ByteArray) : IsStuck (f.input ++ more) (run limit f).2.decoding := by
  fun_induction run limit f with
  | case3 f _ byte next _ ih => exact ih h
  | case4 f _ left distance next _ n ih => exact ih h
  | case6 f _ hended hliteral hcopying hscan =>
      have happend : f.phase.scan f.last (f.input ++ more) f.pos = .error .corrupt := by
        rw [Scan.stable_phase f.last f.phase f.input more f.pos (by rw [hscan]; simp), hscan]
      exact ⟨next?_of_scan_error hliteral hcopying happend, hended⟩
  | case7 f _ progress pos _ _ _ hscan ih => exact ih h
  | _ => cases h

end Inflater

/-- Bytes that decompress to `c`, if they are all at hand and there is room enough. -/
def Inflates (w c : ByteArray) : Prop :=
  ∃ limit, ((Inflater.initial.feed w).run limit).1 = .ended ∧
    ((Inflater.initial.feed w).run limit).2.output = c

/-- The output at some place of a decompression of `w` begins with `b`. -/
def IsOutput (w b : ByteArray) : Prop :=
  ∃ q rest, Decoding.Leads w .initial q ∧ q.output = b ++ rest

/-- The output at the end of a decompression of `w` is `b`. -/
def IsWholeOutput (w b : ByteArray) : Prop :=
  ∃ q, Decoding.Leads w .initial q ∧ q.phase = .ended ∧ q.output = b

/-- A decompression of `w` comes to its end. -/
def Completes (w : ByteArray) : Prop := ∃ b, IsWholeOutput w b

theorem IsWholeOutput.isOutput {w b : ByteArray} (h : IsWholeOutput w b) : IsOutput w b := by
  obtain ⟨q, hq, -, rfl⟩ := h
  exact ⟨q, .empty, hq, ByteArray.append_empty.symm⟩

/-- Of two parts of the output, the longer one begins with the other. -/
theorem IsOutput.eq_slice {w a b : ByteArray} (ha : IsOutput w a) (hb : IsOutput w b)
    (h : a.size ≤ b.size) : a = slice b 0 a.size := by
  obtain ⟨q, rest, hq, hqa⟩ := ha
  obtain ⟨q', rest', hq', hqb⟩ := hb
  rcases Decoding.leads_total hq hq' with hlead | hlead
  · obtain ⟨added, hadded⟩ := Decoding.exists_append_of_leads hlead
    rw [hqa, hqb, ByteArray.append_assoc] at hadded
    exact eq_slice_of_append_eq hadded.symm h
  · obtain ⟨added, hadded⟩ := Decoding.exists_append_of_leads hlead
    rw [hqa, hqb, ByteArray.append_assoc] at hadded
    exact eq_slice_of_append_eq hadded h

/-- No part of the output goes beyond a place from which there is no way on. -/
theorem IsOutput.size_le {w b : ByteArray} {q : Decoding} (hb : IsOutput w b)
    (hq : Decoding.Leads w .initial q) (hlast : q.next? w = none) : b.size ≤ q.output.size := by
  obtain ⟨q', rest, hq', hqb⟩ := hb
  have hlead : Decoding.Leads w q' q := by
    rcases Decoding.leads_total hq' hq with hlead | hlead
    · exact hlead
    · rw [Decoding.eq_of_leads hlead hlast]
      exact .refl
  obtain ⟨added, hadded⟩ := Decoding.exists_append_of_leads hlead
  calc b.size ≤ b.size + rest.size + added.size := by omega
    _ = (b ++ rest ++ added).size := by simp only [ByteArray.size_append]
    _ = q.output.size := by rw [hadded, hqb]

theorem IsWholeOutput.size_le {w c b : ByteArray} (hc : IsWholeOutput w c) (hb : IsOutput w b) :
    b.size ≤ c.size := by
  obtain ⟨q, hq, hended, rfl⟩ := hc
  exact hb.size_le hq (Decoding.next?_of_ended w hended)

theorem IsWholeOutput.eq {w c c' : ByteArray} (h : IsWholeOutput w c) (h' : IsWholeOutput w c') :
    c = c' := by
  have hle := h.size_le h'.isOutput
  have hge := h'.size_le h.isOutput
  rw [h.isOutput.eq_slice h'.isOutput hge, Nat.le_antisymm hge hle, slice_of_size_le (Nat.le_refl _)]

theorem Completes.not_isStuck {w : ByteArray} {q : Decoding} (h : Completes w)
    (hq : Decoding.Leads w .initial q) : ¬ Decoding.IsStuck w q := by
  obtain ⟨b, q', hq', hended, -⟩ := h
  exact Decoding.not_isStuck_of_leads hq' hended hq

theorem Completes.append {w : ByteArray} (h : Completes w) (more : ByteArray) : Completes (w ++ more) := by
  obtain ⟨b, q, hq, hended⟩ := h
  exact ⟨b, q, hq.append more, hended⟩

/-- A decompression of `w` comes to its end and leaves bytes of `w` over. -/
def LeavesOver (w : ByteArray) : Prop := ∃ n, n < w.size ∧ Completes (slice w 0 n)

/-- A decompression of `w` comes to its end, and it takes all of the bytes. -/
def TakesAll (w : ByteArray) : Prop := Completes w ∧ ¬ LeavesOver w

theorem LeavesOver.completes {w : ByteArray} (h : LeavesOver w) : Completes w := by
  obtain ⟨n, hn, hcompletes⟩ := h
  have happend := hcompletes.append (slice w n (w.size - n))
  rwa [slice_append_rest w (Nat.le_of_lt hn)] at happend

/-- Where bytes are left over, no step of the decompression reaches into the last of them. -/
theorem LeavesOver.pos_lt {w : ByteArray} (h : LeavesOver w) {q : Decoding}
    (hq : Decoding.Leads w .initial q) : q.pos + 7 < 8 * w.size := by
  obtain ⟨n, hn, b, q', hq', hended, -⟩ := h
  have hsize : (slice w 0 n).size = n := by
    rw [size_slice]
    omega
  have hend : q'.pos ≤ 8 * n := by
    rw [← hsize]
    exact (Decoding.pos_le_of_leads hq').2 (Nat.zero_le _)
  have happend := hq'.append (slice w n (w.size - n))
  rw [slice_append_rest w (Nat.le_of_lt hn)] at happend
  have hlead : Decoding.Leads w q q' := by
    rcases Decoding.leads_total hq happend with hlead | hlead
    · exact hlead
    · rw [Decoding.eq_of_leads hlead (Decoding.next?_of_ended w hended)]
      exact .refl
  have hpos := (Decoding.pos_le_of_leads hlead).1
  omega

/-- An inflater with all the bytes at hand and room enough comes to the end of the sequence. -/
theorem inflates_iff {w c : ByteArray} : Inflates w c ↔ IsWholeOutput w c := by
  have hinput : (Inflater.initial.feed w).input = w := ByteArray.empty_append
  have hleads : ∀ limit, Decoding.Leads w .initial ((Inflater.initial.feed w).run limit).2.decoding := by
    intro limit
    have hrun := Inflater.leads_run limit (Inflater.initial.feed w)
    rwa [hinput] at hrun
  constructor
  · rintro ⟨limit, hended, houtput⟩
    exact ⟨_, hleads limit, Inflater.phase_of_run_eq_ended hended, houtput⟩
  · intro hwhole
    have hcompletes : Completes w := ⟨c, hwhole⟩
    have hnotStuck := hcompletes.not_isStuck (hleads (c.size + 1))
    refine ⟨c.size + 1, ?_⟩
    cases hpause : ((Inflater.initial.feed w).run (c.size + 1)).1 with
    | full =>
        have hroom := Inflater.le_size_of_run_eq_full hpause
        have houtput : IsOutput w ((Inflater.initial.feed w).run (c.size + 1)).2.output :=
          ⟨_, .empty, hleads _, ByteArray.append_empty.symm⟩
        have hle := hwhole.size_le houtput
        omega
    | starved =>
        have hstuck := Inflater.isStuck_of_run_eq_starved hpause
        rw [hinput] at hstuck
        exact absurd hstuck hnotStuck
    | corrupt =>
        have hstuck := Inflater.isStuck_of_run_eq_corrupt hpause .empty
        rw [hinput, ByteArray.append_empty] at hstuck
        exact absurd hstuck hnotStuck
    | ended =>
        have houtput : IsWholeOutput w ((Inflater.initial.feed w).run (c.size + 1)).2.output :=
          ⟨_, hleads _, Inflater.phase_of_run_eq_ended hpause, rfl⟩
        exact ⟨rfl, houtput.eq hwhole⟩

end DexArchive.Deflate
