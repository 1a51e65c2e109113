import DexArchive.Deflate.Inflating
import DexArchive.Proofs.Deflate.Decoding
import DexArchive.Proofs.Range

/-! Decompression of a range while it is read. Whatever pieces the bytes of the range come in, it stands on
the sequence of steps that they have. What it hands over is the output there, and a read fails only if the
range is cut off or the sequence gets stuck within the windows that the read reaches into. -/

namespace DexArchive.Deflate

open Decoding

/-- What there is to say when `f` was run until it paused as `f'`. -/
structure RunsTo (f : Inflater) (pause : Pause) (f' : Inflater) : Prop where
  input_eq : f'.input = f.input
  leads : Leads f.input f.decoding f'.decoding
  full : pause = .full → f.output.size < f'.output.size ∧ Inflating.window ≤ f'.output.size
  ended : pause = .ended → f'.phase = .ended
  starved : pause = .starved → IsStuck f.input f'.decoding
  corrupt : pause = .corrupt → ∀ more, IsStuck (f.input ++ more) f'.decoding

theorem RunsTo.trans {f f' f'' : Inflater} {pause : Pause} (h : RunsTo f .full f')
    (h' : RunsTo f' pause f'') : RunsTo f pause f'' where
  input_eq := h'.input_eq.trans h.input_eq
  leads := by
    have hleads := h'.leads
    rw [h.input_eq] at hleads
    exact h.leads.trans hleads
  full hpause := ⟨Nat.lt_trans (h.full rfl).1 (h'.full hpause).1, (h'.full hpause).2⟩
  ended := h'.ended
  starved hpause := by
    have hstuck := h'.starved hpause
    rwa [h.input_eq] at hstuck
  corrupt hpause := by
    have hstuck := h'.corrupt hpause
    rwa [h.input_eq] at hstuck

/-- An inflater has used all it can of its bytes, or put out a window at least. -/
def IsIdle (f : Inflater) : Prop := f.decoding.next? f.input = none ∨ Inflating.window ≤ f.output.size

theorem RunsTo.isIdle {f f' : Inflater} {pause : Pause} (h : RunsTo f pause f') : IsIdle f' := by
  rw [IsIdle, h.input_eq]
  cases pause with
  | full => exact .inr (h.full rfl).2
  | starved => exact .inl (h.starved rfl).1
  | ended => exact .inl (next?_of_ended _ (h.ended rfl))
  | corrupt =>
      have hstuck := (h.corrupt rfl .empty).1
      rw [ByteArray.append_empty] at hstuck
      exact .inl hstuck

/-- An inflater can do nothing without more bytes, or has gone into the last one that it has. -/
def IsSpent (f : Inflater) : Prop := IsStuck f.input f.decoding ∨ f.untouched = 0

/-- An inflater is its bytes and where it stands. -/
theorem Inflater.eq_of_decoding {f f' : Inflater} (hinput : f.input = f'.input)
    (h : f.decoding = f'.decoding) : f = f' := by
  obtain ⟨input, pos, phase, last, output, hle⟩ := f
  obtain ⟨input', pos', phase', last', output', hle'⟩ := f'
  obtain rfl : input = input' := hinput
  cases h
  rfl

theorem Inflater.feed_empty (f : Inflater) : f.feed .empty = f := by
  simp only [feed, ByteArray.append_empty]

namespace Inflating

variable {σ : Type} {reader : Reader σ} {w : ByteArray} {r : Range}

theorem window_le_windowEnd (f : Inflater) : window ≤ windowEnd f :=
  Nat.le_mul_of_pos_right window (Nat.succ_pos _)

theorem runsTo_inflateWindow (z : Inflating) :
    RunsTo z.inflater z.inflateWindow.1 z.inflateWindow.2.inflater where
  input_eq := Inflater.input_run _ _
  leads := Inflater.leads_run _ _
  full hpause := ⟨size_lt_of_inflateWindow_eq_full hpause,
    Nat.le_trans (window_le_windowEnd z.inflater) (Inflater.le_size_of_run_eq_full hpause)⟩
  ended := Inflater.phase_of_run_eq_ended
  starved := Inflater.isStuck_of_run_eq_starved
  corrupt := Inflater.isStuck_of_run_eq_corrupt

theorem runsTo_inflate (atEnd : Bool) (target : Nat) (z : Inflating) :
    RunsTo z.inflater (z.inflate atEnd target).1 (z.inflate atEnd target).2.inflater := by
  fun_induction inflate atEnd target z with
  | case1 z pause z' hz hfull ih =>
      have hwindow := runsTo_inflateWindow z
      rw [hz, hfull.1] at hwindow
      exact hwindow.trans ih
  | case2 z pause z' hz hfull =>
      have hwindow := runsTo_inflateWindow z
      rwa [hz] at hwindow

/-- An inflater with output for one window at most goes on as far as its bytes lead. -/
theorem inflate_of_leads {z : Inflating} {q : Decoding} (hq : Leads z.inflater.input z.inflater.decoding q)
    (hlast : q.next? z.inflater.input = none) (hsize : q.output.size < window) (atEnd : Bool) (target : Nat) :
    (z.inflate atEnd target).2.inflater.decoding = q ∧ (z.inflate atEnd target).1 ≠ .full := by
  have hrun := runsTo_inflate atEnd target z
  have hlead : Leads z.inflater.input (z.inflate atEnd target).2.inflater.decoding q := by
    rcases leads_total hrun.leads hq with hlead | hlead
    · exact hlead
    · rw [eq_of_leads hlead hlast]
      exact .refl
  have hshort : (z.inflate atEnd target).2.inflater.output.size < window := by
    obtain ⟨added, hadded⟩ := exists_append_of_leads hlead
    calc (z.inflate atEnd target).2.inflater.output.size
        ≤ ((z.inflate atEnd target).2.inflater.output ++ added).size := by
          rw [ByteArray.size_append]
          omega
      _ = q.output.size := by rw [hadded]; rfl
      _ < window := hsize
  have hidle := hrun.isIdle
  rw [IsIdle, hrun.input_eq] at hidle
  refine ⟨eq_of_leads hlead (hidle.resolve_right (Nat.not_le.2 hshort)), fun hfull => ?_⟩
  exact Nat.not_le.2 hshort (hrun.full hfull).2

theorem unused_inflate {atEnd : Bool} {target : Nat} {z : Inflating} :
    (z.inflate atEnd target).2.unused = if (z.inflate atEnd target).1 = .starved then 0
      else (z.inflate atEnd target).2.inflater.untouched := by
  fun_induction inflate atEnd target z with
  | case1 z pause z' hz hfull ih => exact ih
  | case2 z pause z' hz hfull =>
      obtain ⟨rfl, rfl⟩ : z.inflateWindow.1 = pause ∧ z.inflateWindow.2 = z' := by rw [hz]; exact ⟨rfl, rfl⟩
      rfl

theorem isSpent_inflate {atEnd : Bool} {target : Nat} {z : Inflating}
    (h : (z.inflate atEnd target).2.unused = 0) : IsSpent (z.inflate atEnd target).2.inflater := by
  have hrun := runsTo_inflate atEnd target z
  rw [unused_inflate] at h
  split at h
  · rename_i hstarved
    refine .inl ?_
    rw [hrun.input_eq]
    exact hrun.starved hstarved
  · exact .inr h

/-- No window is begun beyond the one that `target` bytes end in. -/
theorem size_inflate_le (atEnd : Bool) {target : Nat} {z : Inflating}
    (h : z.inflater.output.size < target) {k : Nat} (hk : target ≤ window * k) :
    (z.inflate atEnd target).2.inflater.output.size ≤ window * k := by
  fun_induction inflate atEnd target z with
  | case1 z pause z' hz hfull ih => exact ih hfull.2.1
  | case2 z pause z' hz hfull =>
      obtain rfl : z.inflateWindow.2 = z' := by rw [hz]
      have hlt := Nat.lt_of_lt_of_le h hk
      have hend : windowEnd z.inflater ≤ window * k :=
        Nat.mul_le_mul_left window (Nat.div_lt_of_lt_mul hlt)
      calc z.inflateWindow.2.inflater.output.size
          ≤ max (windowEnd z.inflater) z.inflater.output.size := Inflater.size_run_le _ _
        _ ≤ window * k := Nat.max_le.2 ⟨hend, Nat.le_of_lt hlt⟩

/-- Only the inflater and the count of unused bytes change. -/
theorem inflate_eq (atEnd : Bool) (target : Nat) (z : Inflating) :
    (z.inflate atEnd target).2 = { z with
      inflater := (z.inflate atEnd target).2.inflater
      unused := (z.inflate atEnd target).2.unused } := by
  fun_induction inflate atEnd target z with
  | case1 z pause z' hz hfull ih =>
      obtain rfl : z.inflateWindow.2 = z' := by rw [hz]
      rw [ih]
      rfl
  | case2 z pause z' hz hfull =>
      obtain rfl : z.inflateWindow.2 = z' := by rw [hz]
      rfl

theorem inflate_eq_of_ended {z : Inflating} {f : Inflater} (hinput : z.inflater.input = f.input)
    (hf : Leads f.input z.inflater.decoding f.decoding) (hended : f.phase = .ended)
    (hsize : f.output.size < window) (atEnd : Bool) (target : Nat) :
    z.inflate atEnd target = (.ended, { z with inflater := f, unused := f.untouched }) := by
  have hrun := runsTo_inflate atEnd target z
  rw [← hinput] at hf
  obtain ⟨hdecoding, hfull⟩ := inflate_of_leads hf (next?_of_ended _ hended) hsize atEnd target
  have hf' := Inflater.eq_of_decoding (hrun.input_eq.trans hinput) hdecoding
  have hended' : (z.inflate atEnd target).2.inflater.decoding.phase = .ended := by
    rw [hdecoding]
    exact hended
  have hpause : (z.inflate atEnd target).1 = .ended := by
    cases hpause : (z.inflate atEnd target).1 with
    | full => exact absurd hpause hfull
    | starved => exact absurd hended' (hrun.starved hpause).2
    | ended => rfl
    | corrupt => exact absurd hended' (hrun.corrupt hpause .empty).2
  refine Prod.ext hpause ?_
  rw [inflate_eq, unused_inflate, hpause, hf']
  rfl

theorem inflate_eq_of_starved {z : Inflating} {f : Inflater} (hinput : z.inflater.input = f.input)
    (hf : Leads f.input z.inflater.decoding f.decoding) (hlast : f.decoding.next? f.input = none)
    {more : ByteArray} (hmore : f.decoding.next? (f.input ++ more) ≠ none) (hsize : f.output.size < window)
    (atEnd : Bool) (target : Nat) :
    z.inflate atEnd target = (.starved, { z with inflater := f, unused := 0 }) := by
  have hrun := runsTo_inflate atEnd target z
  rw [← hinput] at hf hlast hmore
  obtain ⟨hdecoding, hfull⟩ := inflate_of_leads hf hlast hsize atEnd target
  have hf' := Inflater.eq_of_decoding (hrun.input_eq.trans hinput) hdecoding
  rw [← hdecoding] at hmore
  have hpause : (z.inflate atEnd target).1 = .starved := by
    cases hpause : (z.inflate atEnd target).1 with
    | full => exact absurd hpause hfull
    | starved => rfl
    | ended => exact absurd (next?_of_ended _ (hrun.ended hpause)) hmore
    | corrupt => exact absurd (hrun.corrupt hpause more).1 hmore
  refine Prod.ext hpause ?_
  rw [inflate_eq, unused_inflate, hpause, hf']
  rfl

theorem scan_of_inflate_eq_starved {atEnd : Bool} {target : Nat} {z : Inflating}
    (h : (z.inflate atEnd target).1 = .starved) :
    (z.inflate atEnd target).2.inflater.phase.scan (z.inflate atEnd target).2.inflater.last z.inflater.input
      (z.inflate atEnd target).2.inflater.pos = .error .starved := by
  fun_induction inflate atEnd target z with
  | case1 z pause z' hz hfull ih =>
      have hinput : z'.inflater.input = z.inflater.input := by
        rw [← (runsTo_inflateWindow z).input_eq, hz]
      have hscan := ih h
      rwa [hinput] at hscan
  | case2 z pause z' hz hfull =>
      obtain ⟨rfl, rfl⟩ : z.inflateWindow.1 = pause ∧ z.inflateWindow.2 = z' := by rw [hz]; exact ⟨rfl, rfl⟩
      exact Inflater.scan_of_run_eq_starved h

theorem inflate_eq_of_corrupt {z : Inflating} {f : Inflater} (hinput : z.inflater.input = f.input)
    (hf : Leads f.input z.inflater.decoding f.decoding) (hphase : f.phase = .header)
    (hscan : Phase.scan f.last .header f.input f.pos = .error .corrupt) (hsize : f.output.size < window)
    (atEnd : Bool) (target : Nat) : (z.inflate atEnd target).1 = .corrupt := by
  rw [← hinput] at hf hscan
  have hlast : f.decoding.next? z.inflater.input = none := by
    refine next?_of_scan_error (e := .corrupt) ?_ ?_ ?_
    · intro byte next hliteral
      cases hphase.symm.trans hliteral
    · intro left distance next hcopying
      cases hphase.symm.trans hcopying
    · rw [show f.decoding.phase = .header from hphase]
      exact hscan
  obtain ⟨hdecoding, hfull⟩ := inflate_of_leads hf hlast hsize atEnd target
  cases hpause : (z.inflate atEnd target).1 with
  | full => exact absurd hpause hfull
  | starved =>
      have hstarved := scan_of_inflate_eq_starved hpause
      have hpos : (z.inflate atEnd target).2.inflater.pos = f.pos := congrArg Decoding.pos hdecoding
      have hlast' : (z.inflate atEnd target).2.inflater.last = f.last := congrArg Decoding.last hdecoding
      have hphase' : (z.inflate atEnd target).2.inflater.phase = f.phase := congrArg Decoding.phase hdecoding
      rw [hpos, hlast', hphase', hphase, hscan] at hstarved
      cases hstarved
  | ended =>
      have hended : f.decoding.phase = .ended := by
        rw [← hdecoding]
        exact (runsTo_inflate atEnd target z).ended hpause
      cases hphase.symm.trans hended
  | corrupt => rfl

/-! ### One step at a time -/

theorem supply_of_eq_zero {z : Inflating} (h : z.unused = 0) (s : σ) :
    supply reader (z, s) = refill reader (z, s) := if_pos h

theorem supply_of_ne_zero {z : Inflating} (h : z.unused ≠ 0) (s : σ) :
    supply reader (z, s) = (.ok z.unused, z, s) := if_neg h

section Supply

variable {z : Inflating} {s s' : σ} {b : ByteArray} (hunused : z.unused = 0)
  (hwanted : min chunk z.range.remaining ≠ 0)
  (hread : reader.readAt z.range.pos (min chunk z.range.remaining) s = (.ok b, s'))

include hunused hwanted hread

theorem supply_of_readAt_ok (hb : b.size ≠ 0) : supply reader (z, s) = (.ok b.size,
    ⟨⟨z.range.pos + b.size, z.range.stop⟩, z.inflater.feed b, b.size, z.delivered, z.failure⟩, s') := by
  rw [supply_of_eq_zero hunused]
  simp only [refill, Range.read, if_neg hwanted, hread, if_neg hb, hunused, Nat.zero_add]

theorem supply_of_readAt_end (hb : b.size = 0) :
    supply reader (z, s) = (.error (.truncatedEntry z.range.pos), z, s') := by
  rw [supply_of_eq_zero hunused]
  simp only [refill, Range.read, if_neg hwanted, hread, if_pos hb]

end Supply

theorem decompress_of_done {length : Nat} {t : Inflating × σ} {pause : Pause} {z : Inflating}
    (hz : t.1.inflate (decide (t.1.unused = 0)) (t.1.delivered + length) = (pause, z))
    (hpause : pause = .full ∨ pause = .ended) : decompress reader length t = (.ok (), z, t.2) := by
  rw [decompress]
  split
  all_goals
    rename_i hz'
    rw [hz] at hz'
    cases hz'
  · rfl
  · rfl
  · rcases hpause with h | h <;> cases h
  · rcases hpause with h | h <;> cases h

theorem decompress_of_corrupt {length : Nat} {t : Inflating × σ} {z : Inflating}
    (hz : t.1.inflate (decide (t.1.unused = 0)) (t.1.delivered + length) = (.corrupt, z)) :
    decompress reader length t = fail .corrupt (z, t.2) := by
  rw [decompress]
  split
  all_goals
    rename_i hz'
    rw [hz] at hz'
    cases hz'
  rfl

theorem decompress_of_starved {length : Nat} {t : Inflating × σ} {z : Inflating}
    (hz : t.1.inflate (decide (t.1.unused = 0)) (t.1.delivered + length) = (.starved, z)) :
    decompress reader length t =
      if z.ready ≠ 0 ∨ length = 0 then
        (.ok (), { z with failure := if t.1.unused = 0 then some .incomplete else z.failure }, t.2)
      else match refill reader (z, t.2) with
        | (.error e, t') => (.error e, t')
        | (.ok n, t') => if n = 0 then fail .incomplete t' else decompress reader length t' := by
  rw [decompress]
  split
  all_goals
    rename_i hz'
    rw [hz] at hz'
    cases hz'
  simp only [decide_eq_true_eq]
  split
  · rfl
  · split
    · rename_i href
      rw [href]
    · rename_i href
      rw [href]

section Read

variable {length n : Nat} {t : Inflating × σ} {z : Inflating} {s : σ} (hsupply : supply reader t = (.ok n, z, s))
  (hfailure : z.failure = none) (hready : z.ready = 0) (hunused : z.unused ≠ 0)

include hsupply hfailure hready hunused

/-- A read that has nothing to hand over before it decompresses what was supplied. -/
theorem read_of_inflate {z' : Inflating} {pause : Pause}
    (hz : z.inflate false (z.delivered + length) = (pause, z'))
    (hpause : pause = .ended ∨ pause = .starved ∧ z'.ready ≠ 0) :
    read reader length t = deliver length (z', s) := by
  have hatEnd : decide (z.unused = 0) = false := decide_eq_false hunused
  have hprepare : prepare reader length (z, s) = (.ok (), z', s) := by
    simp only [prepare, hfailure, if_pos hready]
    rcases hpause with rfl | ⟨rfl, hready'⟩
    · exact decompress_of_done (t := (z, s)) (by rw [hatEnd]; exact hz) (.inr rfl)
    · rw [decompress_of_starved (t := (z, s)) (by rw [hatEnd]; exact hz), if_pos (.inl hready'),
        if_neg hunused]
  rw [read, Action.bind_ok hsupply, Action.bind_ok hprepare]

theorem read_of_corrupt (hz : (z.inflate false (z.delivered + length)).1 = .corrupt) :
    ∃ z', read reader length t = (.error .corruptDeflate, z', s) := by
  have hatEnd : decide (z.unused = 0) = false := decide_eq_false hunused
  obtain ⟨z', hz'⟩ : ∃ z', z.inflate false (z.delivered + length) = (.corrupt, z') := ⟨_, Prod.ext hz rfl⟩
  have hprepare : prepare reader length (z, s) = fail .corrupt (z', s) := by
    simp only [prepare, hfailure, if_pos hready]
    exact decompress_of_corrupt (t := (z, s)) (by rw [hatEnd]; exact hz')
  refine ⟨{ z' with failure := some .corrupt }, ?_⟩
  rw [read, Action.bind_ok hsupply]
  exact Action.bind_error hprepare

end Read

/-! ### What a read can fail for -/

/-- The decompression of `w` gets stuck within the windows that `target` bytes of output reach into. -/
def FallsShort (w : ByteArray) (target : Nat) : Prop :=
  ∃ q, Leads w .initial q ∧ IsStuck w q ∧ ∀ k, target ≤ window * k → q.output.size ≤ window * k

theorem not_fallsShort_of_completes (h : Completes w) (target : Nat) : ¬ FallsShort w target := by
  rintro ⟨q, hq, hstuck, -⟩
  exact h.not_isStuck hq hstuck

/-- With more than one window of output, nothing goes wrong in the first one. -/
theorem not_fallsShort_of_isOutput {b : ByteArray} (h : IsOutput w b) (hb : window < b.size) {target : Nat}
    (htarget : target ≤ window) : ¬ FallsShort w target := by
  rintro ⟨q, hq, hstuck, hle⟩
  have hsize := h.size_le hq hstuck.1
  have hwindow := hle 1 (by omega)
  omega

/-! ### The invariant -/

/-- The decompression has been given a start of `w` and stands on its sequence of steps. If it has used all
the bytes that it was given, it needs more to go on, or there was none among them that it did not need. -/
structure Tracks (w : ByteArray) (r : Range) (z : Inflating) : Prop where
  size_le : z.inflater.input.size ≤ w.size
  input_eq : z.inflater.input = slice w 0 z.inflater.input.size
  range_eq : z.range = r.drop z.inflater.input.size
  leads : Leads w .initial z.inflater.decoding
  delivered_le : z.delivered ≤ z.inflater.output.size
  isIdle : z.unused = 0 → IsIdle z.inflater
  isSpent : z.unused = 0 → IsSpent z.inflater

theorem tracks_ofRange (w : ByteArray) (r : Range) : Tracks w r (ofRange r) where
  size_le := Nat.zero_le _
  input_eq := (slice_zero w 0).symm
  range_eq := rfl
  leads := .refl
  delivered_le := Nat.le_refl 0
  isIdle _ := .inl rfl
  isSpent _ := .inr (Nat.sub_eq_zero_of_le (Nat.zero_le _))

theorem Tracks.exists_append {z : Inflating} (h : Tracks w r z) : ∃ more, z.inflater.input ++ more = w :=
  ⟨_, append_slice_of_eq_slice h.input_eq h.size_le⟩

theorem Tracks.leads_append {z : Inflating} (h : Tracks w r z) {q : Decoding}
    (hq : Leads z.inflater.input z.inflater.decoding q) : Leads w z.inflater.decoding q := by
  obtain ⟨more, hmore⟩ := h.exists_append
  rw [← hmore]
  exact hq.append more

/-- All the bytes of the range have been read. -/
def HasAll (w : ByteArray) (z : Inflating) : Prop := z.inflater.input.size = w.size

theorem Tracks.input_eq_of_hasAll {z : Inflating} (h : Tracks w r z) (hall : HasAll w z) :
    z.inflater.input = w := by
  have hinput := h.input_eq
  rwa [hall, slice_of_size_le (Nat.le_refl _)] at hinput

/-- `z'` is where a decompression may come to from `z` before anything more is handed over. -/
structure Follows (w : ByteArray) (r : Range) (z z' : Inflating) : Prop where
  tracks : Tracks w r z'
  leads : Leads w z.inflater.decoding z'.inflater.decoding
  delivered_eq : z'.delivered = z.delivered

theorem Follows.trans {z z' z'' : Inflating} (h : Follows w r z z') (h' : Follows w r z' z'') :
    Follows w r z z'' :=
  ⟨h'.tracks, h.leads.trans h'.leads, h'.delivered_eq.trans h.delivered_eq⟩

theorem Tracks.follows_inflate {z : Inflating} (hz : Tracks w r z) (atEnd : Bool) (target : Nat) :
    Follows w r z (z.inflate atEnd target).2 := by
  have hrun := runsTo_inflate atEnd target z
  have hleads := hz.leads_append hrun.leads
  have hdelivered : (z.inflate atEnd target).2.delivered = z.delivered := by rw [inflate_eq]
  obtain ⟨added, hadded⟩ := exists_append_of_leads hleads
  have hsize := congrArg ByteArray.size hadded
  rw [ByteArray.size_append] at hsize
  simp only [Inflater.decoding] at hsize
  have hle := hz.delivered_le
  refine ⟨?_, hleads, hdelivered⟩
  exact {
    size_le := by rw [hrun.input_eq]; exact hz.size_le
    input_eq := by rw [hrun.input_eq]; exact hz.input_eq
    range_eq := by rw [range_inflate, hrun.input_eq]; exact hz.range_eq
    leads := hz.leads.trans hleads
    delivered_le := by omega
    isIdle := fun _ => hrun.isIdle
    isSpent := isSpent_inflate }

/-- A computation has led on from `z` to where `post` holds; only `fault` makes it fail, or note that the
decompression has failed. -/
def Ends {α : Type} (w : ByteArray) (r : Range) (z : Inflating) (fault : Prop)
    (post : Inflating → α → Prop) : Except IoError α × Inflating × σ → Prop
  | (.ok a, z', _) => Follows w r z z' ∧ (z'.failure = z.failure ∨ fault) ∧ post z' a
  | (.error e, _, _) => ¬ e.IsInterruption ∧ fault

theorem Follows.ends {α : Type} {fault fault' : Prop} {post : Inflating → α → Prop} {z z' : Inflating}
    (h : Follows w r z z') (hfailure : z'.failure = z.failure ∨ fault) (hfault : fault' → fault) :
    ∀ {result : Except IoError α × Inflating × σ}, Ends w r z' fault' post result →
      Ends w r z fault post result
  | (.ok _, _, _), ⟨hfollows, hfailure', hpost⟩ => by
      refine ⟨h.trans hfollows, ?_, hpost⟩
      rcases hfailure' with hfailure' | hfault'
      · rwa [hfailure']
      · exact .inr (hfault hfault')
  | (.error _, _, _), ⟨hcalm, hfault'⟩ => ⟨hcalm, hfault hfault'⟩

theorem Tracks.follows_feed {z : Inflating} (hz : Tracks w r z) {b : ByteArray}
    (hb : b = slice w z.inflater.input.size b.size) (hle : z.inflater.input.size + b.size ≤ w.size) :
    Follows w r z { z with
      range := r.drop (z.inflater.input.size + b.size)
      inflater := z.inflater.feed b
      unused := z.unused + b.size } := by
  have hsize : (z.inflater.feed b).input.size = z.inflater.input.size + b.size := ByteArray.size_append
  refine ⟨?_, .refl, rfl⟩
  exact {
    size_le := by rw [hsize]; exact hle
    input_eq := by
      rw [hsize, ← slice_append_slice, Nat.zero_add, ← hb, ← hz.input_eq]
      rfl
    range_eq := by rw [hsize]
    leads := hz.leads
    delivered_le := hz.delivered_le
    isIdle := by
      intro hnone
      obtain ⟨hunused, hempty⟩ := Nat.add_eq_zero_iff.1 hnone
      rw [ByteArray.size_eq_zero_iff.1 hempty, Inflater.feed_empty]
      exact hz.isIdle hunused
    isSpent := by
      intro hnone
      obtain ⟨hunused, hempty⟩ := Nat.add_eq_zero_iff.1 hnone
      rw [ByteArray.size_eq_zero_iff.1 hempty, Inflater.feed_empty]
      exact hz.isSpent hunused }

theorem ends_refill (h : Range.Carries reader w r) {z : Inflating} (hz : Tracks w r z) (s : σ) :
    Ends w r z (HasAll w z ∧ w.size < r.remaining)
      (fun z' n => z'.failure = z.failure ∧ z'.inflater.output = z.inflater.output ∧
        if n = 0 then HasAll w z ∧ HasAll w z' else z'.unused ≠ 0)
      (refill reader (z, s)) := by
  obtain ⟨result, r', s', hread, houtcome⟩ := Range.outcome_of_carries h hz.size_le
    (show 0 < chunk by decide) s
  rw [← hz.range_eq] at hread
  simp only [refill, hread]
  cases houtcome with
  | atEnd hk hwhole =>
      have hempty : ByteArray.empty = slice w z.inflater.input.size 0 := (slice_zero w _).symm
      exact ⟨hz.follows_feed hempty hz.size_le, .inl rfl, rfl, rfl, hk, ByteArray.size_append.trans hk⟩
  | cutOff hk hcut =>
      refine ⟨fun hinterruption => ?_, hk, hcut⟩
      cases hinterruption
  | piece b hb heq hle =>
      refine ⟨hz.follows_feed heq hle, .inl rfl, rfl, rfl, ?_⟩
      simp only [if_neg hb]
      omega

/-- If no bytes are unused, none are left to read. -/
def IsSupplied (w : ByteArray) (z : Inflating) : Prop := z.unused = 0 → HasAll w z

/-- The range is cut off, and what there is of it was used: either to its last byte or to no avail, and
before a first window was put out, unless nothing more comes out of it. -/
structure IsCut (w : ByteArray) (r : Range) (z : Inflating) : Prop where
  size_lt : w.size < r.remaining
  isIdle : z.inflater.decoding.next? w = none ∨ window ≤ z.inflater.output.size
  isSpent : IsStuck w z.inflater.decoding ∨ 8 * w.size ≤ z.inflater.pos + 7

theorem Tracks.isCut {z : Inflating} (hz : Tracks w r z) (hunused : z.unused = 0) (hall : HasAll w z)
    (hcut : w.size < r.remaining) : IsCut w r z := by
  have hidle := hz.isIdle hunused
  have hspent := hz.isSpent hunused
  rw [IsIdle, hz.input_eq_of_hasAll hall] at hidle
  rw [IsSpent, Inflater.untouched, hz.input_eq_of_hasAll hall] at hspent
  exact ⟨hcut, hidle, hspent.imp_right fun hnone => by omega⟩

/-- Where bytes are left over, a decompression has done with them before they are used up. -/
theorem Tracks.not_isCut_of_leavesOver {z : Inflating} (hz : Tracks w r z) (hw : LeavesOver w) :
    ¬ IsCut w r z := by
  rintro ⟨-, -, hstuck | hpos⟩
  · exact hw.completes.not_isStuck hz.leads hstuck
  · have hlt := hw.pos_lt hz.leads
    exact Nat.not_lt.2 hpos hlt

theorem ends_supply (h : Range.Carries reader w r) {z : Inflating} (hz : Tracks w r z) (s : σ) :
    Ends w r z (IsCut w r z) (fun z' _ => IsSupplied w z') (supply reader (z, s)) := by
  by_cases hunused : z.unused = 0
  · have hrefill := ends_refill h hz s
    simp only [supply, if_pos hunused]
    cases hr : refill reader (z, s) with
    | mk result t =>
        rw [hr] at hrefill
        cases result with
        | error e =>
            obtain ⟨hcalm, hall, hcut⟩ := hrefill
            exact ⟨hcalm, hz.isCut hunused hall hcut⟩
        | ok n =>
            obtain ⟨hfollows, -, hfailure, -, hpost⟩ := hrefill
            refine ⟨hfollows, .inl hfailure, fun hnone => ?_⟩
            split at hpost
            · exact hpost.2
            · exact absurd hnone hpost
  · simp only [supply, if_neg hunused]
    exact ⟨⟨hz, .refl, rfl⟩, .inl rfl, fun hnone => absurd hnone hunused⟩

/-- There is something to hand over, or the stream is at its end. -/
def IsReady (z : Inflating) : Prop := z.ready ≠ 0 ∨ z.inflater.phase = .ended

/-- An inflater that has starved on all the bytes is stuck. -/
theorem Tracks.isStuck_of_starved {z : Inflating} (hz : Tracks w r z) {atEnd : Bool} {target : Nat}
    (h : (z.inflate atEnd target).1 = .starved) (hall : HasAll w z) :
    IsStuck w (z.inflate atEnd target).2.inflater.decoding := by
  have hstuck := (runsTo_inflate atEnd target z).starved h
  rwa [hz.input_eq_of_hasAll hall] at hstuck

theorem Tracks.isStuck_of_corrupt {z : Inflating} (hz : Tracks w r z) {atEnd : Bool} {target : Nat}
    (h : (z.inflate atEnd target).1 = .corrupt) :
    IsStuck w (z.inflate atEnd target).2.inflater.decoding := by
  obtain ⟨more, hmore⟩ := hz.exists_append
  have hstuck := (runsTo_inflate atEnd target z).corrupt h more
  rwa [hmore] at hstuck

/-- Only as much is decompressed as the windows hold that are asked for. -/
theorem Tracks.fallsShort {z : Inflating} (hz : Tracks w r z) (hready : z.ready = 0) {length : Nat}
    (hlength : length ≠ 0) {atEnd : Bool}
    (hstuck : IsStuck w (z.inflate atEnd (z.delivered + length)).2.inflater.decoding) :
    FallsShort w (z.delivered + length) := by
  have hlt : z.inflater.output.size < z.delivered + length := by
    unfold ready at hready
    omega
  exact ⟨_, (hz.follows_inflate _ _).tracks.leads, hstuck, fun k hk => size_inflate_le atEnd hlt hk⟩

theorem Tracks.isReady_of_full {z : Inflating} (hz : Tracks w r z) {atEnd : Bool} {target : Nat}
    (h : (z.inflate atEnd target).1 = .full) : IsReady (z.inflate atEnd target).2 := by
  have hgrown := ((runsTo_inflate atEnd target z).full h).1
  have hdelivered := (hz.follows_inflate atEnd target).delivered_eq
  have hle := hz.delivered_le
  refine .inl ?_
  unfold ready
  omega

theorem ends_decompress (h : Range.Carries reader w r) {length : Nat} (hlength : length ≠ 0)
    (t : Inflating × σ) (ht : Tracks w r t.1) (hready : t.1.ready = 0) (hsupplied : IsSupplied w t.1) :
    Ends w r t.1 (FallsShort w (t.1.delivered + length)) (fun z' _ => IsReady z')
      (decompress reader length t) := by
  fun_induction decompress reader length t with
  | case1 t atEnd z hz =>
      obtain rfl : (t.1.inflate atEnd (t.1.delivered + length)).2 = z := by rw [hz]
      refine ⟨ht.follows_inflate _ _, .inl (by rw [inflate_eq]), ht.isReady_of_full (by rw [hz])⟩
  | case2 t atEnd z hz =>
      obtain rfl : (t.1.inflate atEnd (t.1.delivered + length)).2 = z := by rw [hz]
      exact ⟨ht.follows_inflate _ _, .inl (by rw [inflate_eq]),
        .inr ((runsTo_inflate _ _ _).ended (by rw [hz]))⟩
  | case3 t atEnd z hz =>
      have hstuck := ht.isStuck_of_corrupt (congrArg Prod.fst hz)
      exact ⟨Failure.not_isInterruption_toIoError _, ht.fallsShort hready hlength hstuck⟩
  | case4 t atEnd z hz hgot =>
      obtain rfl : (t.1.inflate atEnd (t.1.delivered + length)).2 = z := by rw [hz]
      have hfollows := ht.follows_inflate atEnd (t.1.delivered + length)
      refine ⟨⟨{ hfollows.tracks with }, hfollows.leads, hfollows.delivered_eq⟩, ?_,
        .inl (hgot.resolve_right hlength)⟩
      by_cases hend : t.1.unused = 0
      · exact .inr (ht.fallsShort hready hlength
          (ht.isStuck_of_starved (congrArg Prod.fst hz) (hsupplied hend)))
      · have hnot : ¬ atEnd = true := by simpa only [atEnd, decide_eq_true_eq] using hend
        refine .inl ((if_neg hnot).trans ?_)
        rw [inflate_eq]
  | case5 t atEnd z hz hgot e t' href =>
      obtain rfl : (t.1.inflate atEnd (t.1.delivered + length)).2 = z := by rw [hz]
      have hrefill := ends_refill h (ht.follows_inflate atEnd (t.1.delivered + length)).tracks t.2
      rw [href] at hrefill
      obtain ⟨hcalm, hall, -⟩ := hrefill
      rw [HasAll, (runsTo_inflate _ _ _).input_eq] at hall
      exact ⟨hcalm, ht.fallsShort hready hlength (ht.isStuck_of_starved (congrArg Prod.fst hz) hall)⟩
  | case6 t atEnd z hz hgot t' href =>
      obtain rfl : (t.1.inflate atEnd (t.1.delivered + length)).2 = z := by rw [hz]
      have hrefill := ends_refill h (ht.follows_inflate atEnd (t.1.delivered + length)).tracks t.2
      rw [href] at hrefill
      obtain ⟨-, -, -, -, hall, -⟩ := hrefill
      rw [HasAll, (runsTo_inflate _ _ _).input_eq] at hall
      exact ⟨Failure.not_isInterruption_toIoError _,
        ht.fallsShort hready hlength (ht.isStuck_of_starved (congrArg Prod.fst hz) hall)⟩
  | case7 t atEnd z hz hgot n t' href hn ih =>
      obtain rfl : (t.1.inflate atEnd (t.1.delivered + length)).2 = z := by rw [hz]
      have hfollows := ht.follows_inflate atEnd (t.1.delivered + length)
      have hrefill := ends_refill h hfollows.tracks t.2
      rw [href] at hrefill
      obtain ⟨hrefilled, -, hfailure, houtput, hpost⟩ := hrefill
      simp only [if_neg hn] at hpost
      have hready' : t'.1.ready = 0 := by
        rw [ready, houtput, hrefilled.delivered_eq]
        exact Decidable.of_not_not fun hne => hgot (.inl hne)
      have hfollows' := hfollows.trans hrefilled
      refine hfollows'.ends (.inl ?_) (fun hfault => ?_)
        (ih hrefilled.tracks hready' fun hnone => absurd hnone hpost)
      · rw [hfailure, inflate_eq]
      · rwa [hfollows'.delivered_eq] at hfault

theorem ends_prepare (h : Range.Carries reader w r) {length : Nat} (hlength : length ≠ 0) {z : Inflating}
    (hz : Tracks w r z) (hsupplied : IsSupplied w z) (s : σ) :
    Ends w r z (z.failure ≠ none ∨ FallsShort w (z.delivered + length)) (fun z' _ => IsReady z')
      (prepare reader length (z, s)) := by
  cases hfailure : z.failure with
  | some f =>
      simp only [prepare, hfailure]
      exact ⟨f.not_isInterruption_toIoError, .inl (Option.some_ne_none f)⟩
  | none =>
      simp only [prepare, hfailure]
      by_cases hready : z.ready = 0
      · rw [if_pos hready]
        exact Follows.ends ⟨hz, .refl, rfl⟩ (.inl rfl) .inr
          (ends_decompress h hlength (z, s) hz hready hsupplied)
      · rw [if_neg hready]
        exact ⟨⟨hz, .refl, rfl⟩, .inl rfl, .inl hready⟩

/-! ### Reading -/

/-- What was handed over is the start of the output. -/
def HandedOver (got : ByteArray) (z : Inflating) : Prop :=
  z.delivered = got.size ∧ got = slice z.inflater.output 0 got.size

/-- The output only grows after bytes of it were handed over. -/
theorem HandedOver.of_follows {got : ByteArray} {z z' : Inflating} (h : HandedOver got z)
    (hz : Tracks w r z) (hfollows : Follows w r z z') : HandedOver got z' := by
  obtain ⟨added, hadded⟩ := exists_append_of_leads hfollows.leads
  refine ⟨hfollows.delivered_eq.trans h.1, ?_⟩
  have hle : 0 + got.size ≤ z.inflater.output.size := by
    have := hz.delivered_le
    have := h.1
    omega
  rw [show z'.inflater.output = z.inflater.output ++ added from hadded, slice_append_left added hle]
  exact h.2

theorem Tracks.isWholeOutput {z : Inflating} (hz : Tracks w r z) {got : ByteArray}
    (hgot : HandedOver got z) (hended : z.inflater.phase = .ended) (hready : z.ready = 0) :
    IsWholeOutput w got := by
  have hall : z.inflater.output.size ≤ got.size := by
    rw [← hgot.1]
    exact Nat.le_of_sub_eq_zero hready
  refine ⟨z.inflater.decoding, hz.leads, hended, ?_⟩
  calc z.inflater.output = slice z.inflater.output 0 got.size := (slice_of_size_le hall).symm
    _ = got := hgot.2.symm

/-- What makes a read of `length` bytes fail: an earlier failure, a range that is cut off, or bytes that do
not decompress. -/
def IsAtFault (w : ByteArray) (r : Range) (length : Nat) (z : Inflating) : Prop :=
  z.failure ≠ none ∨ IsCut w r z ∨ FallsShort w (z.delivered + length)

/-- Where a read of `length` bytes that gives `b` leads to from `z`, with `got` handed over before: `b` is
the next part of the output, and empty only at the end. -/
structure Delivers (w : ByteArray) (r : Range) (length : Nat) (z : Inflating) (got b : ByteArray)
    (z' : Inflating) : Prop where
  tracks : Tracks w r z'
  handedOver : HandedOver (got ++ b) z'
  isWholeOutput : b.size = 0 → IsWholeOutput w got
  ready_eq : b.size < length → z'.ready = 0
  failure_eq : z'.failure = z.failure ∨ IsAtFault w r length z

theorem Tracks.deliver {z z₁ : Inflating} (hz : Tracks w r z₁) {length : Nat} (hlength : length ≠ 0)
    {got : ByteArray} (hgot : HandedOver got z₁) (hready : IsReady z₁)
    (hfailure : z₁.failure = z.failure ∨ IsAtFault w r length z) (s : σ) :
    ∃ b z', deliver length (z₁, s) = (.ok b, z', s) ∧ Delivers w r length z got b z' := by
  have hsize : (slice z₁.inflater.output z₁.delivered length).size = min length z₁.ready := size_slice _ _ _
  have hle := hz.delivered_le
  have happend := ByteArray.size_append (a := got) (b := slice z₁.inflater.output z₁.delivered length)
  have hdelivered := hgot.1
  unfold ready at hsize
  refine ⟨slice z₁.inflater.output z₁.delivered length, _, rfl, ?_⟩
  exact {
    tracks := { hz with delivered_le := by simp only; omega }
    handedOver := by
      refine ⟨?_, ?_⟩
      · simp only
        omega
      · rw [happend, ← slice_append_slice, ← hgot.2, Nat.zero_add, ← hdelivered, slice_size_slice]
    isWholeOutput := fun hzero => by
      have hnone : z₁.ready = 0 := by
        unfold ready
        omega
      exact hz.isWholeOutput hgot (hready.resolve_left (Decidable.not_not.2 hnone)) hnone
    ready_eq := fun hlt => by
      unfold ready
      simp only
      omega
    failure_eq := hfailure }

/-- A read hands over the next part of the output, or there is a fault. -/
theorem read_cases (h : Range.Carries reader w r) {length : Nat} (hlength : length ≠ 0) {z : Inflating}
    (hz : Tracks w r z) {got : ByteArray} (hgot : HandedOver got z) (s : σ) :
    (∃ b z' s', read reader length (z, s) = (.ok b, z', s') ∧ Delivers w r length z got b z') ∨
    ∃ e t, read reader length (z, s) = (.error e, t) ∧ ¬ e.IsInterruption ∧ IsAtFault w r length z := by
  have hsupply := ends_supply h hz s
  unfold read
  cases hs : supply reader (z, s) with
  | mk result t =>
      rw [hs] at hsupply
      cases result with
      | error e => exact .inr ⟨e, t, Action.bind_error hs, hsupply.1, .inr (.inl hsupply.2)⟩
      | ok n =>
          obtain ⟨hsupplied, hfailure, hpost⟩ := hsupply
          have hprepare : Ends w r z (IsAtFault w r length z) (fun z' _ => IsReady z')
              (prepare reader length t) := by
            refine hsupplied.ends (hfailure.imp_right fun hcut => .inr (.inl hcut)) ?_
              (ends_prepare h hlength hsupplied.tracks hpost t.2)
            rw [hsupplied.delivered_eq]
            rintro (hfailed | hshort)
            · rcases hfailure with hfailure | hcut
              · rw [hfailure] at hfailed
                exact .inl hfailed
              · exact .inr (.inl hcut)
            · exact .inr (.inr hshort)
          rw [Action.bind_ok hs]
          cases hp : prepare reader length t with
          | mk result t' =>
              rw [hp] at hprepare
              cases result with
              | error e => exact .inr ⟨e, t', Action.bind_error hp, hprepare⟩
              | ok u =>
                  obtain ⟨hprepared, hfailure', hready⟩ := hprepare
                  have hgot' := hgot.of_follows hz hprepared
                  obtain ⟨b, z', hdeliver, hdelivers⟩ :=
                    hprepared.tracks.deliver hlength hgot' hready hfailure' t'.2
                  rw [Action.bind_ok hp]
                  exact .inl ⟨b, z', t'.2, hdeliver, hdelivers⟩

end Inflating

end DexArchive.Deflate
