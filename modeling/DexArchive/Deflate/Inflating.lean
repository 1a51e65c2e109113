import DexArchive.Deflate.Inflater
import DexArchive.Range

/-! Decompression of a range of a source while it is read. -/

namespace DexArchive.Deflate

/-- Why a decompression came to nothing: the data are not well formed, or they end too early. -/
inductive Failure where
  | corrupt
  | incomplete
  deriving DecidableEq, Repr

def Failure.toIoError : Failure → IoError
  | corrupt => .corruptDeflate
  | incomplete => .incompleteDeflate

/-- To decompress again would not help. -/
theorem Failure.not_isInterruption_toIoError (f : Failure) : ¬ f.toIoError.IsInterruption := by
  cases f <;> simp [toIoError, IoError.IsInterruption, IoError.kind]

/-- A range of compressed bytes, its decompression as far as it went, how many of the bytes at hand it did
not use yet, how much of the output was handed over, and how the decompression failed, if it did. -/
structure Inflating where
  range : Range
  inflater : Inflater
  unused : Nat
  delivered : Nat
  failure : Option Failure

namespace Inflating

variable {σ : Type}

/-- How many compressed bytes are read at once. -/
def chunk : Nat := 32 * 1024

/-- Output is decompressed in whole windows. -/
def window : Nat := 32 * 1024

def ofRange (range : Range) : Inflating := ⟨range, .initial, 0, 0, none⟩

/-- The output not yet handed over. -/
def ready (z : Inflating) : Nat := z.inflater.output.size - z.delivered

/-- The end of the window that the next byte of output falls into. -/
def windowEnd (f : Inflater) : Nat := window * (f.output.size / window + 1)

theorem size_lt_windowEnd (f : Inflater) : f.output.size < windowEnd f :=
  Nat.lt_mul_div_succ _ (by decide)

/-- Reads more compressed bytes; tells how many, none if the range is at its end. -/
def refill (reader : Reader σ) : Action IoError (Inflating × σ) Nat
  | (⟨range, inflater, unused, delivered, failure⟩, s) =>
    match Range.read reader chunk (range, s) with
    | (.error e, range, s) => (.error e, ⟨range, inflater, unused, delivered, failure⟩, s)
    | (.ok b, range, s) =>
      (.ok b.size, ⟨range, inflater.feed b, unused + b.size, delivered, failure⟩, s)

/-- Decompresses to the end of a window. A starved inflater has used all bytes. -/
def inflateWindow : Inflating → Pause × Inflating
  | ⟨range, inflater, _, delivered, failure⟩ =>
    let (pause, inflater) := inflater.run (windowEnd inflater)
    (pause, ⟨range, inflater, if pause = .starved then 0 else inflater.untouched, delivered, failure⟩)

theorem range_inflateWindow (z : Inflating) : z.inflateWindow.2.range = z.range := rfl

theorem size_lt_of_inflateWindow_eq_full {z : Inflating} (h : z.inflateWindow.1 = .full) :
    z.inflater.output.size < z.inflateWindow.2.inflater.output.size :=
  Nat.lt_of_lt_of_le (size_lt_windowEnd _) (Inflater.le_size_of_run_eq_full h)

/-- Decompresses window after window until `target` bytes are put out. As long as the range is not at its
end, a window is begun only if there are unused bytes for it. -/
def inflate (atEnd : Bool) (target : Nat) (z : Inflating) : Pause × Inflating :=
  match _h : z.inflateWindow with
  | (pause, z') =>
    if pause = .full ∧ z'.inflater.output.size < target ∧ (atEnd ∨ z'.unused ≠ 0) then
      inflate atEnd target z'
    else (pause, z')
termination_by target - z.inflater.output.size
decreasing_by
  rename_i hfull
  have := size_lt_of_inflateWindow_eq_full (z := z) (by rw [_h]; exact hfull.1)
  rw [_h] at this
  simp only at this
  omega

theorem range_inflate (atEnd : Bool) (target : Nat) (z : Inflating) :
    (z.inflate atEnd target).2.range = z.range := by
  fun_induction inflate atEnd target z with
  | case1 z pause z' h hfull ih =>
    rw [ih, ← range_inflateWindow z, h]
  | case2 z pause z' h hfull =>
    rw [← range_inflateWindow z, h]

theorem remaining_refill_lt {reader : Reader σ} {t t' : Inflating × σ} {n : Nat}
    (h : refill reader t = (.ok n, t')) (hn : n ≠ 0) :
    t'.1.range.remaining < t.1.range.remaining := by
  obtain ⟨⟨range, inflater, unused, delivered, failure⟩, s⟩ := t
  simp only [refill] at h
  split at h
  · cases h
  · rename_i b range' s' hread
    cases h
    exact Range.remaining_read_lt hread hn

/-- Notes that decompression failed; it then fails in the same way for good. -/
def fail (f : Failure) : Action IoError (Inflating × σ) Unit
  | (z, s) => (.error f.toIoError, { z with failure := some f }, s)

/-- Decompresses for a read of `length` bytes, until there is output to hand over or the stream is at its
end. Data that turn out not to be well formed spoil all that was decompressed with them. Data that end
too early leave what the read can take. -/
def decompress (reader : Reader σ) (length : Nat) (t : Inflating × σ) :
    Except IoError Unit × Inflating × σ :=
  let atEnd : Bool := t.1.unused = 0
  match _hz : t.1.inflate atEnd (t.1.delivered + length) with
  | (.full, z) | (.ended, z) => (.ok (), z, t.2)
  | (.corrupt, z) => fail .corrupt (z, t.2)
  | (.starved, z) =>
    if z.ready ≠ 0 ∨ length = 0 then
      (.ok (), { z with failure := if atEnd then some .incomplete else z.failure }, t.2)
    else match _h : refill reader (z, t.2) with
      | (.error e, t') => (.error e, t')
      | (.ok n, t') => if n = 0 then fail .incomplete t' else decompress reader length t'
termination_by t.1.range.remaining
decreasing_by
  rename_i hn
  have hlt := remaining_refill_lt _h hn
  have hz := range_inflate atEnd (t.1.delivered + length) t.1
  rw [_hz] at hz
  rwa [show (z, t.2).1 = z from rfl, show z.range = t.1.range from hz] at hlt

/-- Hands over at most `length` bytes of output. -/
def deliver (length : Nat) : Action IoError (Inflating × σ) ByteArray
  | (z, s) =>
    let b := slice z.inflater.output z.delivered length
    (.ok b, { z with delivered := z.delivered + b.size }, s)

/-- Sees to it that there are unused compressed bytes, unless the range is at its end. -/
def supply (reader : Reader σ) : Action IoError (Inflating × σ) Nat
  | t => if t.1.unused = 0 then refill reader t else (.ok t.1.unused, t)

/-- Sees to it that output is ready, unless the stream is at its end. -/
def prepare (reader : Reader σ) (length : Nat) : Action IoError (Inflating × σ) Unit
  | t => match t.1.failure with
    | some f => (.error f.toIoError, t)
    | none => if t.1.ready = 0 then decompress reader length t else (.ok (), t)

/-- Reads at most `length` bytes. If no compressed bytes are left, more of them are read first, even
while output is ready. -/
def read (reader : Reader σ) (length : Nat) : Action IoError (Inflating × σ) ByteArray := do
  let _ ← supply reader
  prepare reader length
  deliver length

theorem size_read_le (reader : Reader σ) (length : Nat) (t : Inflating × σ) (b : ByteArray)
    (h : (read reader length t).1 = .ok b) : b.size ≤ length := by
  obtain ⟨_, t, h⟩ := Action.exists_of_bind_ok h
  obtain ⟨_, t, h⟩ := Action.exists_of_bind_ok h
  cases h
  exact size_slice_le _ _ length

theorem within_refill (reader : Reader σ) :
    Action.Within (fun t => reader.interruptions t.2) (refill reader) := by
  rintro ⟨⟨range, inflater, unused, delivered, failure⟩, s⟩
  have h := Range.within_read reader chunk (range, s)
  simp only [refill]
  split <;> rename_i hread <;> rw [hread] at h <;> exact h

theorem interruptionsIn_toIoError {α : Type} (f : Failure) :
    interruptionsIn (.error f.toIoError : Except IoError α) = 0 :=
  if_neg f.not_isInterruption_toIoError

theorem within_fail (reader : Reader σ) (f : Failure) :
    Action.Within (fun t => reader.interruptions t.2) (fail f) := by
  intro t
  simp [fail, interruptionsIn_toIoError]

theorem within_decompress (reader : Reader σ) (length : Nat) :
    Action.Within (fun t => reader.interruptions t.2) (decompress reader length) := by
  intro t
  fun_induction decompress reader length t with
  | case3 t atEnd z hz => exact within_fail reader .corrupt (z, t.2)
  | case5 t atEnd z hz hready e t' href =>
    have h := within_refill reader (z, t.2)
    rw [href] at h
    exact h
  | case6 t atEnd z hz hready t' href =>
    have h := within_refill reader (z, t.2)
    have hf := within_fail reader .incomplete t'
    rw [href] at h
    simp only [interruptionsIn] at h
    exact Nat.le_trans hf h
  | case7 t atEnd z hz hready n t' href hn ih =>
    have h := within_refill reader (z, t.2)
    rw [href] at h
    simp only [interruptionsIn] at h
    exact Nat.le_trans ih h
  | _ => exact Nat.le_refl _

theorem within_read (reader : Reader σ) (length : Nat) :
    Action.Within (fun t => reader.interruptions t.2) (read reader length) := by
  refine Action.Within.bind (fun t => ?_) fun _ => Action.Within.bind (fun t => ?_) fun _ t =>
    Nat.le_refl _
  · simp only [supply]
    split
    · exact within_refill reader t
    · exact Nat.le_refl _
  · simp only [prepare]
    split
    · simp [interruptionsIn_toIoError]
    · split
      · exact within_decompress reader length t
      · exact Nat.le_refl _

end Inflating

end DexArchive.Deflate
