import DexArchive.Reader

/-! A range of a source's bytes, read in order. -/

namespace DexArchive

/-- The largest number of 64 bits; a range that would end beyond it ends there. -/
def addressMax : Nat := 0xFFFFFFFFFFFFFFFF

/-- Bytes of a source still to be read, from `pos` up to `stop`. -/
structure Range where
  pos : Nat
  stop : Nat
  deriving DecidableEq, Repr

namespace Range

variable {σ : Type}

/-- The range of `length` bytes from `pos` on. -/
def ofLength (pos length : Nat) : Range := ⟨pos, min (pos + length) addressMax⟩

def remaining (r : Range) : Nat := r.stop - r.pos

/-- Reads at most `length` bytes. A source that has none before the range is at its end was cut off. -/
def read (reader : Reader σ) (length : Nat) : Action IoError (Range × σ) ByteArray
  | (r, s) =>
    let wanted := min length r.remaining
    if wanted = 0 then (.ok .empty, r, s)
    else match reader.readAt r.pos wanted s with
      | (.error f, s') => (.error f.toIoError, r, s')
      | (.ok b, s') =>
        if b.size = 0 then (.error (.truncatedEntry r.pos), r, s')
        else (.ok b, { r with pos := r.pos + b.size }, s')

theorem size_read_le (reader : Reader σ) (length : Nat) (t : Range × σ) (b : ByteArray)
    (h : (read reader length t).1 = .ok b) : b.size ≤ length := by
  obtain ⟨r, s⟩ := t
  simp only [read] at h
  split at h
  · cases h
    simp
  · split at h
    · cases h
    · rename_i c s' hread
      split at h
      · cases h
      · cases h
        have := reader.size_readAt_le r.pos (min length r.remaining) s b (by rw [hread])
        omega

theorem remaining_read_lt {reader : Reader σ} {length : Nat} {t t' : Range × σ} {b : ByteArray}
    (h : read reader length t = (.ok b, t')) (hb : b.size ≠ 0) :
    t'.1.remaining < t.1.remaining := by
  obtain ⟨r, s⟩ := t
  simp only [read] at h
  split at h
  · cases h
    simp at hb
  · split at h
    · cases h
    · split at h
      · cases h
      · cases h
        simp only [remaining] at *
        omega

theorem within_read (reader : Reader σ) (length : Nat) :
    Action.Within (fun t => reader.interruptions t.2) (read reader length) := by
  rintro ⟨r, s⟩
  simp only [read]
  split
  · simp [interruptionsIn]
  · have h := reader.interruptions_readAt r.pos (min length r.remaining) s
    split
    · rename_i f s' hread
      rw [hread] at h
      exact h
    · rename_i b s' hread
      rw [hread] at h
      have h : reader.interruptions s' ≤ reader.interruptions s := h
      split
      · simpa [interruptionsIn, IoError.IsInterruption, IoError.kind] using h
      · simpa [interruptionsIn] using h

end Range

end DexArchive
