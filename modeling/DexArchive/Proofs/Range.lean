import DexArchive.Range
import DexArchive.Proofs.Serving

/-! Reading a range. The bytes of a source that fall into a range are what the range carries; they are
fewer than its length if the source ends before it. -/

namespace DexArchive

namespace Range

variable {σ : Type} {reader : Reader σ}

/-- The range without its first `k` bytes. -/
def drop (r : Range) (k : Nat) : Range := { r with pos := r.pos + k }

/-- The reader answers reads in the range with bytes of `w`, the bytes from the start of the range on. -/
structure Carries (reader : Reader σ) (w : ByteArray) (r : Range) : Prop where
  size_le : w.size ≤ r.remaining
  answers : ∀ k length, 0 < length → k + length ≤ r.remaining → ∀ s, ∃ b s',
    reader.readAt (r.pos + k) length s = (.ok b, s') ∧ IsPiece w k length b

theorem isPiece_of_slice {d b : ByteArray} {start total k length : Nat} (hle : k + length ≤ total)
    (h : IsPiece d (start + k) length b) : IsPiece (slice d start total) k length b where
  eq_slice := by
    rw [slice_slice, Nat.min_eq_left (by have := h.size_le; omega)]
    exact h.eq_slice
  size_le := h.size_le
  stops hb := by
    rw [size_slice]
    have := h.stops hb
    omega

theorem carries_of_answers {d : ByteArray} {r : Range}
    (h : ∀ offset length, offset + length ≤ r.stop → reader.Answers d offset length) :
    Carries reader (slice d r.pos r.remaining) r where
  size_le := size_slice_le d r.pos r.remaining
  answers k length hlength hle s := by
    unfold remaining at hle
    obtain ⟨b, s', hread, hb⟩ := h (r.pos + k) length (by omega) s
    exact ⟨b, s', hread, isPiece_of_slice hle hb⟩

theorem carries_of_gives {d : ByteArray} (h : reader.Gives d) (r : Range) :
    Carries reader (slice d r.pos r.remaining) r :=
  carries_of_answers fun offset length _ => h offset length

theorem carries_of_serves {d : ByteArray} (h : reader.Serves d) (r : Range) :
    Carries reader (slice d r.pos r.remaining) r :=
  carries_of_gives h.gives r

/-- A range within the bytes that a reader holds carries all of its length. -/
theorem carries_of_holds {d : ByteArray} (h : reader.Holds d) {r : Range} (hstop : r.stop ≤ d.size) :
    Carries reader (slice d r.pos r.remaining) r :=
  carries_of_answers fun offset length hle => h.answers offset length (by omega)

/-- How a range of `w` ends: well, or for want of bytes. -/
def ending (w : ByteArray) (r : Range) : Except IoError Unit :=
  if w.size = r.remaining then .ok () else .error (.truncatedEntry (r.pos + w.size))

/-- What a read comes to after `k` bytes of a range were read. -/
inductive Outcome (w : ByteArray) (r : Range) (k : Nat) : Except IoError ByteArray → Range → Prop
  | atEnd (hk : k = w.size) (hwhole : w.size = r.remaining) : Outcome w r k (.ok .empty) (r.drop k)
  | cutOff (hk : k = w.size) (hcut : w.size < r.remaining) :
    Outcome w r k (.error (.truncatedEntry (r.pos + k))) (r.drop k)
  | piece (b : ByteArray) (hb : b.size ≠ 0) (heq : b = slice w k b.size) (hle : k + b.size ≤ w.size) :
    Outcome w r k (.ok b) (r.drop (k + b.size))

theorem outcome_of_carries {w : ByteArray} {r : Range} (h : Carries reader w r) {k length : Nat}
    (hk : k ≤ w.size) (hlength : 0 < length) (s : σ) :
    ∃ result r' s', read reader length (r.drop k, s) = (result, r', s') ∧ Outcome w r k result r' := by
  have hsize := h.size_le
  have hremaining : (r.drop k).remaining = r.remaining - k := Nat.sub_add_eq r.stop r.pos k
  simp only [read, hremaining]
  by_cases hend : r.remaining = k
  · refine ⟨_, _, s, if_pos (by omega), .atEnd (by omega) (by omega)⟩
  · rw [if_neg (by omega)]
    obtain ⟨b, s', hread, hpiece⟩ := h.answers k (min length (r.remaining - k)) (by omega) (by omega) s
    rw [show (r.drop k).pos = r.pos + k from rfl, hread]
    by_cases hb : b.size = 0
    · have hstop := hpiece.stops hb
      exact ⟨_, _, s', if_pos hb, .cutOff (by omega) (by omega)⟩
    · have hle := hpiece.add_size_le hb
      refine ⟨_, _, s', if_neg hb, ?_⟩
      rw [show ({ r.drop k with pos := r.pos + k + b.size } : Range) = r.drop (k + b.size) by
        rw [drop, drop, Nat.add_assoc]]
      exact .piece b hb hpiece.eq_slice hle

end Range

end DexArchive
