import DexArchive.Bytes
import DexArchive.Deflate.Block

/-! Decompression that can be paused. An inflater holds the compressed bytes it was given, the position
among their bits, and all that it has put out. It works item by item; an item that the bytes end in is
left for when there are more of them. -/

namespace DexArchive.Deflate

/-- Where in a stream an inflater stands. A literal and a copy are put out before the phase after them. -/
inductive Phase where
  | header
  | stored (left : Nat)
  | coded (literals distances : Code)
  | literal (byte : UInt8) (next : Phase)
  | copying (left distance : Nat) (next : Phase)
  | ended

namespace Phase

/-- The end of a block is the end of the stream if the block is the last one. -/
def afterBlock (last : Bool) : Phase := if last then ended else header

/-- A stored block with `left` bytes to come. -/
def ofStored (last : Bool) (left : Nat) : Phase := if left = 0 then afterBlock last else stored left

/-- Whether the next thing to do in the phase needs room for output. -/
def NeedsRoom : Phase → Prop
  | stored _ | literal .. | copying .. => True
  | header | coded .. | ended => False

instance : DecidablePred NeedsRoom
  | stored _ | literal .. | copying .. => isTrue trivial
  | header | coded .. | ended => isFalse id

/-- What of the phase can be done without more bytes. -/
def pending : Phase → Nat
  | literal _ next => next.pending + 1
  | copying left _ next => next.pending + left + 1
  | header | stored _ | coded .. | ended => 0

end Phase

/-- What scanning one item leads to: the phase after it, and whether the block is the last one. -/
structure Progress where
  phase : Phase
  last : Bool

/-- Scans what a phase expects next. -/
def Phase.scan (last : Bool) : Phase → Scan Progress
  | header => do
    let (last, block) ← blockHeader
    match block with
    | .stored length => return ⟨ofStored last length, last⟩
    | .coded literals distances => return ⟨coded literals distances, last⟩
  | stored left => do
    let byte ← bits 8
    return ⟨literal (.ofNat byte) (ofStored last (left - 1)), last⟩
  | coded literals distances => do
    match ← item literals distances with
    | .literal byte => return ⟨literal byte (coded literals distances), last⟩
    | .copy length distance => return ⟨copying length distance (coded literals distances), last⟩
    | .endOfBlock => return ⟨afterBlock last, last⟩
  | literal .. | copying .. | ended => corrupt

namespace Scan

theorem advances_phase (last : Bool) (phase : Phase) : Advances 1 (phase.scan last) := by
  cases phase with
  | header =>
    refine (advances_blockHeader.bind (n := 0) fun p => ?_).mono (Nat.le_refl 1)
    obtain ⟨last, block⟩ := p
    cases block with
    | stored length => exact advances_pure _
    | coded literals distances => exact advances_pure _
  | stored left => exact ((advances_bits 8).bind fun _ => advances_pure _).mono (by omega)
  | coded literals distances =>
    refine ((advances_item literals distances).bind (n := 0) fun i => ?_).mono (Nat.le_refl 1)
    cases i with
    | literal byte => exact advances_pure _
    | copy length distance => exact advances_pure _
    | endOfBlock => exact advances_pure _
  | literal byte next => exact advances_corrupt 1
  | copying left distance next => exact advances_corrupt 1
  | ended => exact advances_corrupt 1

end Scan

/-- Repeats what was put out `distance` bytes before, `n` times one byte; before the beginning of the
output stand zeros. -/
def repeatBack (distance : Nat) : Nat → ByteArray → ByteArray
  | 0, output => output
  | n + 1, output =>
    repeatBack distance n
      (output.push (if distance ≤ output.size then byteAt output (output.size - distance) else 0))

/-- Why an inflater pauses: there is no room for what comes next, the bytes are used up, the stream is at
its end, or the data are not well formed. -/
inductive Pause where
  | full
  | starved
  | ended
  | corrupt
  deriving DecidableEq, Repr

/-- A paused decompression: the bytes given so far, the position among their bits, what comes there,
whether the block is the last one, and the output so far. -/
structure Inflater where
  input : ByteArray
  pos : Nat
  phase : Phase
  last : Bool
  output : ByteArray
  pos_le : pos ≤ 8 * input.size

namespace Inflater

def initial : Inflater := ⟨.empty, 0, .header, false, .empty, by simp⟩

/-- The inflater with more compressed bytes. -/
def feed (f : Inflater) (bytes : ByteArray) : Inflater :=
  { f with
    input := f.input ++ bytes
    pos_le := by
      have := f.pos_le
      simp only [ByteArray.size_append]
      omega }

/-- The bytes that no item has reached into. -/
def untouched (f : Inflater) : Nat := f.input.size - (f.pos + 7) / 8

/-- Decompresses into room for `limit` bytes, as far as the bytes at hand go. When the room is used up,
everything is done that comes before the next byte of output. -/
def run (limit : Nat) (f : Inflater) : Pause × Inflater :=
  if _hroom : f.phase.NeedsRoom ∧ limit ≤ f.output.size then (.full, f)
  else match _hphase : f.phase with
    | .ended => (.ended, f)
    | .literal byte next => run limit { f with phase := next, output := f.output.push byte }
    | .copying left distance next =>
      let n := min left (limit - f.output.size)
      run limit { f with
        phase := if n = left then next else .copying (left - n) distance next
        output := repeatBack distance n f.output }
    | phase =>
      match hscan : phase.scan f.last f.input f.pos with
      | .error .starved => (.starved, f)
      | .error .corrupt => (.corrupt, f)
      | .ok (progress, pos) =>
        run limit { f with
          pos := pos
          phase := progress.phase
          last := progress.last
          pos_le := (Scan.advances_phase _ _ _ _ _ _ hscan).2 f.pos_le }
termination_by (8 * f.input.size - f.pos, f.phase.pending)
decreasing_by
  · simp only [Prod.lex_def]
    refine .inr ⟨trivial, ?_⟩
    rw [_hphase]
    exact Nat.lt_succ_self _
  · rw [_hphase] at _hroom
    simp only [Phase.NeedsRoom, true_and, Nat.not_le] at _hroom
    simp only [Prod.lex_def]
    refine .inr ⟨trivial, ?_⟩
    rw [_hphase]
    split <;> simp only [Phase.pending] <;> omega
  · obtain ⟨h1, h2⟩ := Scan.advances_phase _ _ _ _ _ _ hscan
    have := h2 f.pos_le
    simp only [Prod.lex_def]
    exact .inl (by omega)

/-- An inflater pauses for want of room only when the room is used up. -/
theorem le_size_of_run_eq_full {limit : Nat} {f : Inflater} (h : (run limit f).1 = .full) :
    limit ≤ (run limit f).2.output.size := by
  fun_induction run limit f <;> simp_all

end Inflater

end DexArchive.Deflate
