import DexArchive.Source

/-! Sources in memory that fail as planned: for trying out what is made of failures, of short reads and
of a wrong length. -/

namespace DexArchive

/-- The sort of a planned failure. -/
inductive Fault.Cause where
  | io (kind : ErrorKind)
  | plain
  | noted (kind : ErrorKind)
  deriving DecidableEq, Repr

def Fault.Cause.failure (text : String) : Fault.Cause → Failure
  | io kind => .io (.external kind text)
  | plain => .plain text
  | noted kind => .noted "while reading" (.io (.external kind text))

/-- The next `left` reads that begin at `first` or beyond it, and before `stop`, fail. -/
structure Fault where
  first : Nat
  stop : Nat
  cause : Fault.Cause
  left : Nat
  deriving DecidableEq, Repr

namespace Fault

def Meets (f : Fault) (offset : Nat) : Prop := f.first ≤ offset ∧ offset < f.stop ∧ 0 < f.left

instance (f : Fault) (offset : Nat) : Decidable (f.Meets offset) :=
  inferInstanceAs (Decidable (_ ∧ _))

def failureAt (f : Fault) (offset : Nat) : Failure :=
  f.cause.failure s!"injected read failure at offset {offset}"

/-- The first of the faults that meets a read, with the faults as they are after it. -/
def strike? (offset : Nat) : List Fault → Option (Fault × List Fault)
  | [] => none
  | f :: rest =>
    if f.Meets offset then some (f, { f with left := f.left - 1 } :: rest)
    else (strike? offset rest).map fun p => (p.1, f :: p.2)

/-- How many interruptions the faults have left. -/
def interruptions (faults : List Fault) : Nat :=
  faults.foldr
    (fun f n => (if f.cause = .io .interrupted ∨ f.cause = .noted .interrupted then f.left else 0) + n) 0

theorem interruptions_strike {offset : Nat} {faults faults' : List Fault} {f : Fault}
    (h : strike? offset faults = some (f, faults')) :
    interruptions faults' +
      interruptionsIn (α := Unit) (.error (f.failureAt offset).toIoError) ≤ interruptions faults := by
  induction faults generalizing faults' with
  | nil => cases h
  | cons g rest ih =>
    simp only [strike?] at h
    split at h
    · rename_i hg
      cases h
      have hleft := hg.2.2
      obtain ⟨first, stop, cause, left⟩ := f
      simp only [interruptions, List.foldr_cons] at *
      cases cause with
      | io kind =>
        by_cases hk : kind = .interrupted <;>
          simp [interruptionsIn, failureAt, Cause.failure, Failure.toIoError, Failure.root?,
            IoError.IsInterruption, IoError.kind, hk]
        omega
      | plain =>
        simp [interruptionsIn, failureAt, Cause.failure, Failure.toIoError, Failure.root?,
          IoError.IsInterruption, IoError.kind]
      | noted kind =>
        by_cases hk : kind = .interrupted <;>
          simp [interruptionsIn, failureAt, Cause.failure, Failure.toIoError, Failure.root?,
            IoError.IsInterruption, IoError.kind, hk]
        omega
    · cases hs : strike? offset rest with
      | none => rw [hs] at h; cases h
      | some p =>
        rw [hs] at h
        cases h
        have := ih hs
        simp only [interruptions, List.foldr_cons] at *
        omega

end Fault

/-- What a planned source remembers: the faults to come, and how many readers were opened and closed. -/
structure Rehearsal where
  faults : List Fault
  opened : Nat
  closed : Nat
  deriving Repr

/-- Bytes in memory with what their readers are to do wrong: a length that is reported, a limit to each
read, and a failure to open. -/
structure FaultyMemory where
  name : String
  data : ByteArray
  size : Option Nat
  maxRead : Option Nat
  openCause : Option Fault.Cause

namespace FaultyMemory

def readAt (m : FaultyMemory) (offset length : Nat) (s : Rehearsal) :
    Except Failure ByteArray × Rehearsal :=
  match Fault.strike? offset s.faults with
  | some (fault, faults) => (.error (fault.failureAt offset), { s with faults := faults })
  | none =>
    let length := match m.maxRead with
      | none => length
      | some most => min most length
    (.ok (slice m.data offset length), s)

def reader (m : FaultyMemory) : Reader Rehearsal where
  size := m.size.getD m.data.size
  readAt := m.readAt
  interruptions s := Fault.interruptions s.faults
  size_readAt_le offset length s b h := by
    simp only [readAt] at h
    split at h
    · cases h
    · cases h
      refine Nat.le_trans (size_slice_le _ _ _) ?_
      split
      · exact Nat.le_refl _
      · omega
  interruptions_readAt offset length s := by
    simp only [readAt]
    split
    · rename_i fault faults h
      exact Fault.interruptions_strike h
    · exact Nat.le_refl _

/-- The source, which counts what it opens and closes. -/
def source (m : FaultyMemory) : Source Rehearsal where
  location := "memory:" ++ m.name
  acquire s :=
    match m.openCause with
    | some cause => (.error (cause.failure "injected open failure"), s)
    | none => (.ok m.reader, { s with opened := s.opened + 1 })
  release s := { s with closed := s.closed + 1 }

end FaultyMemory

end DexArchive
