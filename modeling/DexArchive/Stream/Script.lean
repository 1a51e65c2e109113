import DexArchive.Stream

/-! Streams that follow a script. -/

namespace DexArchive.Stream

/-- What a scripted stream does: hand over bytes, as many as are asked for at a time, or fail. -/
inductive Step where
  | bytes (data : ByteArray)
  | fails (error : IoError)

/-- The rest of a script, and what has been done of it: the number of reads and of bytes. -/
structure Script where
  steps : List Step
  calls : Nat
  consumed : Nat

namespace Script

def ofSteps (steps : List Step) : Script := ⟨steps, 0, 0⟩

/-- One read. What does not fit stays for the next one; bytes of length zero are the end. -/
def read (length : Nat) (s : Script) : Except IoError ByteArray × Script :=
  match s.steps with
  | [] => (.ok .empty, { s with calls := s.calls + 1 })
  | .fails e :: rest => (.error e, { s with steps := rest, calls := s.calls + 1 })
  | .bytes b :: rest =>
    let steps := if b.size ≤ length then rest else .bytes (slice b length b.size) :: rest
    (.ok (slice b 0 length),
      { steps := steps, calls := s.calls + 1, consumed := s.consumed + min length b.size })

end Script

/-- The stream that follows a script. -/
def scripted : Stream Script where
  read := Script.read
  interruptions s := s.steps.length
  size_read_le length s b h := by
    simp only [Script.read] at h
    split at h
    · cases h
      simp
    · cases h
    · cases h
      exact size_slice_le _ 0 length
  interruptions_read_lt length s e h _ := by
    simp only [Script.read] at h ⊢
    split at h
    · cases h
    · simp_all
    · cases h

end DexArchive.Stream
