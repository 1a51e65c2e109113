import DexArchive.Http.Status
import DexArchive.Reader

/-! Random access to bytes on a server, by requests for ranges of them. -/

namespace DexArchive.Http

/-- What a server says about a resource. -/
structure Head where
  status : Nat
  acceptRanges : Option String
  contentLength : Option Nat

/-- What a server answers to a request for bytes. -/
structure Answer where
  status : Nat
  body : ByteArray

/-- What keeps a request from its answer: that there is no connection, or something else, as a body that
breaks off. -/
inductive Lapse where
  | noConnection
  | other (text : String)
  deriving DecidableEq, Repr

/-- A server for one resource; its head is not to be had if there is no connection. `get first last` asks
for the bytes from the first to the last one. -/
structure Server (σ : Type) where
  head : σ → Option Head × σ
  get : UInt64 → UInt64 → σ → Except Lapse Answer × σ

/-- Why bytes cannot be had from a server. -/
inductive Problem where
  | unreachable (url : String)
  | badStatus (status : Nat)
  | noRanges
  | noLength
  | emptyRange (first last : UInt64)
  | retriesExceeded
  deriving DecidableEq, Repr

/-- A range of bytes in a request. -/
def rangeText (first last : UInt64) : String := s!"bytes={first}-{last}"

def Problem.message : Problem → String
  | unreachable url => s!"error sending request for url ({url})"
  | badStatus status => "HTTP request failed with status: " ++ statusText status
  | noRanges => "Remote server does not support Range requests"
  | noLength => "Remote server did not return Content-Length"
  | emptyRange first last => "Server returned an empty range for " ++ rangeText first last
  | retriesExceeded => "Max retries exceeded"

def Problem.failure (p : Problem) : Failure := .plain p.message

variable {σ : Type}

/-- Whether the value of a header is text: ASCII characters that show, blanks and tabs. -/
def isHeaderText (value : String) : Bool :=
  value.toList.all fun c => c = '\t' || (0x20 ≤ c.toNat && c.toNat < 0x7F)

/-- Whether a server takes requests for ranges of bytes; a header that is no text says nothing. -/
def Head.takesRanges (h : Head) : Bool :=
  match h.acceptRanges with
  | none => false
  | some value => isHeaderText value && 2 ≤ (value.splitOn "bytes").length

/-- What the head of a resource says about its length, if ranges of it can be asked for. -/
def Head.length (h : Head) : Except Problem UInt64 :=
  if ¬IsSuccess h.status then .error (.badStatus h.status)
  else if !h.takesRanges then .error .noRanges
  else match h.contentLength with
    | none => .error .noLength
    | some n => if n < UInt64.size then .ok (.ofNat n) else .error .noLength

/-- Goes on asking until `received` holds `expected` bytes from `offset` on. Of a body no more is taken
than is missing. After `attempts` attempts without a connection it is given up. -/
def fetch (server : Server σ) (attempts : Nat) (offset last : UInt64) (expected failed : Nat)
    (received : ByteArray) (s : σ) : Except Failure ByteArray × σ :=
  if expected ≤ received.size then (.ok received, s)
  else
    let first := offset + .ofNat received.size
    match server.get first last s with
    | (.error .noConnection, s) =>
      if attempts ≤ failed + 1 then (.error Problem.retriesExceeded.failure, s)
      else fetch server attempts offset last expected (failed + 1) received s
    | (.error (.other text), s) => (.error (.plain text), s)
    | (.ok answer, s) =>
      if answer.status ≠ partialContent then (.error (Problem.badStatus answer.status).failure, s)
      else if answer.body.size = 0 then (.error (Problem.emptyRange first last).failure, s)
      else
        fetch server attempts offset last expected failed
          (received ++ slice answer.body 0 (expected - received.size)) s
termination_by (expected - received.size, attempts - failed)
decreasing_by
  · simp only [Prod.lex_def]
    exact .inr ⟨trivial, by omega⟩
  · simp only [Prod.lex_def, ByteArray.size_append, size_slice]
    exact .inl (by omega)

theorem size_fetch (server : Server σ) (attempts : Nat) (offset last : UInt64) (expected failed : Nat)
    (received : ByteArray) (s : σ) (h : received.size ≤ expected) (b : ByteArray)
    (hb : (fetch server attempts offset last expected failed received s).1 = .ok b) :
    b.size = expected := by
  fun_induction fetch server attempts offset last expected failed received s with
  | case1 =>
    cases hb
    omega
  | case2 => cases hb
  | case3 _ _ _ _ _ _ _ _ ih => exact ih h hb
  | case4 => cases hb
  | case5 => cases hb
  | case6 => cases hb
  | case7 failed received s hlt first answer s' hget hstatus hbody ih =>
    refine ih ?_ hb
    simp only [ByteArray.size_append, size_slice]
    omega

theorem not_interruption_fetch (server : Server σ) (attempts : Nat) (offset last : UInt64)
    (expected failed : Nat) (received : ByteArray) (s : σ) :
    interruptionsIn
      ((fetch server attempts offset last expected failed received s).1.mapError Failure.toIoError) = 0 := by
  fun_induction fetch server attempts offset last expected failed received s with
  | case3 _ _ _ _ _ _ _ _ ih => exact ih
  | case7 _ _ _ _ _ _ _ _ _ _ ih => exact ih
  | _ => rfl

/-- The last byte to ask for, in the arithmetic of 64 bits. -/
def lastByte (size offset length : UInt64) : UInt64 := min (offset + length - 1) (size - 1)

/-- How many bytes there are to the last one, in the arithmetic of 64 bits. -/
def expectedLength (size offset length : UInt64) : UInt64 := lastByte size offset length - offset + 1

theorem expectedLength_le (size offset length : UInt64) (h : offset < size) (hpos : 0 < length) :
    expectedLength size offset length ≤ length := by
  have hl := length.toNat_lt
  have ho := offset.toNat_lt
  have hs := size.toNat_lt
  simp only [expectedLength, lastByte, Std.min_eq_if]
  split <;>
    simp only [UInt64.lt_iff_toNat_lt, UInt64.le_iff_toNat_le, UInt64.toNat_add, UInt64.toNat_sub,
      UInt64.reduceToNat, Nat.reducePow, Nat.reduceSub] at * <;>
    omega

/-- Reads from a server that was found to hold `size` bytes. Nothing is asked for beyond them. -/
def readAt (server : Server σ) (attempts : Nat) (size : UInt64) (offset length : Nat) (s : σ) :
    Except Failure ByteArray × σ :=
  if length = 0 ∨ size.toNat ≤ offset then (.ok .empty, s)
  else
    fetch server attempts (.ofNat offset) (lastByte size (.ofNat offset) (.ofNat length))
      (expectedLength size (.ofNat offset) (.ofNat length)).toNat 0 .empty s

def reader (server : Server σ) (attempts : Nat) (size : UInt64) : Reader σ where
  size := size.toNat
  readAt := readAt server attempts size
  interruptions _ := 0
  size_readAt_le offset length s b h := by
    simp only [readAt] at h
    split at h
    · cases h
      simp
    · rename_i hin
      have hsize := size_fetch _ _ _ _ _ _ _ _ (by simp) _ h
      have hmod : (UInt64.ofNat length).toNat = length % 2 ^ 64 := UInt64.toNat_ofNat'
      by_cases hpos : 0 < UInt64.ofNat length
      · have hofs : UInt64.ofNat offset < size := by
          have := size.toNat_lt
          simp only [UInt64.lt_iff_toNat_lt, UInt64.toNat_ofNat']
          omega
        have hle := expectedLength_le size (.ofNat offset) (.ofNat length) hofs hpos
        rw [UInt64.le_iff_toNat_le] at hle
        omega
      · have := (expectedLength size (.ofNat offset) (.ofNat length)).toNat_lt
        simp only [UInt64.lt_iff_toNat_lt, UInt64.toNat_zero] at hpos
        omega
  interruptions_readAt offset length s := by
    simp only [readAt]
    split
    · exact Nat.le_refl 0
    · simp [not_interruption_fetch]

end DexArchive.Http
