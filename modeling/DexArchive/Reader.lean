import DexArchive.Bytes
import DexArchive.IoError

/-! Random access to the bytes of a source. A read may fail and may give fewer bytes than were asked
for; what the source remembers between reads is its state. -/

namespace DexArchive

/-- A computation over a state that may fail; the state outlives the failure. -/
abbrev Action (ε σ α : Type) : Type := ExceptT ε (StateM σ) α

/-- One for a failure that can be tried again, nothing otherwise. -/
def interruptionsIn {α : Type} : Except IoError α → Nat
  | .error e => if e.IsInterruption then 1 else 0
  | .ok _ => 0

namespace Action

variable {ε τ α β : Type}

theorem bind_error {p : Action ε τ α} {q : α → Action ε τ β} {t t' : τ} {e : ε}
    (h : p t = (.error e, t')) : (p >>= q) t = (.error e, t') := by
  simp [Bind.bind, ExceptT.bind, ExceptT.bindCont, ExceptT.mk, StateT.bind, h]
  rfl

theorem bind_ok {p : Action ε τ α} {q : α → Action ε τ β} {t t' : τ} {a : α}
    (h : p t = (.ok a, t')) : (p >>= q) t = q a t' := by
  simp [Bind.bind, ExceptT.bind, ExceptT.bindCont, ExceptT.mk, StateT.bind, h]

/-- What a sequence gives, its second part gives. -/
theorem exists_of_bind_ok {p : Action ε τ α} {q : α → Action ε τ β} {t : τ} {b : β}
    (h : ((p >>= q) t).1 = .ok b) : ∃ a t', (q a t').1 = .ok b := by
  cases hp : p t with
  | mk r t' =>
    cases r with
    | error e => rw [bind_error hp] at h; cases h
    | ok a => rw [bind_ok hp] at h; exact ⟨a, t', h⟩

/-- The computation leaves `bound` above the interruptions still to come, where it was so before. -/
def Within (bound : τ → Nat) (p : Action IoError τ α) : Prop :=
  ∀ t, bound (p t).2 + interruptionsIn (p t).1 ≤ bound t

theorem Within.bind {bound : τ → Nat} {p : Action IoError τ α} {q : α → Action IoError τ β}
    (hp : Within bound p) (hq : ∀ a, Within bound (q a)) : Within bound (p >>= q) := by
  intro t
  have h := hp t
  cases hr : p t with
  | mk r t' =>
    rw [hr] at h
    cases r with
    | error e =>
      rw [bind_error hr]
      exact h
    | ok a =>
      rw [bind_ok hr]
      have := hq a t'
      simp only [interruptionsIn] at h
      omega

end Action

/-- Random access to bytes. `readAt offset length` reads at most `length` bytes from `offset` on, and
none only at the end. `size` is what the source says about its length. A source can interrupt only so
many reads: `interruptions` bounds how many are still to come. -/
structure Reader (σ : Type) where
  size : Nat
  readAt : Nat → Nat → σ → Except Failure ByteArray × σ
  interruptions : σ → Nat
  size_readAt_le : ∀ offset length s b, (readAt offset length s).1 = .ok b → b.size ≤ length
  interruptions_readAt : ∀ offset length s,
    interruptions (readAt offset length s).2 +
      interruptionsIn ((readAt offset length s).1.mapError Failure.toIoError) ≤ interruptions s

namespace Reader

variable {σ : Type}

/-- Goes on reading until `got` holds `length` bytes from `offset` on. An interruption is not tried
again. -/
def readRest (r : Reader σ) (offset length : Nat) (got : ByteArray) : Action Failure σ ByteArray :=
  if length ≤ got.size then pure got
  else do
    let chunk ← r.readAt (offset + got.size) (length - got.size)
    if chunk.size = 0 then throw (.io (.shortRead offset length got.size))
    else r.readRest offset length (got ++ chunk)
termination_by length - got.size
decreasing_by
  simp only [ByteArray.size_append]
  omega

/-- Reads exactly `length` bytes from `offset` on. -/
def readExact (r : Reader σ) (offset length : Nat) : Action Failure σ ByteArray :=
  r.readRest offset length .empty

end Reader

/-- Bytes in memory, read without failure. -/
def memoryReader (σ : Type) (data : ByteArray) : Reader σ where
  size := data.size
  readAt offset length s := (.ok (slice data offset length), s)
  interruptions _ := 0
  size_readAt_le offset length s b h := by
    cases h
    exact size_slice_le data offset length
  interruptions_readAt _ _ _ := Nat.le_refl 0

/-- Positions in a local file are signed numbers of 64 bits, and a read must end at one of them. -/
def fileAddressLimit : Nat := 0x8000000000000000

/-- A local file that holds the given bytes. -/
def fileReader (σ : Type) (data : ByteArray) : Reader σ where
  size := data.size
  readAt offset length s :=
    if offset + length < fileAddressLimit then (.ok (slice data offset length), s)
    else (.error (.io .unaddressable), s)
  interruptions _ := 0
  size_readAt_le offset length s b h := by
    split at h
    · cases h
      exact size_slice_le data offset length
    · cases h
  interruptions_readAt offset length s := by
    split
    · exact Nat.le_refl 0
    · exact Nat.le_refl 0

end DexArchive
