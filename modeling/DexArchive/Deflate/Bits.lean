/-! Scanning the bits of a byte string; the bits of each byte come from the low end. A scan that needs
bits beyond the end is starved: with more bytes the same scan can be made again from where it began. -/

namespace DexArchive.Deflate

/-- Why a scan does not give a result. -/
inductive Stop where
  | starved
  | corrupt
  deriving DecidableEq, Repr

/-- A scan of a byte string from a bit position on, and the position that it ends at. -/
abbrev Scan (α : Type) : Type := ReaderT ByteArray (StateT Nat (Except Stop)) α

/-- The next bit. -/
def bit : Scan Nat := fun bytes pos =>
  if h : pos / 8 < bytes.size then .ok ((bytes[pos / 8].toNat >>> (pos % 8)) % 2, pos + 1)
  else .error .starved

/-- A number of `n` bits, the lowest first. -/
def bits : Nat → Scan Nat
  | 0 => pure 0
  | n + 1 => do
    let low ← bit
    let high ← bits n
    return low + 2 * high

/-- Leaves out the rest of a byte that has been begun. -/
def align : Scan Unit := fun _ pos => .ok ((), 8 * ((pos + 7) / 8))

/-- The data are not well formed. -/
def corrupt {α : Type} : Scan α := fun _ _ => .error .corrupt

/-! ### How far a scan goes

A scan that succeeds goes forward and stays within the bytes. -/

namespace Scan

variable {α β : Type}

/-- The scan goes on by at least `n` bits, and not beyond the end unless it began there. -/
def Advances (n : Nat) (p : Scan α) : Prop :=
  ∀ bytes pos a pos', p bytes pos = .ok (a, pos') →
    pos + n ≤ pos' ∧ (pos ≤ 8 * bytes.size → pos' ≤ 8 * bytes.size)

theorem advances_pure (a : α) : Advances 0 (pure a : Scan α) := by
  intro bytes pos x pos' h
  cases h
  exact ⟨Nat.le_refl _, id⟩

theorem advances_corrupt (n : Nat) : Advances n (corrupt : Scan α) := by
  intro bytes pos x pos' h
  cases h

theorem Advances.mono {m n : Nat} {p : Scan α} (h : Advances n p) (hmn : m ≤ n) : Advances m p := by
  intro bytes pos a pos' hp
  obtain ⟨h1, h2⟩ := h bytes pos a pos' hp
  exact ⟨by omega, h2⟩

theorem Advances.bind {m n : Nat} {p : Scan α} {q : α → Scan β} (hp : Advances m p)
    (hq : ∀ a, Advances n (q a)) : Advances (m + n) (p >>= q) := by
  intro bytes pos b pos' h
  change (p bytes pos >>= fun r => q r.1 bytes r.2) = .ok (b, pos') at h
  cases hr : p bytes pos with
  | error e => rw [hr] at h; cases h
  | ok r =>
    rw [hr] at h
    obtain ⟨h1, h2⟩ := hp bytes pos r.1 r.2 hr
    obtain ⟨h3, h4⟩ := hq r.1 bytes r.2 b pos' h
    exact ⟨by omega, fun hpos => h4 (h2 hpos)⟩

theorem advances_bit : Advances 1 bit := by
  intro bytes pos a pos' h
  simp only [bit] at h
  split at h
  · cases h
    exact ⟨Nat.le_refl _, fun _ => by omega⟩
  · cases h

theorem advances_bits (n : Nat) : Advances n (bits n) := by
  induction n with
  | zero => exact advances_pure 0
  | succ n ih =>
    exact (advances_bit.bind fun low => ih.bind fun high => advances_pure (low + 2 * high)).mono
      (by omega)

theorem advances_align : Advances 0 align := by
  intro bytes pos a pos' h
  cases h
  exact ⟨by omega, fun _ => by omega⟩

end Scan

end DexArchive.Deflate
