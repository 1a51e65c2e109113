import DexArchive.Deflate.Inflater
import DexArchive.Proofs.Bytes

/-! What a scan found does not change when more bytes come: only a starved scan can go on differently. -/

namespace DexArchive.Deflate.Scan

variable {α β : Type}

/-- The scan does the same if bytes are appended, unless it was starved. -/
def IsStable (p : Scan α) : Prop :=
  ∀ bytes more pos, p bytes pos ≠ .error .starved → p (bytes ++ more) pos = p bytes pos

theorem stable_pure (a : α) : IsStable (pure a : Scan α) := fun _ _ _ _ => rfl

theorem stable_corrupt : IsStable (corrupt : Scan α) := fun _ _ _ _ => rfl

theorem bind_apply (p : Scan α) (q : α → Scan β) (bytes : ByteArray) (pos : Nat) :
    (p >>= q) bytes pos = (p bytes pos >>= fun r => q r.1 bytes r.2) := rfl

theorem IsStable.bind {p : Scan α} {q : α → Scan β} (hp : IsStable p) (hq : ∀ a, IsStable (q a)) :
    IsStable (p >>= q) := by
  intro bytes more pos h
  rw [bind_apply] at h
  rw [bind_apply, bind_apply]
  cases hr : p bytes pos with
  | error e =>
      rw [hr] at h
      have hne : p bytes pos ≠ .error .starved := by
        rw [hr]
        intro he
        cases he
        exact h rfl
      rw [hp bytes more pos hne, hr]
      rfl
  | ok r =>
      rw [hr] at h
      have hne : p bytes pos ≠ .error .starved := by
        rw [hr]
        intro he
        cases he
      rw [hp bytes more pos hne, hr]
      exact hq r.1 bytes more r.2 h

theorem stable_bit : IsStable bit := by
  intro bytes more pos h
  simp only [bit] at h ⊢
  by_cases hpos : pos / 8 < bytes.size
  · have happend : pos / 8 < (bytes ++ more).size := by
      rw [ByteArray.size_append]
      omega
    rw [dif_pos hpos, dif_pos happend, ByteArray.getElem_append_left hpos]
  · rw [dif_neg hpos] at h
    exact absurd rfl h

theorem stable_bits (n : Nat) : IsStable (bits n) := by
  induction n with
  | zero => exact stable_pure 0
  | succ n ih => exact stable_bit.bind fun _ => ih.bind fun _ => stable_pure _

theorem stable_align : IsStable align := fun _ _ _ _ => rfl

theorem stable_tree (t : Tree) : IsStable t.scan := by
  induction t with
  | gap => exact stable_corrupt
  | leaf symbol => exact stable_pure symbol
  | fork zero one ihz iho =>
      apply stable_bit.bind
      intro b
      split
      · exact ihz
      · exact iho

theorem stable_code (c : Code) : IsStable c.scan := by
  apply stable_bit.bind
  intro b
  split
  · exact stable_tree c.zero
  · exact stable_tree c.one

theorem stable_extended (table : Array (Nat × Nat)) (symbol : Nat) :
    IsStable (extended table symbol) := by
  simp only [extended]
  split
  · exact stable_corrupt
  · exact (stable_bits _).bind fun _ => stable_pure _

theorem stable_item (literals distances : Code) : IsStable (item literals distances) := by
  apply (stable_code literals).bind
  intro symbol
  split
  · exact stable_pure _
  · split
    · exact stable_pure _
    · exact (stable_extended _ _).bind fun _ => (stable_code distances).bind fun _ =>
        (stable_extended _ _).bind fun _ => stable_pure _

theorem stable_triples (n : Nat) : IsStable (triples n) := by
  induction n with
  | zero => exact stable_pure []
  | succ n ih => exact (stable_bits 3).bind fun _ => ih.bind fun _ => stable_pure _

theorem stable_codeLengths (code : Code) (total : Nat) (got : Array Nat) :
    IsStable (codeLengths code total got) := by
  fun_induction codeLengths code total got with
  | case1 got h ih16 ih17 ih18 ih =>
      apply (stable_code code).bind
      intro symbol
      split
      · split
        · exact stable_corrupt
        · rename_i last _
          exact (stable_bits 2).bind fun more => ih16 last more
      · split
        · exact (stable_bits 3).bind ih17
        · split
          · exact (stable_bits 7).bind ih18
          · exact ih symbol
  | case2 => exact stable_pure _
  | case3 => exact stable_corrupt

theorem stable_orCorrupt (code : Option Code) : IsStable (orCorrupt code) := by
  cases code with
  | none => exact stable_corrupt
  | some code => exact stable_pure code

theorem stable_dynamicCodes : IsStable dynamicCodes := by
  apply (stable_bits 5).bind
  intro literalCount
  apply (stable_bits 5).bind
  intro distanceCount
  apply (stable_bits 4).bind
  intro lengthCount
  split
  · exact stable_corrupt
  · exact (stable_triples _).bind fun _ => (stable_orCorrupt _).bind fun _ =>
      (stable_codeLengths _ _ _).bind fun _ => (stable_orCorrupt _).bind fun _ =>
      (stable_orCorrupt _).bind fun _ => stable_pure _

theorem stable_storedLength : IsStable storedLength := by
  apply stable_align.bind
  intro _
  apply (stable_bits 16).bind
  intro length
  apply (stable_bits 16).bind
  intro check
  split
  · exact stable_pure _
  · exact stable_corrupt

theorem stable_blockOfKind (kind : Nat) : IsStable (blockOfKind kind) := by
  simp only [blockOfKind]
  split
  · exact stable_storedLength
  · exact stable_pure _
  · exact stable_dynamicCodes
  · exact stable_corrupt

theorem stable_blockHeader : IsStable blockHeader :=
  stable_bit.bind fun _ => (stable_bits 2).bind fun kind =>
    (stable_blockOfKind kind).bind fun _ => stable_pure _

theorem stable_phase (last : Bool) (phase : Phase) : IsStable (phase.scan last) := by
  cases phase with
  | header =>
      apply stable_blockHeader.bind
      intro p
      obtain ⟨last, block⟩ := p
      cases block with
      | stored length => exact stable_pure _
      | coded literals distances => exact stable_pure _
  | stored left => exact (stable_bits 8).bind fun _ => stable_pure _
  | coded literals distances =>
      apply (stable_item literals distances).bind
      intro i
      cases i with
      | literal byte => exact stable_pure _
      | copy length distance => exact stable_pure _
      | endOfBlock => exact stable_pure _
  | literal byte next => exact stable_corrupt
  | copying left distance next => exact stable_corrupt
  | ended => exact stable_corrupt

/-! ### The bits of one byte -/

section Byte

variable {w : ByteArray} {k n i : Nat} (hk : k < w.size)

include hk

theorem bit_of_lt (hi : i < 8) :
    bit w (8 * k + i) = .ok ((byteAt w k).toNat / 2 ^ i % 2, 8 * k + i + 1) := by
  have hbyte : (8 * k + i) / 8 = k := by omega
  have hplace : (8 * k + i) % 8 = i := by omega
  simp only [bit, hbyte, hplace, dif_pos hk, byteAt_of_lt hk, Nat.shiftRight_eq_div_pow]

theorem bits_of_lt (hle : i + n ≤ 8) :
    bits n w (8 * k + i) = .ok ((byteAt w k).toNat / 2 ^ i % 2 ^ n, 8 * k + i + n) := by
  induction n generalizing i with
  | zero =>
      rw [Nat.pow_zero, Nat.mod_one]
      rfl
  | succ n ih =>
      have hhigh := ih (i := i + 1) (by omega)
      have hnumber : (byteAt w k).toNat / 2 ^ i % 2 ^ (n + 1) =
          (byteAt w k).toNat / 2 ^ i % 2 + 2 * ((byteAt w k).toNat / 2 ^ (i + 1) % 2 ^ n) := by
        rw [Nat.pow_succ', Nat.mod_mul, Nat.div_div_eq_div_mul, ← Nat.pow_succ]
      have hplace : 8 * k + (i + 1) + n = 8 * k + i + (n + 1) := by omega
      rw [bits, bind_apply, bit_of_lt hk (by omega), hnumber, ← hplace]
      show (bits n w (8 * k + (i + 1)) >>= fun r => _) = _
      rw [hhigh]
      rfl

end Byte

end DexArchive.Deflate.Scan
