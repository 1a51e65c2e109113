import DexArchive.Checksum
import DexArchive.Proofs.Bytes

/-! What the checksum sees. The remainder is moved past a bit by a linear map, and an injective one, as the
generator polynomial has its constant term. So no two remainders become one when the same bytes are taken in
after them. Up to four bytes come down to one number: taking them in is adding it to the remainder and moving on.
Hence byte strings that differ only within four bytes have different checksums. -/

namespace DexArchive

namespace Checksum

/-! ### Moving on -/

theorem low_bit_eq_one_iff (r : UInt32) : r &&& 1 = 1 ↔ r.toNat % 2 = 1 := by
  rw [← UInt32.toNat_inj, UInt32.toNat_and]
  exact Iff.of_eq (congrArg (· = 1) (Nat.and_one_is_mod r.toNat))

theorem shiftBit_of_even {r : UInt32} (h : r.toNat % 2 = 0) : shiftBit r = r >>> 1 := by
  rw [shiftBit, if_neg]
  rw [low_bit_eq_one_iff]
  omega

theorem shiftBit_of_odd {r : UInt32} (h : r.toNat % 2 = 1) : shiftBit r = r >>> 1 ^^^ polynomial := by
  rw [shiftBit, if_pos ((low_bit_eq_one_iff r).2 h)]

theorem toNat_shiftRight_one (r : UInt32) : (r >>> 1).toNat = r.toNat / 2 := by
  rw [UInt32.toNat_shiftRight]
  rfl

theorem shiftBit_xor (r s : UInt32) : shiftBit (r ^^^ s) = shiftBit r ^^^ shiftBit s := by
  have hbit : (r ^^^ s).toNat % 2 = (r.toNat % 2) ^^^ (s.toNat % 2) := by
    rw [UInt32.toNat_xor]
    exact Nat.xor_mod_two_pow (n := 1)
  have hshift : (r ^^^ s) >>> 1 = r >>> 1 ^^^ s >>> 1 := UInt32.shiftRight_xor
  rcases Nat.mod_two_eq_zero_or_one r.toNat with hr | hr <;>
    rcases Nat.mod_two_eq_zero_or_one s.toNat with hs | hs <;>
      rw [hr, hs] at hbit
  · rw [shiftBit_of_even hbit, shiftBit_of_even hr, shiftBit_of_even hs, hshift]
  · rw [shiftBit_of_odd hbit, shiftBit_of_even hr, shiftBit_of_odd hs, hshift, UInt32.xor_assoc]
  · rw [shiftBit_of_odd hbit, shiftBit_of_odd hr, shiftBit_of_even hs, hshift]
    ac_rfl
  · have hcancel : r >>> 1 ^^^ polynomial ^^^ (s >>> 1 ^^^ polynomial) =
        r >>> 1 ^^^ s >>> 1 ^^^ (polynomial ^^^ polynomial) := by
      ac_rfl
    rw [shiftBit_of_even hbit, shiftBit_of_odd hr, shiftBit_of_odd hs, hshift, hcancel, UInt32.xor_self,
      UInt32.xor_zero]

/-- Only the remainder zero becomes zero: the highest bit of the polynomial shows that a one was moved out. -/
theorem eq_zero_of_shiftBit_eq_zero {r : UInt32} (h : shiftBit r = 0) : r = 0 := by
  have hhalf := toNat_shiftRight_one r
  rcases Nat.mod_two_eq_zero_or_one r.toNat with hr | hr
  · rw [shiftBit_of_even hr] at h
    rw [h] at hhalf
    apply UInt32.toNat_inj.1
    rw [UInt32.toNat_zero] at hhalf ⊢
    omega
  · rw [shiftBit_of_odd hr, UInt32.xor_eq_zero_iff] at h
    have hbound := r.toNat_lt
    have hpolynomial : polynomial.toNat = 0xEDB88320 := rfl
    rw [h] at hhalf
    omega

theorem shiftBit_injective {r s : UInt32} (h : shiftBit r = shiftBit s) : r = s := by
  rw [← UInt32.xor_eq_zero_iff] at h ⊢
  rw [← shiftBit_xor] at h
  exact eq_zero_of_shiftBit_eq_zero h

theorem shiftBits_xor (n : Nat) (r s : UInt32) : shiftBits n (r ^^^ s) = shiftBits n r ^^^ shiftBits n s := by
  induction n generalizing r s with
  | zero => rfl
  | succ n ih => rw [shiftBits, shiftBit_xor, ih, shiftBits, shiftBits]

theorem shiftBits_injective {n : Nat} {r s : UInt32} (h : shiftBits n r = shiftBits n s) : r = s := by
  induction n generalizing r s with
  | zero => exact h
  | succ n ih => exact shiftBit_injective (ih h)

theorem shiftBits_add (m n : Nat) (r : UInt32) : shiftBits (m + n) r = shiftBits n (shiftBits m r) := by
  induction m generalizing r with
  | zero => rw [Nat.zero_add, shiftBits]
  | succ m ih => rw [Nat.succ_add, shiftBits, ih, shiftBits]

/-- Zeros at the low end are moved out and leave the rest as it is. -/
theorem shiftBits_of_multiple {r : UInt32} {n k : Nat} (h : r.toNat = 2 ^ n * k) : (shiftBits n r).toNat = k := by
  induction n generalizing r with
  | zero => rwa [Nat.pow_zero, Nat.one_mul] at h
  | succ n ih =>
      rw [Nat.pow_succ', Nat.mul_assoc] at h
      rw [shiftBits, shiftBit_of_even (by omega)]
      apply ih
      rw [toNat_shiftRight_one]
      omega

/-! ### Bytes taken in -/

theorem absorb_injective {r s : UInt32} {b : UInt8} (h : absorb r b = absorb s b) : r = s :=
  (UInt32.xor_left_inj _).1 (shiftBits_injective h)

/-- The remainder after the `width` bytes from `pos` on. -/
def absorbAt (b : ByteArray) : (pos width : Nat) → UInt32 → UInt32
  | _, 0, r => r
  | pos, width + 1, r => absorbAt b (pos + 1) width (absorb r (byteAt b pos))

variable {a b : ByteArray} {r s : UInt32}

theorem absorbAt_add (b : ByteArray) (pos m n : Nat) (r : UInt32) :
    absorbAt b pos (m + n) r = absorbAt b (pos + m) n (absorbAt b pos m r) := by
  induction m generalizing pos r with
  | zero => rw [Nat.zero_add, Nat.add_zero, absorbAt]
  | succ m ih => rw [Nat.succ_add, absorbAt, ih, absorbAt, Nat.add_right_comm, Nat.add_assoc]

theorem absorbAt_congr {pos width : Nat} (h : ∀ i, pos ≤ i → i < pos + width → byteAt a i = byteAt b i)
    (r : UInt32) : absorbAt a pos width r = absorbAt b pos width r := by
  induction width generalizing pos r with
  | zero => rfl
  | succ width ih =>
      rw [absorbAt, absorbAt, h pos (Nat.le_refl _) (by omega)]
      apply ih
      intro i hpos hi
      exact h i (by omega) (by omega)

theorem absorbAt_injective {pos width : Nat} (h : absorbAt b pos width r = absorbAt b pos width s) : r = s := by
  induction width generalizing pos r s with
  | zero => exact h
  | succ width ih => exact absorb_injective (ih h)

theorem foldl_drop_eq_absorbAt (b : ByteArray) {pos width : Nat} (h : pos + width = b.size) (r : UInt32) :
    (b.data.toList.drop pos).foldl absorb r = absorbAt b pos width r := by
  induction width generalizing pos r with
  | zero =>
      have hlength : b.data.toList.length ≤ pos := Nat.le_of_eq h.symm
      rw [List.drop_eq_nil_of_le hlength, List.foldl_nil, absorbAt]
  | succ width ih =>
      have hpos : pos < b.data.toList.length := show pos < b.size by omega
      have hbyte : byteAt b pos = b.data.toList[pos] := byteAt_of_lt hpos
      rw [List.drop_eq_getElem_cons hpos, List.foldl_cons, absorbAt, hbyte]
      exact ih (by omega) _

theorem crc32_eq (b : ByteArray) : crc32 b = absorbAt b 0 b.size 0xFFFFFFFF ^^^ 0xFFFFFFFF := by
  rw [crc32, ← Array.foldl_toList, ← foldl_drop_eq_absorbAt b (Nat.zero_add b.size), List.drop_zero]

/-! ### A window of four bytes -/

/-- A byte below a number that is moved up by a byte. -/
theorem toNat_xor_of_lt {x y : UInt32} {m : Nat} (hx : x.toNat < 256) (hy : y.toNat = 256 * m) :
    (x ^^^ y).toNat = x.toNat + 256 * m := by
  have hdiv : (x.toNat ^^^ y.toNat) / 2 ^ 8 = x.toNat / 2 ^ 8 ^^^ y.toNat / 2 ^ 8 := Nat.xor_div_two_pow
  have hmod : (x.toNat ^^^ y.toNat) % 2 ^ 8 = x.toNat % 2 ^ 8 ^^^ y.toNat % 2 ^ 8 := Nat.xor_mod_two_pow
  rw [show x.toNat / 2 ^ 8 = 0 by omega, show y.toNat / 2 ^ 8 = m by omega, Nat.zero_xor] at hdiv
  rw [show x.toNat % 2 ^ 8 = x.toNat by omega, show y.toNat % 2 ^ 8 = 0 by omega, Nat.xor_zero] at hmod
  rw [UInt32.toNat_xor]
  omega

theorem ofNat_byte_add {x : UInt8} {m : Nat} (h : x.toNat + 256 * m < 2 ^ 32) :
    UInt32.ofNat (x.toNat + 256 * m) = x.toUInt32 ^^^ .ofNat (256 * m) := by
  have hx := x.toNat_lt
  have hy : (UInt32.ofNat (256 * m)).toNat = 256 * m := UInt32.toNat_ofNat_of_lt' (show 256 * m < 2 ^ 32 by omega)
  apply UInt32.toNat_inj.1
  rw [toNat_xor_of_lt (by rwa [UInt8.toNat_toUInt32]) hy, UInt8.toNat_toUInt32, UInt32.toNat_ofNat_of_lt' h]

/-- Up to four bytes are taken in as one number. -/
theorem absorbAt_window (b : ByteArray) (pos : Nat) {width : Nat} (h : width ≤ 4) (r : UInt32) :
    absorbAt b pos width r = shiftBits (8 * width) (r ^^^ .ofNat (numberAt b pos width)) := by
  induction width generalizing pos r with
  | zero => exact (UInt32.xor_zero).symm
  | succ width ih =>
      obtain ⟨m, hm⟩ : ∃ m, numberAt b (pos + 1) width = m := ⟨_, rfl⟩
      have hbyte := (byteAt b pos).toNat_lt
      have hbound := numberAt_lt b (pos + 1) width
      have hpow : 256 ^ width ≤ 256 ^ 3 := Nat.pow_le_pow_right (by decide) (by omega)
      rw [hm] at hbound
      have hrest : shiftBits 8 (.ofNat (256 * m)) = .ofNat m := by
        apply UInt32.toNat_inj.1
        rw [UInt32.toNat_ofNat_of_lt' (show m < 2 ^ 32 by omega)]
        exact shiftBits_of_multiple (UInt32.toNat_ofNat_of_lt' (show 256 * m < 2 ^ 32 by omega))
      calc absorbAt b pos (width + 1) r
          = absorbAt b (pos + 1) width (absorb r (byteAt b pos)) := rfl
        _ = shiftBits (8 * width) (absorb r (byteAt b pos) ^^^ .ofNat m) := by
            rw [ih (pos + 1) (by omega), hm]
        _ = shiftBits (8 * width) (shiftBits 8 (r ^^^ (byteAt b pos).toUInt32 ^^^ .ofNat (256 * m))) := by
            rw [shiftBits_xor 8, hrest, absorb]
        _ = shiftBits (8 * (width + 1)) (r ^^^ .ofNat (numberAt b pos (width + 1))) := by
            rw [← shiftBits_add, numberAt, hm, ofNat_byte_add (by omega), UInt32.xor_assoc, Nat.mul_succ,
              Nat.add_comm 8]

theorem byteAt_eq_of_absorbAt_eq {pos width : Nat} (h : width ≤ 4)
    (heq : absorbAt a pos width r = absorbAt b pos width r) {i : Nat} (hi : i < width) :
    byteAt a (pos + i) = byteAt b (pos + i) := by
  have hpow : 256 ^ width ≤ 256 ^ 4 := Nat.pow_le_pow_right (by decide) h
  have ha := numberAt_lt a pos width
  have hb := numberAt_lt b pos width
  rw [absorbAt_window a pos h, absorbAt_window b pos h] at heq
  have hnumber := congrArg UInt32.toNat ((UInt32.xor_right_inj r).1 (shiftBits_injective heq))
  rw [UInt32.toNat_ofNat_of_lt' (show numberAt a pos width < 2 ^ 32 by omega),
    UInt32.toNat_ofNat_of_lt' (show numberAt b pos width < 2 ^ 32 by omega)] at hnumber
  exact byteAt_eq_of_numberAt_eq hnumber hi

end Checksum

/-- Byte strings of one length that are not the same, but are so outside the `length` bytes from `start` on. -/
structure DiffersWithin (d d' : ByteArray) (start length : Nat) : Prop where
  size_eq : d.size = d'.size
  same : ∀ i, i < start ∨ start + length ≤ i → byteAt d i = byteAt d' i
  ne : d ≠ d'

namespace DiffersWithin

variable {d d' : ByteArray} {start length : Nat}

/-- One byte that is changed. -/
theorem of_set {i : Nat} (hi : i < d.size) {value : UInt8} (h : byteAt d i ≠ value) :
    DiffersWithin d (d.set i value hi) i 1 where
  size_eq := (size_set d hi value).symm
  same j hj := by rw [byteAt_set, if_neg (by omega)]
  ne heq := by
    apply h
    rw [heq, byteAt_set, if_pos rfl]

theorem exists_byteAt_ne (h : DiffersWithin d d' start length) :
    ∃ i, start ≤ i ∧ i < start + length ∧ i < d.size ∧ byteAt d i ≠ byteAt d' i := by
  apply Classical.byContradiction
  intro hnone
  apply h.ne
  apply ext_byteAt h.size_eq
  intro i hi
  by_cases hinside : start ≤ i ∧ i < start + length
  · apply Classical.byContradiction
    intro hne
    exact hnone ⟨i, hinside.1, hinside.2, hi, hne⟩
  · exact h.same i (by omega)

/-- A part that holds all the bytes that can differ is not the same either. -/
theorem slice (h : DiffersWithin d d' start length) {offset n : Nat} (hstart : offset ≤ start)
    (hstop : start + length ≤ offset + n) :
    DiffersWithin (slice d offset n) (slice d' offset n) (start - offset) length where
  size_eq := by rw [size_slice, size_slice, h.size_eq]
  same i hi := by
    rw [byteAt_slice, byteAt_slice, h.same (offset + i) (by omega)]
  ne heq := by
    obtain ⟨i, hle, hlt, -, hne⟩ := h.exists_byteAt_ne
    have hbyte := byteAt_eq_of_slice_eq heq (i := i - offset) (by omega)
    rw [Nat.add_sub_cancel' (by omega)] at hbyte
    exact hne hbyte

/-- No change within four bytes escapes the checksum, wherever it is and however long the byte string. -/
theorem crc32_ne (h : DiffersWithin d d' start length) (hlength : length ≤ 4) : crc32 d ≠ crc32 d' := by
  obtain ⟨i, hle, hlt, hi, hne⟩ := h.exists_byteAt_ne
  obtain ⟨width, hwidth⟩ : ∃ width, width = min length (d.size - start) := ⟨_, rfl⟩
  obtain ⟨rest, hrest⟩ : ∃ rest, d.size = start + width + rest := ⟨d.size - start - width, by omega⟩
  have hsplit : ∀ (x : ByteArray) (r : UInt32), Checksum.absorbAt x 0 d.size r =
      Checksum.absorbAt x (start + width) rest
        (Checksum.absorbAt x start width (Checksum.absorbAt x 0 start r)) := by
    intro x r
    rw [hrest, Checksum.absorbAt_add, Checksum.absorbAt_add, Nat.zero_add, Nat.zero_add]
  have hbefore : ∀ r, Checksum.absorbAt d 0 start r = Checksum.absorbAt d' 0 start r :=
    Checksum.absorbAt_congr fun j _ hj => h.same j (by omega)
  -- Where the bytes are cut off before the window ends, nothing comes after it.
  have hafter : ∀ r, Checksum.absorbAt d (start + width) rest r = Checksum.absorbAt d' (start + width) rest r :=
    Checksum.absorbAt_congr fun j hj hj' => h.same j (by omega)
  intro heq
  rw [Checksum.crc32_eq, Checksum.crc32_eq, ← h.size_eq, UInt32.xor_left_inj, hsplit, hsplit, hafter,
    hbefore] at heq
  have hwindow := Checksum.absorbAt_injective heq
  have hbyte := Checksum.byteAt_eq_of_absorbAt_eq (by omega) hwindow (i := i - start) (by omega)
  rw [Nat.add_sub_cancel' hle] at hbyte
  exact hne hbyte

end DiffersWithin

end DexArchive
