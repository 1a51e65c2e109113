import Mathlib.Algebra.Group.Nat.Defs
import DexArchive.Bytes

/-! Byte strings by their bytes: a byte string is given by its length and the byte at each position, and
so slices, concatenations and the numbers in them are compared position by position. `pack` writes
numbers one after the other; each is read back at its place. -/

namespace DexArchive

theorem byteAt_of_lt {b : ByteArray} {i : Nat} (h : i < b.size) : byteAt b i = b[i] := dif_pos h

theorem byteAt_of_size_le {b : ByteArray} {i : Nat} (h : b.size ≤ i) : byteAt b i = 0 :=
  dif_neg (Nat.not_lt.2 h)

theorem ext_byteAt {a b : ByteArray} (hsize : a.size = b.size)
    (h : ∀ i, i < a.size → byteAt a i = byteAt b i) : a = b := by
  apply ByteArray.ext_getElem hsize
  intro i ha hb
  rw [← byteAt_of_lt ha, ← byteAt_of_lt hb]
  exact h i ha

theorem byteAt_append (a b : ByteArray) (i : Nat) :
    byteAt (a ++ b) i = if i < a.size then byteAt a i else byteAt b (i - a.size) := by
  by_cases ha : i < a.size
  · have hab : i < (a ++ b).size := by rw [ByteArray.size_append]; omega
    rw [if_pos ha, byteAt_of_lt hab, byteAt_of_lt ha, ByteArray.getElem_append_left]
  · rw [if_neg ha]
    by_cases hb : i - a.size < b.size
    · have hab : i < (a ++ b).size := by rw [ByteArray.size_append]; omega
      rw [byteAt_of_lt hab, byteAt_of_lt hb, ByteArray.getElem_append_right (by omega)]
    · rw [byteAt_of_size_le (by rw [ByteArray.size_append]; omega), byteAt_of_size_le (by omega)]

theorem byteAt_slice (b : ByteArray) (start length i : Nat) :
    byteAt (slice b start length) i = if i < length then byteAt b (start + i) else 0 := by
  by_cases hi : i < (slice b start length).size
  · have hsize := hi
    rw [size_slice] at hsize
    rw [if_pos (by omega), byteAt_of_lt hi, byteAt_of_lt (by omega)]
    simp only [slice, ByteArray.getElem_extract, Nat.min_eq_left (show start ≤ b.size by omega)]
  · rw [byteAt_of_size_le (by omega)]
    rw [size_slice] at hi
    split
    · rw [byteAt_of_size_le (by omega)]
    · rfl

theorem size_set (b : ByteArray) {i : Nat} (hi : i < b.size) (value : UInt8) :
    (b.set i value hi).size = b.size :=
  Array.size_set hi

theorem byteAt_set (b : ByteArray) {i : Nat} (hi : i < b.size) (value : UInt8) (j : Nat) :
    byteAt (b.set i value hi) j = if j = i then value else byteAt b j := by
  have hsize := size_set b hi value
  by_cases hj : j < b.size
  · rw [byteAt_of_lt (by omega), byteAt_of_lt hj, ByteArray.getElem_eq_getElem_data,
      ByteArray.getElem_eq_getElem_data]
    by_cases hij : j = i
    · subst hij
      rw [if_pos rfl]
      exact Array.getElem_set_self hi
    · rw [if_neg hij]
      exact Array.getElem_set_ne hi hj fun h => hij h.symm
  · rw [byteAt_of_size_le (by omega), byteAt_of_size_le (by omega), if_neg (by omega)]

/-- One byte can be changed alone. -/
theorem exists_byteAt_ne {b : ByteArray} {i : Nat} (hi : i < b.size) :
    ∃ b' : ByteArray, b'.size = b.size ∧ (∀ j, j < i → byteAt b j = byteAt b' j) ∧
      byteAt b i ≠ byteAt b' i := by
  refine ⟨b.set i (byteAt b i + 1) hi, size_set b hi _, fun j hj => ?_, ?_⟩
  · rw [byteAt_set, if_neg (Nat.ne_of_lt hj)]
  · rw [byteAt_set, if_pos rfl]
    simp

/-! ### Slices -/

theorem byteAt_eq_of_slice_eq {a b : ByteArray} {p q n : Nat} (h : slice a p n = slice b q n) {i : Nat}
    (hi : i < n) : byteAt a (p + i) = byteAt b (q + i) := by
  have hbyte := congrArg (fun x => byteAt x i) h
  simp only [byteAt_slice, if_pos hi] at hbyte
  exact hbyte

theorem slice_of_size_le {b : ByteArray} {length : Nat} (h : b.size ≤ length) : slice b 0 length = b := by
  simp [slice, h]

@[simp] theorem slice_zero (b : ByteArray) (start : Nat) : slice b start 0 = .empty := by
  rw [← ByteArray.size_eq_zero_iff, size_slice]
  omega

theorem slice_eq_extract (b : ByteArray) (start length : Nat) (h : start + length ≤ b.size) :
    slice b start length = b.extract start (start + length) := by
  rw [slice, Nat.min_eq_left (by omega), Nat.min_eq_left h]

/-- A byte of `b`, put at the end. -/
theorem push_byteAt {b : ByteArray} {i : Nat} (h : i < b.size) (a : ByteArray) :
    a.push (byteAt b i) = a ++ slice b i 1 := by
  have hone : slice b i 1 = ⟨#[byteAt b i]⟩ := by
    have hsize : (ByteArray.mk #[byteAt b i]).size = 1 := rfl
    apply ext_byteAt
    · rw [size_slice, hsize]
      omega
    · intro j hj
      rw [size_slice] at hj
      obtain rfl : j = 0 := by omega
      rw [byteAt_slice, if_pos Nat.one_pos]
      rfl
  rw [hone]
  apply ByteArray.ext
  rw [ByteArray.data_append]
  exact Array.push_eq_append

theorem slice_append_slice (b : ByteArray) (start m n : Nat) :
    slice b start m ++ slice b (start + m) n = slice b start (m + n) := by
  refine ext_byteAt ?_ fun i hi => ?_
  · simp only [ByteArray.size_append, size_slice]
    omega
  · simp only [ByteArray.size_append, size_slice] at hi
    rw [byteAt_append, byteAt_slice, byteAt_slice, byteAt_slice, size_slice]
    by_cases hm : i < min m (b.size - start)
    · rw [if_pos hm, if_pos (by omega), if_pos (by omega)]
    · rw [if_neg hm, if_pos (by omega), if_pos (by omega)]
      congr 1
      omega

theorem slice_slice (b : ByteArray) (start m start' n : Nat) :
    slice (slice b start m) start' n = slice b (start + start') (min n (m - start')) := by
  refine ext_byteAt ?_ fun i hi => ?_
  · simp only [size_slice]
    omega
  · simp only [size_slice] at hi
    rw [byteAt_slice, byteAt_slice, byteAt_slice, if_pos (by omega), if_pos (by omega),
      if_pos (by omega), Nat.add_assoc]

/-- What is the same in a slice is the same in each part of it. -/
theorem slice_eq_of_slice_eq {a b : ByteArray} {start n offset length : Nat}
    (h : slice a start n = slice b start n) (hstart : start ≤ offset) (hstop : offset + length ≤ start + n) :
    slice a offset length = slice b offset length := by
  have hpart : slice (slice a start n) (offset - start) length =
      slice (slice b start n) (offset - start) length := by
    rw [h]
  rwa [slice_slice, slice_slice, Nat.min_eq_left (by omega), Nat.add_sub_cancel' hstart] at hpart

/-- A slice is not changed by asking for no more than it has. -/
theorem slice_size_slice (b : ByteArray) (start length : Nat) :
    slice b start (slice b start length).size = slice b start length := by
  apply ext_byteAt (by simp only [size_slice]; omega)
  intro i hi
  simp only [size_slice] at hi
  rw [byteAt_slice, byteAt_slice, size_slice, if_pos (by omega), if_pos (by omega)]

theorem slice_append_left {a : ByteArray} (b : ByteArray) {start length : Nat}
    (h : start + length ≤ a.size) : slice (a ++ b) start length = slice a start length := by
  apply ext_byteAt (by simp only [size_slice, ByteArray.size_append]; omega)
  intro i hi
  simp only [size_slice, ByteArray.size_append] at hi
  rw [byteAt_slice, byteAt_slice, byteAt_append, if_pos (show start + i < a.size by omega)]

/-- Of two starts of the same bytes, the longer one begins with the other. -/
theorem eq_slice_of_append_eq {a b rest rest' : ByteArray} (h : a ++ rest = b ++ rest')
    (hle : a.size ≤ b.size) : a = slice b 0 a.size := by
  have ha : slice (a ++ rest) 0 a.size = a := by
    rw [slice_append_left rest (Nat.le_of_eq (Nat.zero_add _)), slice_of_size_le (Nat.le_refl _)]
  rw [h, slice_append_left rest' (by omega)] at ha
  exact ha.symm

/-- What is after a start of the bytes. -/
theorem slice_append_rest (b : ByteArray) {n : Nat} (hn : n ≤ b.size) :
    slice b 0 n ++ slice b n (b.size - n) = b := by
  rw [show slice b n (b.size - n) = slice b (0 + n) (b.size - n) by rw [Nat.zero_add], slice_append_slice,
    Nat.add_sub_cancel' hn, slice_of_size_le (Nat.le_refl _)]

theorem append_slice_of_eq_slice {a b : ByteArray} (h : a = slice b 0 a.size) (hle : a.size ≤ b.size) :
    a ++ slice b a.size (b.size - a.size) = b := by
  have hparts := slice_append_rest b hle
  rwa [← h] at hparts

theorem slice_append_right (a b : ByteArray) (start length : Nat) :
    slice (a ++ b) (a.size + start) length = slice b start length := by
  apply ext_byteAt (by simp only [size_slice, ByteArray.size_append]; omega)
  intro i hi
  rw [byteAt_slice, byteAt_slice, byteAt_append, if_neg (show ¬ a.size + start + i < a.size by omega),
    show a.size + start + i - a.size = start + i by omega]

/-! ### Numbers -/

theorem numberAt_congr {a b : ByteArray} {p q width : Nat}
    (h : ∀ i, i < width → byteAt a (p + i) = byteAt b (q + i)) :
    numberAt a p width = numberAt b q width := by
  induction width generalizing p q with
  | zero => rfl
  | succ width ih =>
      have hfirst : byteAt a p = byteAt b q := h 0 (by omega)
      have hrest : numberAt a (p + 1) width = numberAt b (q + 1) width := ih fun i hi => by
        rw [Nat.add_assoc, Nat.add_assoc, Nat.add_comm 1 i]
        exact h (i + 1) (by omega)
      rw [numberAt, numberAt, hfirst, hrest]

theorem numberAt_of_byteAt {a b : ByteArray} {p q n : Nat}
    (h : ∀ i, i < n → byteAt a (p + i) = byteAt b (q + i)) {k width : Nat} (hle : k + width ≤ n) :
    numberAt a (p + k) width = numberAt b (q + k) width :=
  numberAt_congr fun i hi => by
    rw [Nat.add_assoc, Nat.add_assoc]
    exact h (k + i) (by omega)

/-- A number has only one way to be written. -/
theorem byteAt_eq_of_numberAt_eq {a b : ByteArray} {p q width : Nat}
    (h : numberAt a p width = numberAt b q width) {i : Nat} (hi : i < width) :
    byteAt a (p + i) = byteAt b (q + i) := by
  induction width generalizing p q i with
  | zero => exact absurd hi (Nat.not_lt_zero i)
  | succ width ih =>
      have ha := (byteAt a p).toNat_lt
      have hb := (byteAt b q).toNat_lt
      rw [numberAt, numberAt] at h
      cases i with
      | zero =>
          rw [Nat.add_zero, Nat.add_zero]
          exact UInt8.toNat_inj.1 (by omega)
      | succ i =>
          have hrest := ih (p := p + 1) (q := q + 1) (by omega) (Nat.lt_of_succ_lt_succ hi)
          rwa [Nat.add_assoc, Nat.add_assoc, Nat.add_comm 1 i] at hrest

theorem numberAt_lt (b : ByteArray) (pos width : Nat) : numberAt b pos width < 256 ^ width := by
  induction width generalizing pos with
  | zero => exact Nat.one_pos
  | succ width ih =>
      have hbyte := (byteAt b pos).toNat_lt
      have hrest := ih (pos + 1)
      rw [numberAt, Nat.pow_succ]
      omega

theorem numberAt_append_left {a : ByteArray} (b : ByteArray) {pos width : Nat}
    (h : pos + width ≤ a.size) : numberAt (a ++ b) pos width = numberAt a pos width :=
  numberAt_congr fun i hi => by rw [byteAt_append, if_pos (by omega)]

theorem numberAt_append_right (a b : ByteArray) (pos width : Nat) :
    numberAt (a ++ b) (a.size + pos) width = numberAt b pos width :=
  numberAt_congr fun i _ => by
    rw [byteAt_append, if_neg (by omega), show a.size + pos + i - a.size = pos + i by omega]

theorem numberAt_slice (b : ByteArray) {start length pos width : Nat} (h : pos + width ≤ length) :
    numberAt (slice b start length) pos width = numberAt b (start + pos) width :=
  numberAt_congr fun i hi => by rw [byteAt_slice, if_pos (by omega), Nat.add_assoc]

theorem u64At_eq {b : ByteArray} {pos : Nat} {value : UInt64} (h : numberAt b pos 8 = value.toNat) :
    u64At b pos = value := by
  rw [u64At, h]
  exact UInt64.ofNat_toNat

theorem toNat_u32At (b : ByteArray) (pos : Nat) : (u32At b pos).toNat = numberAt b pos 4 :=
  UInt32.toNat_ofNat_of_lt' (numberAt_lt b pos 4)

theorem u32At_eq_iff {b : ByteArray} {pos : Nat} {value : UInt32} :
    u32At b pos = value ↔ numberAt b pos 4 = value.toNat := by
  rw [← toNat_u32At, UInt32.toNat_inj]

/-! ### Numbers one after the other -/

/-- Numbers one after the other, each with its width in front. -/
def pack (fields : List (Nat × Nat)) : ByteArray :=
  (fields.flatMap fun f => numberBytes f.1 f.2).toByteArray

theorem length_numberBytes (width n : Nat) : (numberBytes width n).length = width := by
  induction width generalizing n with
  | zero => rfl
  | succ width ih => rw [numberBytes, List.length_cons, ih]

theorem pack_cons (f : Nat × Nat) (fields : List (Nat × Nat)) :
    pack (f :: fields) = (numberBytes f.1 f.2).toByteArray ++ pack fields := by
  rw [pack, List.flatMap_cons, List.toByteArray_append, pack]

theorem pack_append (fields fields' : List (Nat × Nat)) :
    pack (fields ++ fields') = pack fields ++ pack fields' := by
  rw [pack, List.flatMap_append, List.toByteArray_append, pack, pack]

/-- How many bytes the numbers take. -/
def widths : List (Nat × Nat) → Nat
  | [] => 0
  | f :: fields => f.1 + widths fields

theorem size_pack (fields : List (Nat × Nat)) : (pack fields).size = widths fields := by
  induction fields with
  | nil => rfl
  | cons f fields ih =>
      rw [pack_cons, ByteArray.size_append, List.size_toByteArray, length_numberBytes, ih, widths]

theorem byteAt_toByteArray (l : List UInt8) (i : Nat) : byteAt l.toByteArray i = l[i]?.getD 0 := by
  by_cases hi : i < l.length
  · rw [byteAt_of_lt (by rwa [List.size_toByteArray]), List.getElem_toByteArray,
      List.getElem?_eq_getElem hi, Option.getD_some]
  · rw [byteAt_of_size_le (by rw [List.size_toByteArray]; omega),
      List.getElem?_eq_none (by omega), Option.getD_none]

theorem numberAt_numberBytes (width n : Nat) :
    numberAt (numberBytes width n).toByteArray 0 width = n % 256 ^ width := by
  induction width generalizing n with
  | zero => rw [numberAt, Nat.pow_zero, Nat.mod_one]
  | succ width ih =>
      have hrest : numberAt (numberBytes (width + 1) n).toByteArray 1 width = n / 256 % 256 ^ width := by
        rw [← ih]
        apply numberAt_congr
        intro i _
        rw [byteAt_toByteArray, byteAt_toByteArray, numberBytes, Nat.add_comm 1 i,
          List.getElem?_cons_succ, Nat.zero_add]
      have hfirst : byteAt (numberBytes (width + 1) n).toByteArray 0 = .ofNat n := by
        rw [byteAt_toByteArray, numberBytes, List.getElem?_cons_zero, Option.getD_some]
      have hmod : n % 256 ^ (width + 1) = n % 256 + 256 * (n / 256 % 256 ^ width) := by
        rw [Nat.pow_succ', Nat.mod_mul]
      rw [numberAt, hrest, hfirst, hmod, UInt8.toNat_ofNat']

/-- The bytes at a place are those of a number iff the number is read there. -/
theorem slice_eq_numberBytes_iff {b : ByteArray} {pos width n : Nat} (h : pos + width ≤ b.size)
    (hn : n < 256 ^ width) : slice b pos width = (numberBytes width n).toByteArray ↔ numberAt b pos width = n := by
  have hnumber : numberAt (numberBytes width n).toByteArray 0 width = n := by
    rw [numberAt_numberBytes, Nat.mod_eq_of_lt hn]
  have hsize : (numberBytes width n).toByteArray.size = width := by
    rw [List.size_toByteArray, length_numberBytes]
  constructor
  · intro hslice
    calc
      numberAt b pos width = numberAt (slice b pos width) 0 width := by
        rw [numberAt_slice b (Nat.le_of_eq (Nat.zero_add width)), Nat.add_zero]
      _ = n := by rw [hslice, hnumber]
  · intro hread
    apply ext_byteAt
    · rw [size_slice, hsize]
      omega
    · intro i hi
      rw [size_slice] at hi
      have hbyte := byteAt_eq_of_numberAt_eq (hread.trans hnumber.symm) (show i < width by omega)
      rw [byteAt_slice, if_pos (by omega), hbyte, Nat.zero_add]

/-- Each of the numbers that were written is read back at its place. -/
theorem numberAt_pack {fields : List (Nat × Nat)} {width n : Nat} (i : Nat)
    (h : fields[i]? = some (width, n)) :
    numberAt (pack fields) (widths (fields.take i)) width = n % 256 ^ width := by
  obtain ⟨hi, hget⟩ := List.getElem?_eq_some_iff.1 h
  have hsplit : fields.take i ++ (width, n) :: fields.drop (i + 1) = fields := by
    rw [← hget, ← List.drop_eq_getElem_cons hi, List.take_append_drop]
  have hfield : pack fields =
      pack (fields.take i) ++ ((numberBytes width n).toByteArray ++ pack (fields.drop (i + 1))) := by
    have h := pack_append (fields.take i) ((width, n) :: fields.drop (i + 1))
    rwa [hsplit, pack_cons] at h
  have hright := numberAt_append_right (pack (fields.take i))
    ((numberBytes width n).toByteArray ++ pack (fields.drop (i + 1))) 0 width
  have hfits : 0 + width ≤ (numberBytes width n).toByteArray.size :=
    Nat.le_of_eq (by rw [Nat.zero_add, List.size_toByteArray, length_numberBytes])
  rw [hfield, ← size_pack, ← Nat.add_zero (pack (fields.take i)).size, hright,
    numberAt_append_left _ hfits, numberAt_numberBytes]

/-! ### Bytes at a place -/

/-- The bytes `x` are in `b` from `pos` on. -/
def Has (b : ByteArray) (pos : Nat) (x : ByteArray) : Prop := slice b pos x.size = x

namespace Has

variable {b x y : ByteArray} {pos : Nat}

theorem add_size_le (h : Has b pos x) (hx : x.size ≠ 0) : pos + x.size ≤ b.size := by
  have hsize := congrArg ByteArray.size h
  rw [size_slice] at hsize
  omega

theorem refl (b : ByteArray) : Has b 0 b := slice_of_size_le (Nat.le_refl _)

theorem append_left (h : Has b pos (x ++ y)) : Has b pos x := by
  have hleft : slice (slice b pos (x ++ y).size) 0 x.size = slice (x ++ y) 0 x.size := by rw [h]
  rw [slice_slice, slice_append_left y (Nat.le_of_eq (Nat.zero_add _)), slice_of_size_le (Nat.le_refl _),
    ByteArray.size_append, Nat.add_zero] at hleft
  rwa [Nat.min_eq_left (by omega)] at hleft

theorem append_right (h : Has b pos (x ++ y)) : Has b (pos + x.size) y := by
  have hright : slice (slice b pos (x ++ y).size) x.size y.size = slice (x ++ y) x.size y.size := by rw [h]
  have hy := slice_append_right x y 0 y.size
  rw [Nat.add_zero, slice_of_size_le (Nat.le_refl _)] at hy
  rw [slice_slice, hy, ByteArray.size_append, Nat.add_sub_cancel_left, Nat.min_self] at hright
  exact hright

theorem numberAt (h : Has b pos x) {i width : Nat} (hle : i + width ≤ x.size) :
    numberAt b (pos + i) width = DexArchive.numberAt x i width := by
  rw [← numberAt_slice b hle, h]

/-- A number that was written is read back at its place, if it fits. -/
theorem number_eq {fields : List (Nat × Nat)} (h : Has b pos (pack fields)) (i : Nat) {width n place : Nat}
    (hfield : fields[i]? = some (width, n)) (hplace : widths (fields.take i) = place)
    (hn : n < 256 ^ width) : DexArchive.numberAt b (pos + place) width = n := by
  obtain ⟨hi, hget⟩ := List.getElem?_eq_some_iff.1 hfield
  have hle : widths (fields.take i) + width ≤ (pack fields).size := by
    have hsplit : fields.take i ++ (width, n) :: fields.drop (i + 1) = fields := by
      rw [← hget, ← List.drop_eq_getElem_cons hi, List.take_append_drop]
    have hsize := congrArg (fun fields => (pack fields).size) hsplit
    simp only [pack_append, ByteArray.size_append, size_pack, widths] at hsize
    rw [size_pack]
    omega
  rw [← hplace, h.numberAt hle, numberAt_pack i hfield, Nat.mod_eq_of_lt hn]

end Has

end DexArchive
