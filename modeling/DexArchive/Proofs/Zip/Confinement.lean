import DexArchive.Proofs.Zip.Layout

/-! What the entry of a record depends on. A record's own bytes are its fixed fields, its name and its extra
field; the comment comes after them. A field for wide values may say that it is longer than the rest of the
extra field, and then values are taken from beyond it, out of the comment or out of later records. An entry
is determined by the record's own bytes exactly if none of its values is taken from there. -/

namespace DexArchive.Zip

namespace Bounds

variable {dir dir' : ByteArray} {b : Bounds}

/-- Where the value of one field ends that is taken from bytes that are said to end at `stop`. -/
def widenEnd (stop : Nat) (value : UInt64) (pos : Nat) : Nat :=
  if value = saturated ∧ pos + 8 ≤ stop then pos + 8 else pos

/-- The value of one field, as far as there is one for it. -/
def widened (dir : ByteArray) (stop : Nat) (value : UInt64) (pos : Nat) : UInt64 :=
  if value = saturated ∧ pos + 8 ≤ stop then u64At dir pos else value

/-- Where the values end that are taken from the bytes from `pos` to `stop`. -/
def wideEnd (b : Bounds) (pos stop : Nat) : Nat :=
  widenEnd stop b.offset (widenEnd stop b.compressed (widenEnd stop b.uncompressed pos))

/-- The values of the three fields. -/
def widenedAll (dir : ByteArray) (pos stop : Nat) (b : Bounds) : Bounds :=
  ⟨widened dir stop b.uncompressed pos,
    widened dir stop b.compressed (widenEnd stop b.uncompressed pos),
    widened dir stop b.offset (widenEnd stop b.compressed (widenEnd stop b.uncompressed pos))⟩

/-- Where the extra field at `pos` says that it ends. -/
def fieldEnd (dir : ByteArray) (pos : Nat) : Nat := pos + 4 + numberAt dir (pos + 2) 2

/-- How far the bytes go that decide over the values, on the way from `pos` through an extra field that ends at
`stop`: to its end, or to that of a value which is taken from beyond it. -/
def reach (dir : ByteArray) (pos stop : Nat) (b : Bounds) : Nat :=
  if pos + 4 ≤ stop then
    if numberAt dir pos 2 = wideId then
      max (b.wideEnd (pos + 4) (fieldEnd dir pos))
        (reach dir (fieldEnd dir pos) stop (b.widenedAll dir (pos + 4) (fieldEnd dir pos)))
    else reach dir (fieldEnd dir pos) stop b
  else stop
termination_by stop - pos
decreasing_by
  all_goals
    rw [fieldEnd]
    omega

/-- On the way from `pos` through an extra field that ends at `stop`, a value is taken that ends beyond
`stop`. -/
inductive Overruns (dir : ByteArray) (stop : Nat) : Nat → Bounds → Prop
  | here {pos : Nat} {b : Bounds} (hle : pos + 4 ≤ stop) (hid : numberAt dir pos 2 = wideId)
      (hover : stop < b.wideEnd (pos + 4) (fieldEnd dir pos)) : Overruns dir stop pos b
  | wide {pos : Nat} {b b' : Bounds} (hle : pos + 4 ≤ stop) (hid : numberAt dir pos 2 = wideId)
      (hwiden : b.widenAll dir (pos + 4) (fieldEnd dir pos) = some b')
      (hrest : Overruns dir stop (fieldEnd dir pos) b') : Overruns dir stop pos b
  | other {pos : Nat} {b : Bounds} (hle : pos + 4 ≤ stop) (hid : numberAt dir pos 2 ≠ wideId)
      (hrest : Overruns dir stop (fieldEnd dir pos) b) : Overruns dir stop pos b

/-! ### One field of the extra field -/

theorem resolve_of_wide {stop pos : Nat} (hle : pos + 4 ≤ stop) (hid : numberAt dir pos 2 = wideId)
    (b : Bounds) :
    resolve dir pos stop b =
      (b.widenAll dir (pos + 4) (fieldEnd dir pos)).bind (resolve dir (fieldEnd dir pos) stop) := by
  rw [resolve, if_pos hle]
  exact if_pos hid

theorem resolve_of_other {stop pos : Nat} (hle : pos + 4 ≤ stop) (hid : numberAt dir pos 2 ≠ wideId)
    (b : Bounds) :
    resolve dir pos stop b = resolve dir (fieldEnd dir pos) stop b := by
  rw [resolve, if_pos hle]
  exact if_neg hid

/-! ### Values and where they end -/

theorem le_widenEnd (stop : Nat) (value : UInt64) (pos : Nat) : pos ≤ widenEnd stop value pos := by
  unfold widenEnd
  split <;> omega

theorem widenEnd_le {stop pos : Nat} (h : pos ≤ stop) (value : UInt64) : widenEnd stop value pos ≤ stop := by
  unfold widenEnd
  split <;> omega

theorem widenEnd_add (start stop : Nat) (value : UInt64) (pos : Nat) :
    widenEnd (start + stop) value (start + pos) = start + widenEnd stop value pos := by
  have hiff : start + pos + 8 ≤ start + stop ↔ pos + 8 ≤ stop := by omega
  simp only [widenEnd, hiff]
  split <;> omega

theorem wideEnd_le {pos stop : Nat} (h : pos ≤ stop) (b : Bounds) : b.wideEnd pos stop ≤ stop :=
  widenEnd_le (widenEnd_le (widenEnd_le h b.uncompressed) b.compressed) b.offset

theorem wideEnd_add (b : Bounds) (start pos stop : Nat) :
    b.wideEnd (start + pos) (start + stop) = start + b.wideEnd pos stop := by
  simp only [wideEnd, widenEnd_add]

theorem widen_eq {stop pos : Nat} {value : UInt64} (h : widenEnd stop value pos ≤ dir.size) :
    widen dir stop value pos = some (widened dir stop value pos, widenEnd stop value pos) := by
  unfold widen widened
  unfold widenEnd at h ⊢
  split
  · rename_i htaken
    rw [if_pos htaken] at h
    rw [if_pos h]
  · rfl

/-- What the values are, if they are within the directory. -/
theorem widenAll_eq {pos stop : Nat} (h : b.wideEnd pos stop ≤ dir.size) :
    b.widenAll dir pos stop = some (b.widenedAll dir pos stop) := by
  have hcompressed : widenEnd stop b.compressed (widenEnd stop b.uncompressed pos) ≤ dir.size :=
    Nat.le_trans (le_widenEnd stop b.offset _) h
  have huncompressed : widenEnd stop b.uncompressed pos ≤ dir.size :=
    Nat.le_trans (le_widenEnd stop b.compressed _) hcompressed
  simp only [widenAll, widen_eq huncompressed, widen_eq hcompressed, widen_eq h, Option.bind_eq_bind,
    Option.bind_some]
  rfl

theorem widenEnd_le_size {stop pos : Nat} {value : UInt64} {wide : UInt64 × Nat} (hpos : pos ≤ dir.size)
    (h : widen dir stop value pos = some wide) :
    wide.2 = widenEnd stop value pos ∧ wide.2 ≤ dir.size := by
  unfold widen at h
  unfold widenEnd
  split at h
  · rename_i htaken
    split at h
    · rename_i hle
      rw [if_pos htaken, ← Option.some.inj h]
      exact ⟨rfl, hle⟩
    · cases h
  · rename_i hnot
    rw [if_neg hnot, ← Option.some.inj h]
    exact ⟨rfl, hpos⟩

theorem wideEnd_le_size {pos stop : Nat} {b' : Bounds} (hpos : pos ≤ dir.size)
    (h : b.widenAll dir pos stop = some b') : b.wideEnd pos stop ≤ dir.size := by
  unfold widenAll at h
  obtain ⟨uncompressed, huncompressed, h⟩ := Option.bind_eq_some_iff.1 h
  obtain ⟨compressed, hcompressed, h⟩ := Option.bind_eq_some_iff.1 h
  obtain ⟨offset, hoffset, -⟩ := Option.bind_eq_some_iff.1 h
  obtain ⟨hend₁, hle₁⟩ := widenEnd_le_size hpos huncompressed
  obtain ⟨hend₂, hle₂⟩ := widenEnd_le_size hle₁ hcompressed
  obtain ⟨hend₃, hle₃⟩ := widenEnd_le_size hle₂ hoffset
  rwa [hend₃, hend₂, hend₁] at hle₃

/-! ### How far the values reach -/

section Reach

variable {pos stop : Nat}

theorem reach_of_wide (hle : pos + 4 ≤ stop) (hid : numberAt dir pos 2 = wideId) (b : Bounds) :
    reach dir pos stop b = max (b.wideEnd (pos + 4) (fieldEnd dir pos))
      (reach dir (fieldEnd dir pos) stop (b.widenedAll dir (pos + 4) (fieldEnd dir pos))) := by
  rw [reach, if_pos hle, if_pos hid]

theorem reach_of_other (hle : pos + 4 ≤ stop) (hid : numberAt dir pos 2 ≠ wideId) (b : Bounds) :
    reach dir pos stop b = reach dir (fieldEnd dir pos) stop b := by
  rw [reach, if_pos hle, if_neg hid]

theorem reach_of_stop_lt (h : stop < pos + 4) (b : Bounds) : reach dir pos stop b = stop := by
  rw [reach, if_neg (Nat.not_le.2 h)]

theorem stop_le_reach (dir : ByteArray) (pos stop : Nat) (b : Bounds) : stop ≤ reach dir pos stop b := by
  fun_induction reach dir pos stop b with
  | case1 pos b hle hid ih => exact Nat.le_trans ih (Nat.le_max_right _ _)
  | case2 pos b hle hid ih => exact ih
  | case3 pos b hend => exact Nat.le_refl _

/-- There are values iff the directory reaches as far as they do. -/
theorem resolve_ne_none_iff (hstop : stop ≤ dir.size) :
    resolve dir pos stop b ≠ none ↔ reach dir pos stop b ≤ dir.size := by
  fun_induction reach dir pos stop b with
  | case1 pos b hle hid ih =>
      rw [resolve_of_wide hle hid, Nat.max_le]
      by_cases hwithin : b.wideEnd (pos + 4) (fieldEnd dir pos) ≤ dir.size
      · rw [widenAll_eq hwithin, Option.bind_some, ih]
        exact (and_iff_right hwithin).symm
      · refine iff_of_false (fun hne => ?_) fun h => hwithin h.1
        obtain ⟨b', hresolve⟩ := Option.ne_none_iff_exists'.1 hne
        obtain ⟨values, hvalues, -⟩ := Option.bind_eq_some_iff.1 hresolve
        exact hwithin (wideEnd_le_size (by omega) hvalues)
  | case2 pos b hle hid ih => rw [resolve_of_other hle hid, ih]
  | case3 pos b hend =>
      rw [resolve_of_stop_lt (by omega)]
      exact iff_of_true (Option.some_ne_none b) hstop

theorem overruns_iff (hstop : stop ≤ dir.size) :
    Overruns dir stop pos b ↔ stop < reach dir pos stop b := by
  constructor
  · intro h
    induction h with
    | here hle hid hover =>
        rw [reach_of_wide hle hid]
        exact Nat.lt_of_lt_of_le hover (Nat.le_max_left _ _)
    | wide hle hid hwiden hrest ih =>
        rw [reach_of_wide hle hid]
        rw [widenAll_eq (wideEnd_le_size (by omega) hwiden), Option.some.injEq] at hwiden
        rw [hwiden]
        exact Nat.lt_of_lt_of_le ih (Nat.le_max_right _ _)
    | other hle hid hrest ih => rwa [reach_of_other hle hid]
  · intro h
    fun_induction reach dir pos stop b with
    | case1 pos b hle hid ih =>
        by_cases hover : stop < b.wideEnd (pos + 4) (fieldEnd dir pos)
        · exact .here hle hid hover
        · exact .wide hle hid (widenAll_eq (by omega)) (ih (by omega))
    | case2 pos b hle hid ih => exact .other hle hid (ih h)
    | case3 pos b hend => exact absurd h (Nat.lt_irrefl _)

end Reach

/-! ### Values within the extra field -/

section Same

variable {start start' n : Nat}

theorem widened_eq_of_byteAt (h : ∀ i, i < n → byteAt dir (start + i) = byteAt dir' (start' + i))
    {stop pos : Nat} {value : UInt64} (hle : widenEnd stop value pos ≤ n) :
    widened dir (start + stop) value (start + pos) = widened dir' (start' + stop) value (start' + pos) := by
  have hiff : start + pos + 8 ≤ start + stop ↔ pos + 8 ≤ stop := by omega
  have hiff' : start' + pos + 8 ≤ start' + stop ↔ pos + 8 ≤ stop := by omega
  unfold widenEnd at hle
  simp only [widened, hiff, hiff']
  split
  · rename_i htaken
    rw [if_pos htaken] at hle
    rw [u64At, u64At, numberAt_of_byteAt h hle]
  · rfl

theorem widenedAll_eq_of_byteAt (h : ∀ i, i < n → byteAt dir (start + i) = byteAt dir' (start' + i))
    {pos stop : Nat} (hle : b.wideEnd pos stop ≤ n) :
    b.widenedAll dir (start + pos) (start + stop) = b.widenedAll dir' (start' + pos) (start' + stop) := by
  have hcompressed : widenEnd stop b.compressed (widenEnd stop b.uncompressed pos) ≤ n :=
    Nat.le_trans (le_widenEnd stop b.offset _) hle
  have huncompressed : widenEnd stop b.uncompressed pos ≤ n :=
    Nat.le_trans (le_widenEnd stop b.compressed _) hcompressed
  simp only [widenedAll, widenEnd_add, widened_eq_of_byteAt h huncompressed, widened_eq_of_byteAt h hcompressed,
    widened_eq_of_byteAt h hle]

/-- The bytes that the values reach determine all of them. -/
theorem resolve_eq_of_byteAt (h : ∀ i, i < n → byteAt dir (start + i) = byteAt dir' (start' + i))
    (hsize : start + n ≤ dir.size) (hsize' : start' + n ≤ dir'.size) {pos stop : Nat} (hstop : stop ≤ n)
    (hreach : reach dir (start + pos) (start + stop) b ≤ start + n) :
    resolve dir (start + pos) (start + stop) b = resolve dir' (start' + pos) (start' + stop) b := by
  induction hm : stop - pos using Nat.strongRecOn generalizing pos b with
  | ind m ih =>
      by_cases hend : pos + 4 ≤ stop
      · have hid : numberAt dir (start + pos) 2 = numberAt dir' (start' + pos) 2 :=
          numberAt_of_byteAt h (by omega)
        have hlength : numberAt dir (start + pos + 2) 2 = numberAt dir' (start' + pos + 2) 2 :=
          numberAt_of_byteAt h (show pos + 2 + 2 ≤ n by omega)
        obtain ⟨next, hnext⟩ : ∃ next, next = pos + 4 + numberAt dir (start + pos + 2) 2 := ⟨_, rfl⟩
        have hfield : fieldEnd dir (start + pos) = start + next := by
          rw [fieldEnd]
          omega
        have hfield' : fieldEnd dir' (start' + pos) = start' + next := by
          rw [fieldEnd, ← hlength]
          omega
        by_cases hwide : numberAt dir (start + pos) 2 = wideId
        · rw [reach_of_wide (by omega) hwide, hfield, Nat.add_assoc, wideEnd_add, Nat.max_le] at hreach
          obtain ⟨hwithin, hrest⟩ := hreach
          rw [resolve_of_wide (by omega) hwide, resolve_of_wide (by omega) (hid.symm.trans hwide), hfield,
            hfield', Nat.add_assoc start, Nat.add_assoc start', widenAll_eq (by rw [wideEnd_add]; omega),
            widenAll_eq (by rw [wideEnd_add]; omega), Option.bind_some, Option.bind_some,
            ← widenedAll_eq_of_byteAt h (by omega)]
          exact ih (stop - next) (by omega) hrest rfl
        · rw [reach_of_other (by omega) hwide, hfield] at hreach
          rw [resolve_of_other (by omega) hwide,
            resolve_of_other (by omega) (fun hwide' => hwide (hid.trans hwide')), hfield, hfield']
          exact ih (stop - next) (by omega) hreach rfl
      · rw [resolve_of_stop_lt (by omega), resolve_of_stop_lt (by omega)]

end Same

/-! ### Values from beyond the extra field -/

theorem widenEnd_cases (stop : Nat) (value : UInt64) (pos : Nat) :
    widenEnd stop value pos = pos ∨
      (value = saturated ∧ pos + 8 ≤ stop) ∧ widenEnd stop value pos = pos + 8 := by
  unfold widenEnd
  split
  · rename_i htaken
    exact .inr ⟨htaken, rfl⟩
  · exact .inl rfl

/-- A value that is taken depends on its last byte. -/
theorem widened_ne {stop pos : Nat} {value : UInt64} (htaken : value = saturated ∧ pos + 8 ≤ stop)
    (hne : byteAt dir (pos + 7) ≠ byteAt dir' (pos + 7)) :
    widened dir stop value pos ≠ widened dir' stop value pos := by
  intro heq
  rw [widened, widened, if_pos htaken, if_pos htaken] at heq
  have hnumber := congrArg UInt64.toNat heq
  rw [u64At, u64At, UInt64.toNat_ofNat_of_lt' (numberAt_lt dir pos 8),
    UInt64.toNat_ofNat_of_lt' (numberAt_lt dir' pos 8)] at hnumber
  exact hne (byteAt_eq_of_numberAt_eq hnumber (by decide))

/-- The last of the values that are taken ends where all of them end, and depends on the byte there. -/
theorem widenedAll_ne {pos stop : Nat} (htaken : pos < b.wideEnd pos stop)
    (hne : byteAt dir (b.wideEnd pos stop - 1) ≠ byteAt dir' (b.wideEnd pos stop - 1)) :
    b.widenedAll dir pos stop ≠ b.widenedAll dir' pos stop := by
  simp only [ne_eq, widenedAll, Bounds.mk.injEq]
  rintro ⟨huncompressed, hcompressed, hoffset⟩
  unfold wideEnd at htaken hne
  rcases widenEnd_cases stop b.offset (widenEnd stop b.compressed (widenEnd stop b.uncompressed pos)) with
    hend | ⟨hlast, hend⟩
  · rw [hend] at htaken hne
    rcases widenEnd_cases stop b.compressed (widenEnd stop b.uncompressed pos) with hend | ⟨hlast, hend⟩
    · rw [hend] at htaken hne
      rcases widenEnd_cases stop b.uncompressed pos with hend | ⟨hlast, hend⟩
      · omega
      · rw [hend] at hne
        exact widened_ne hlast hne huncompressed
    · rw [hend] at hne
      exact widened_ne hlast hne hcompressed
  · rw [hend] at hne
    exact widened_ne hlast hne hoffset

/-- Where a value is taken from beyond the extra field, the last byte of it decides over it. -/
theorem resolve_ne {stop pos : Nat} (hover : stop < reach dir pos stop b)
    (hsize : reach dir pos stop b ≤ dir.size) (hsize' : dir'.size = dir.size)
    (hbytes : ∀ j, j < reach dir pos stop b - 1 → byteAt dir j = byteAt dir' j)
    (hne : byteAt dir (reach dir pos stop b - 1) ≠ byteAt dir' (reach dir pos stop b - 1)) :
    resolve dir' pos stop b ≠ resolve dir pos stop b := by
  -- What is said of the field at `pos` stands before `stop`, and so it is the same in `dir'`.
  have hsame : ∀ {pos i : Nat}, (∀ j, j < i → byteAt dir j = byteAt dir' j) → pos + 4 ≤ stop →
      stop ≤ i → numberAt dir' pos 2 = numberAt dir pos 2 ∧ fieldEnd dir' pos = fieldEnd dir pos := by
    intro pos i hbytes hle hi
    refine ⟨numberAt_congr fun j hj => (hbytes _ (by omega)).symm, ?_⟩
    rw [fieldEnd, fieldEnd, numberAt_congr fun j hj => (hbytes (pos + 2 + j) (by omega)).symm]
  fun_induction reach dir pos stop b with
  | case1 pos b hle hid ih =>
      obtain ⟨hid', hfield'⟩ := hsame hbytes hle (by omega)
      rw [resolve_of_wide hle hid, resolve_of_wide hle (hid'.trans hid), hfield',
        widenAll_eq (by omega), widenAll_eq (by omega), Option.bind_some, Option.bind_some]
      have hwithin : b.wideEnd (pos + 4) (fieldEnd dir pos) ≤ fieldEnd dir pos :=
        wideEnd_le (Nat.le_add_right _ _) b
      by_cases hlast : stop < fieldEnd dir pos + 4
      · rw [reach_of_stop_lt hlast] at hover hsize hbytes hne
        rw [Nat.max_eq_left (by omega)] at hne
        rw [resolve_of_stop_lt hlast, resolve_of_stop_lt hlast]
        intro heq
        exact widenedAll_ne (by omega) hne (Option.some.inj heq).symm
      · have hrest := stop_le_reach dir (fieldEnd dir pos) stop (b.widenedAll dir (pos + 4) (fieldEnd dir pos))
        rw [Nat.max_eq_right (by omega)] at hover hsize hbytes hne
        have hvalues : b.widenedAll dir (0 + (pos + 4)) (0 + fieldEnd dir pos) =
            b.widenedAll dir' (0 + (pos + 4)) (0 + fieldEnd dir pos) :=
          widenedAll_eq_of_byteAt (n := stop) (fun j hj => by rw [Nat.zero_add]; exact hbytes j (by omega))
            (by omega)
        rw [Nat.zero_add, Nat.zero_add] at hvalues
        rw [← hvalues]
        exact ih hover hsize hbytes hne
  | case2 pos b hle hid ih =>
      obtain ⟨hid', hfield'⟩ := hsame hbytes hle (by omega)
      rw [resolve_of_other hle hid, resolve_of_other hle (by rwa [hid']), hfield']
      exact ih hover hsize hbytes hne
  | case3 pos b hend => exact absurd hover (Nat.lt_irrefl _)

end Bounds

/-! ### Records -/

namespace Entry

variable {dir dir' : ByteArray} {pos pos' : Nat}

/-- The length of the record's own bytes: the fixed fields, the name and the extra field. -/
def ownLength (dir : ByteArray) (pos : Nat) : Nat :=
  recordLength + numberAt dir (pos + 28) 2 + numberAt dir (pos + 30) 2

/-- The length that the record says it has, with its comment. -/
def declaredLength (dir : ByteArray) (pos : Nat) : Nat := ownLength dir pos + numberAt dir (pos + 32) 2

theorem ownLength_le_declaredLength (dir : ByteArray) (pos : Nat) :
    ownLength dir pos ≤ declaredLength dir pos := Nat.le_add_right _ _

/-- Where the extra field of the record begins. -/
def extraStart (dir : ByteArray) (pos : Nat) : Nat := pos + recordLength + numberAt dir (pos + 28) 2

/-- The sizes and the offset as the fixed fields have them. -/
def narrowBounds (dir : ByteArray) (pos : Nat) : Bounds :=
  ⟨(u32At dir (pos + 24)).toUInt64, (u32At dir (pos + 20)).toUInt64, (u32At dir (pos + 42)).toUInt64⟩

/-- A value of the record at `pos` is taken from beyond its extra field. -/
def Overruns (dir : ByteArray) (pos : Nat) : Prop :=
  Bounds.Overruns dir (pos + ownLength dir pos) (extraStart dir pos) (narrowBounds dir pos)

/-- How far the bytes go that decide over the values of the record at `pos`. -/
def reach (dir : ByteArray) (pos : Nat) : Nat :=
  Bounds.reach dir (extraStart dir pos) (pos + ownLength dir pos) (narrowBounds dir pos)

/-- The entry of the record at `pos`, with the true bounds. -/
def ofRecord (dir : ByteArray) (pos : Nat) (b : Bounds) : Entry where
  name := Text.ofUtf8 (dir.extract (pos + recordLength) (extraStart dir pos))
  method := .ofId (u16At dir (pos + 10))
  compressedSize := b.compressed
  uncompressedSize := b.uncompressed
  crc := u32At dir (pos + 16)
  headerOffset := b.offset
  flags := u16At dir (pos + 8)

/-- Reading a record that is there as a whole. -/
theorem parse_of_held (h : pos + declaredLength dir pos ≤ dir.size) :
    parse dir pos =
      if numberAt dir pos 4 ≠ recordSignature then .error .badSignature
      else match (narrowBounds dir pos).resolve dir (extraStart dir pos) (pos + ownLength dir pos) with
        | none => .error .truncated
        | some b => .ok (ofRecord dir pos b, pos + declaredLength dir pos) := by
  have hown : pos + ownLength dir pos =
      pos + recordLength + numberAt dir (pos + 28) 2 + numberAt dir (pos + 30) 2 := by
    simp only [ownLength, Nat.add_assoc]
  have hdeclared : pos + declaredLength dir pos =
      pos + recordLength + numberAt dir (pos + 28) 2 + numberAt dir (pos + 30) 2 +
        numberAt dir (pos + 32) 2 := by
    rw [← hown, declaredLength, Nat.add_assoc]
  have hlength : recordLength = 46 := rfl
  rw [hdeclared] at h ⊢
  rw [hown, parse, if_neg (by omega)]
  split
  · rfl
  · simp only []
    rw [if_neg (by omega), if_neg (by omega)]
    rfl

/-- Reading a record with a single extra field, which is the one for wide values. -/
theorem parse_of_wide (hheld : pos + declaredLength dir pos ≤ dir.size)
    (hsignature : numberAt dir pos 4 = recordSignature)
    (hle : extraStart dir pos + 4 ≤ pos + ownLength dir pos)
    (hid : numberAt dir (extraStart dir pos) 2 = Bounds.wideId)
    (hend : pos + ownLength dir pos < Bounds.fieldEnd dir (extraStart dir pos) + 4) {b : Bounds}
    (hwiden : (narrowBounds dir pos).widenAll dir (extraStart dir pos + 4)
      (Bounds.fieldEnd dir (extraStart dir pos)) = some b) :
    parse dir pos = .ok (ofRecord dir pos b, pos + declaredLength dir pos) := by
  rw [parse_of_held hheld, if_neg fun hne => hne hsignature, Bounds.resolve_of_wide hle hid, hwiden,
    Option.bind_some, Bounds.resolve_of_stop_lt hend]

theorem exists_of_parse_eq_ok {e : Entry} {next : Nat} (h : parse dir pos = .ok (e, next)) :
    pos + declaredLength dir pos ≤ dir.size ∧ numberAt dir pos 4 = recordSignature ∧
      ∃ b, (narrowBounds dir pos).resolve dir (extraStart dir pos) (pos + ownLength dir pos) = some b ∧
        e = ofRecord dir pos b := by
  have hheld : pos + declaredLength dir pos ≤ dir.size := by
    simp only [parse] at h
    simp only [declaredLength, ownLength]
    split at h
    · cases h
    · split at h
      · cases h
      · split at h
        · cases h
        · split at h
          · cases h
          · omega
  rw [parse_of_held hheld] at h
  refine ⟨hheld, ?_⟩
  split at h
  · cases h
  · rename_i hsignature
    refine ⟨Decidable.not_not.1 hsignature, ?_⟩
    split at h
    · cases h
    · rename_i b hresolve
      refine ⟨b, hresolve, ?_⟩
      simp only [Except.ok.injEq, Prod.mk.injEq] at h
      exact h.1.symm

/-! ### Records with the same bytes of their own -/

section Same

variable (h : slice dir' pos' (ownLength dir pos) = slice dir pos (ownLength dir pos))

include h

theorem numberAt_own {k width : Nat} (hle : k + width ≤ ownLength dir pos) :
    numberAt dir' (pos' + k) width = numberAt dir (pos + k) width :=
  numberAt_of_byteAt (fun _ hi => byteAt_eq_of_slice_eq h hi) hle

theorem numberAt_fixed {k width : Nat} (hle : k + width ≤ recordLength) :
    numberAt dir' (pos' + k) width = numberAt dir (pos + k) width :=
  numberAt_own h (Nat.le_trans hle (by simp only [ownLength]; omega))

theorem lengths_own : ownLength dir' pos' = ownLength dir pos ∧
    declaredLength dir' pos' = declaredLength dir pos ∧
    extraStart dir' pos' = pos' + (recordLength + numberAt dir (pos + 28) 2) := by
  have hname := numberAt_fixed h (show 28 + 2 ≤ recordLength by decide)
  have hextra := numberAt_fixed h (show 30 + 2 ≤ recordLength by decide)
  have hcomment := numberAt_fixed h (show 32 + 2 ≤ recordLength by decide)
  simp only [declaredLength, ownLength, extraStart, hname, hextra, hcomment, Nat.add_assoc, and_self]

theorem narrowBounds_own : narrowBounds dir' pos' = narrowBounds dir pos := by
  simp only [narrowBounds, u32At, numberAt_fixed h (show 24 + 4 ≤ recordLength by decide),
    numberAt_fixed h (show 20 + 4 ≤ recordLength by decide),
    numberAt_fixed h (show 42 + 4 ≤ recordLength by decide)]

theorem ofRecord_own (hsize : pos + declaredLength dir pos ≤ dir.size)
    (hsize' : pos' + declaredLength dir pos ≤ dir'.size) (b : Bounds) :
    ofRecord dir' pos' b = ofRecord dir pos b := by
  obtain ⟨-, -, hstart⟩ := lengths_own h
  have hown : recordLength + numberAt dir (pos + 28) 2 ≤ ownLength dir pos := Nat.le_add_right _ _
  have hdeclared := ownLength_le_declaredLength dir pos
  have hname : dir'.extract (pos' + recordLength) (extraStart dir' pos') =
      dir.extract (pos + recordLength) (extraStart dir pos) := by
    have hslice := congrArg (fun x => slice x recordLength (numberAt dir (pos + 28) 2)) h
    simp only [slice_slice, Nat.min_eq_left (show numberAt dir (pos + 28) 2 ≤
      ownLength dir pos - recordLength by omega)] at hslice
    rw [hstart, extraStart, ← Nat.add_assoc]
    simp only [slice] at hslice
    rwa [Nat.min_eq_left (by omega), Nat.min_eq_left (by omega), Nat.min_eq_left (by omega),
      Nat.min_eq_left (by omega)] at hslice
  simp only [ofRecord, hname, u16At, u32At, numberAt_fixed h (show 8 + 2 ≤ recordLength by decide),
    numberAt_fixed h (show 10 + 2 ≤ recordLength by decide),
    numberAt_fixed h (show 16 + 4 ≤ recordLength by decide)]

end Same

/-- Records have the same entry if their bytes are the same as far as those go that decide over the values. -/
theorem parse_eq_of_slice_eq {n : Nat} (h : slice dir' pos' n = slice dir pos n) (hn : pos + n ≤ dir.size)
    (hn' : pos' + n ≤ dir'.size) (hsize : pos + declaredLength dir pos ≤ dir.size)
    (hsize' : pos' + declaredLength dir pos ≤ dir'.size) (hown : ownLength dir pos ≤ n)
    (hreach : reach dir pos ≤ pos + n) : (parse dir' pos').map Prod.fst = (parse dir pos).map Prod.fst := by
  have hsame : slice dir' pos' (ownLength dir pos) = slice dir pos (ownLength dir pos) := by
    have hpart := congrArg (fun x => slice x 0 (ownLength dir pos)) h
    simpa only [slice_slice, Nat.add_zero, Nat.sub_zero, Nat.min_eq_left hown] using hpart
  obtain ⟨hlength, hdeclared, hstart⟩ := lengths_own hsame
  have hsignature := numberAt_fixed hsame (show 0 + 4 ≤ recordLength by decide)
  rw [Nat.add_zero, Nat.add_zero] at hsignature
  have hresolve : (narrowBounds dir pos).resolve dir (extraStart dir pos) (pos + ownLength dir pos) =
      (narrowBounds dir pos).resolve dir' (extraStart dir' pos') (pos' + ownLength dir pos) := by
    rw [hstart, extraStart, Nat.add_assoc]
    apply Bounds.resolve_eq_of_byteAt (fun _ hi => (byteAt_eq_of_slice_eq h hi).symm) hn hn' hown
    rw [← Nat.add_assoc]
    exact hreach
  rw [parse_of_held hsize, parse_of_held (by omega), hlength, hdeclared, narrowBounds_own hsame, ← hresolve,
    hsignature]
  split
  · rfl
  · cases (narrowBounds dir pos).resolve dir (extraStart dir pos) (pos + ownLength dir pos) with
    | none => rfl
    | some b => simp only [Except.map, ofRecord_own hsame hsize hsize']

/-- Where a value is taken from beyond `limit`, another directory is the same up to there and gives another
entry for the record. -/
theorem exists_parse_ne_of_lt_reach {limit : Nat} {e : Entry} {next : Nat} (h : parse dir pos = .ok (e, next))
    (hlimit : pos + ownLength dir pos ≤ limit) (hover : limit < reach dir pos) :
    ∃ dir' : ByteArray, dir'.size = dir.size ∧ slice dir' 0 limit = slice dir 0 limit ∧
      ∀ next', parse dir' pos ≠ .ok (e, next') := by
  obtain ⟨hheld, -, b, hresolve, rfl⟩ := exists_of_parse_eq_ok h
  have hle := ownLength_le_declaredLength dir pos
  have hreach : reach dir pos ≤ dir.size :=
    (Bounds.resolve_ne_none_iff (by omega)).1 (by rw [hresolve]; exact Option.some_ne_none b)
  obtain ⟨dir', hsize, hsame, hne⟩ := exists_byteAt_ne (show reach dir pos - 1 < dir.size by omega)
  have hslice : slice dir' 0 limit = slice dir 0 limit := by
    apply ext_byteAt (by rw [size_slice, size_slice, hsize])
    intro j hj
    rw [size_slice] at hj
    rw [byteAt_slice, byteAt_slice, hsame _ (by omega)]
  have hown : slice dir' pos (ownLength dir pos) = slice dir pos (ownLength dir pos) :=
    slice_eq_of_slice_eq hslice (Nat.zero_le _) (by omega)
  refine ⟨dir', hsize, hslice, fun next' hparse => ?_⟩
  obtain ⟨-, -, b', hresolve', heq⟩ := exists_of_parse_eq_ok hparse
  obtain ⟨hownLength, -, hstart⟩ := lengths_own hown
  rw [narrowBounds_own hown, hownLength, hstart, ← Nat.add_assoc] at hresolve'
  have hbounds : b' = b := by
    have hcompressed : b'.compressed = b.compressed := (congrArg compressedSize heq).symm
    have huncompressed : b'.uncompressed = b.uncompressed := (congrArg uncompressedSize heq).symm
    have hoffset : b'.offset = b.offset := (congrArg headerOffset heq).symm
    cases b
    cases b'
    simp_all
  rw [hbounds, ← hresolve] at hresolve'
  exact Bounds.resolve_ne (Nat.lt_of_le_of_lt hlimit hover) hreach hsize hsame hne hresolve'

/-- Where a value is taken from beyond the extra field, another directory has the same bytes of the record
and gives another entry for it. -/
theorem exists_parse_ne {e : Entry} {next : Nat} (h : parse dir pos = .ok (e, next))
    (hover : Overruns dir pos) :
    ∃ dir' : ByteArray, dir'.size = dir.size ∧
      slice dir' pos (ownLength dir pos) = slice dir pos (ownLength dir pos) ∧
      ∀ next', parse dir' pos ≠ .ok (e, next') := by
  obtain ⟨hheld, -⟩ := exists_of_parse_eq_ok h
  have hle := ownLength_le_declaredLength dir pos
  obtain ⟨dir', hsize, hslice, hne⟩ :=
    exists_parse_ne_of_lt_reach h (Nat.le_refl _) ((Bounds.overruns_iff (by omega)).1 hover)
  exact ⟨dir', hsize, slice_eq_of_slice_eq hslice (Nat.zero_le _) (by omega), hne⟩

/-- The bytes of its own determine the entry of a record exactly if no value is taken from beyond the extra
field: then every directory that has them, and the declared length of the record, gives the same entry. -/
theorem parse_determined_iff {e : Entry} {next : Nat} (h : parse dir pos = .ok (e, next)) :
    (∀ (dir' : ByteArray) (pos' : Nat),
      slice dir' pos' (ownLength dir pos) = slice dir pos (ownLength dir pos) →
      pos' + declaredLength dir pos ≤ dir'.size → (parse dir' pos').map Prod.fst = .ok e) ↔
        ¬ Overruns dir pos := by
  obtain ⟨hheld, -⟩ := exists_of_parse_eq_ok h
  constructor
  · intro hall hover
    obtain ⟨dir', hsize, hown, hne⟩ := exists_parse_ne h hover
    have hsame := hall dir' pos hown (by omega)
    cases hparse : parse dir' pos with
    | error fault =>
        rw [hparse] at hsame
        cases hsame
    | ok result =>
        rw [hparse] at hsame
        obtain rfl : result.1 = e := Except.ok.inj hsame
        exact hne result.2 hparse
  · intro hnot dir' pos' hown hsize
    have hle := ownLength_le_declaredLength dir pos
    have hreach : reach dir pos ≤ pos + ownLength dir pos :=
      Nat.le_of_not_lt fun hover => hnot ((Bounds.overruns_iff (by omega)).2 hover)
    rw [parse_eq_of_slice_eq hown (by omega) (by omega) hheld hsize (Nat.le_refl _) hreach, h]
    rfl

theorem parse_determined_iff_largeRecord :
    parse Layout.largeRecord.bytes 0 = .ok (Layout.largeRecord.entry, 0 + Layout.largeRecord.bytes.size) ∧
      ((∀ (dir' : ByteArray) (pos' : Nat),
        slice dir' pos' (ownLength Layout.largeRecord.bytes 0) =
          slice Layout.largeRecord.bytes 0 (ownLength Layout.largeRecord.bytes 0) →
        pos' + declaredLength Layout.largeRecord.bytes 0 ≤ dir'.size →
          (parse dir' pos').map Prod.fst = .ok Layout.largeRecord.entry) ↔
            ¬ Overruns Layout.largeRecord.bytes 0) := by
  have hparse := DirectoryRecord.parse_of_has (Has.refl Layout.largeRecord.bytes)
  exact ⟨hparse, parse_determined_iff hparse⟩

/-- The own bytes of a record whose only extra field says that it has eight bytes, of which the extra field
has none. -/
def overrunningOwn : ByteArray :=
  pack [(4, recordSignature), (2, 20), (2, 20), (2, 0), (2, 0), (2, 0), (2, 0), (4, 0), (4, 0), (4, 0xFFFFFFFF),
    (2, 1), (2, 4), (2, 8), (2, 0), (2, 0), (4, 0), (4, 0), (1, 0x61), (2, Bounds.wideId), (2, 8)]

/-- The number in the comment of the record stands where they would be. -/
def overrunning (comment : Nat) : ByteArray := overrunningOwn ++ pack [(8, comment)]

/-- A size is taken from the comment, so the record's own bytes do not determine its entry. -/
theorem not_determined_by_own_bytes :
    ¬ ∀ (dir dir' : ByteArray) (pos pos' : Nat) (e : Entry) (next : Nat), parse dir pos = .ok (e, next) →
      slice dir' pos' (ownLength dir pos) = slice dir pos (ownLength dir pos) →
      pos' + declaredLength dir pos ≤ dir'.size → (parse dir' pos').map Prod.fst = .ok e := by
  intro hall
  have hone : parse (overrunning 1) 0 = .ok (ofRecord (overrunning 1) 0 ⟨1, 0, 0⟩, _) :=
    parse_of_wide (by decide +kernel) (by decide +kernel) (by decide +kernel) (by decide +kernel)
      (by decide +kernel) (by decide +kernel)
  have htwo : parse (overrunning 2) 0 = .ok (ofRecord (overrunning 2) 0 ⟨2, 0, 0⟩, _) :=
    parse_of_wide (by decide +kernel) (by decide +kernel) (by decide +kernel) (by decide +kernel)
      (by decide +kernel) (by decide +kernel)
  have hlength : ownLength (overrunning 1) 0 = 51 := by decide +kernel
  have hle : 0 + 51 ≤ overrunningOwn.size := by decide +kernel
  have hown : slice (overrunning 2) 0 (ownLength (overrunning 1) 0) =
      slice (overrunning 1) 0 (ownLength (overrunning 1) 0) := by
    rw [hlength, overrunning, overrunning, slice_append_left _ hle, slice_append_left _ hle]
  have hsame := hall _ (overrunning 2) 0 0 _ _ hone hown (by decide +kernel)
  rw [htwo] at hsame
  have huncompressed : (2 : UInt64) = 1 := congrArg uncompressedSize (Except.ok.inj hsame)
  exact absurd huncompressed (by decide)

end Entry

end DexArchive.Zip
