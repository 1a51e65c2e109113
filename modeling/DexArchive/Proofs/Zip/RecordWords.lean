import DexArchive.Proofs.Words
import DexArchive.Proofs.Zip.Confinement
import DexArchive.Proofs.Zip.EndRecord

/-! Reading the records of an archive with machine words. Whatever numbers the records hold, all places that
are computed from them are within the buffer or are found to be beyond it before they are used. -/

namespace DexArchive.Zip

open Halt Word

/-! ### Records of a fixed length -/

/-- Goes on with bytes that are long enough for a record and begin with its signature. -/
def beginsChecked (b : ByteArray) (length signature : Nat) (fault : Malformed) : Except (Halt Malformed) Unit :=
  if b.size < length then throw (.fails fault)
  else do
    let start ← demand (part? b 0 4)
    if numberAt start 0 4 ≠ signature then throw (.fails fault) else pure ()

/-- Reading a record whose fields are all within its length. -/
theorem beginsChecked_bind {α : Type} {b : ByteArray} {length signature : Nat} {fault : Malformed} {a : α}
    {f : Unit → Except (Halt Malformed) α} (h : 4 ≤ length) (hf : length ≤ b.size → f () = .ok a) :
    (beginsChecked b length signature fault >>= f) =
      Except.mapError Halt.fails
        (if b.size < length ∨ numberAt b 0 4 ≠ signature then .error fault else .ok a) := by
  unfold beginsChecked
  by_cases hshort : b.size < length
  · rw [if_pos hshort, if_pos (.inl hshort)]
    rfl
  · have hstart : slice b 0 (4 - 0) = slice b 0 4 := rfl
    rw [if_neg hshort, demand_bind (part?_of_le (Nat.zero_le _) (by omega)), hstart,
      numberAt_slice b (show 0 + 4 ≤ 4 by decide), Nat.add_zero]
    by_cases hsignature : numberAt b 0 4 ≠ signature
    · rw [if_pos hsignature, if_pos (.inr hsignature)]
      rfl
    · rw [if_neg hsignature, if_neg (not_or.2 ⟨hshort, hsignature⟩)]
      exact hf (Nat.le_of_not_lt hshort)

namespace EndRecord

variable {b : ByteArray} {pos n : Nat}

def parseChecked (b : ByteArray) : Except (Halt Malformed) EndRecord := do
  beginsChecked b length signature .badEndRecord
  let diskNumber ← demand (number? b 4 2)
  let directoryDisk ← demand (number? b 6 2)
  let diskEntries ← demand (number? b 8 2)
  let totalEntries ← demand (number? b 10 2)
  let directorySize ← demand (number? b 12 4)
  let directoryOffset ← demand (number? b 16 4)
  let commentLength ← demand (number? b 20 2)
  return ⟨.ofNat diskNumber, .ofNat directoryDisk, .ofNat diskEntries, .ofNat totalEntries,
    .ofNat directorySize, .ofNat directoryOffset, .ofNat commentLength⟩

theorem parseChecked_eq (b : ByteArray) : parseChecked b = (parse b).mapError .fails := by
  have hlength : length = 22 := rfl
  refine beginsChecked_bind (by decide) fun hle => ?_
  have hfield : ∀ place width, place + width ≤ length → number? b place width = some (numberAt b place width) :=
    fun place width hfits => number?_of_le (by omega)
  rw [demand_bind (hfield 4 2 (by decide)), demand_bind (hfield 6 2 (by decide)),
    demand_bind (hfield 8 2 (by decide)), demand_bind (hfield 10 2 (by decide)),
    demand_bind (hfield 12 4 (by decide)), demand_bind (hfield 16 4 (by decide)),
    demand_bind (hfield 20 2 (by decide))]
  rfl

/-- The search through the first `n` places, from the last of them on. -/
def lastPlaceChecked (b : ByteArray) : (n : Nat) → Except (Halt Malformed) (Option Nat)
  | 0 => return none
  | n + 1 => do
    let stop ← demand (sum? n 4)
    let start ← demand (part? b n stop)
    if numberAt start 0 4 ≠ signature then lastPlaceChecked b n
    else
      let place ← demand (sum? n 20)
      let comment ← demand (number? b place 2)
      let rest ← demand (difference? b.size n)
      let rest ← demand (difference? rest length)
      if comment = rest then return some n else lastPlaceChecked b n

theorem lastPlaceChecked_eq (hsize : b.size < 2 ^ 63) (hn : n = 0 ∨ n + 21 ≤ b.size) :
    lastPlaceChecked b n = .ok (lastPlace? b n) := by
  have hlength : length = 22 := rfl
  induction n with
  | zero => rfl
  | succ n ih =>
      have hrest := ih (by omega)
      rw [lastPlaceChecked, demand_bind (sum?_of_lt (by omega)), demand_bind (part?_of_le (by omega) (by omega)),
        numberAt_slice b (by omega), Nat.add_zero]
      unfold lastPlace?
      by_cases hsignature : numberAt b n 4 ≠ signature
      · rw [if_pos hsignature, if_neg fun hstands : StandsAt b n => hsignature hstands.1, hrest]
      · rw [if_neg hsignature, demand_bind (sum?_of_lt (by omega)), demand_bind (number?_of_le (by omega)),
          demand_bind (difference?_of_le (by omega)), demand_bind (difference?_of_le (by omega))]
        by_cases hcomment : numberAt b (n + 20) 2 = b.size - n - length
        · have hstands : StandsAt b n := ⟨Decidable.not_not.1 hsignature, hcomment⟩
          rw [if_pos hcomment, if_pos hstands]
          rfl
        · rw [if_neg hcomment, if_neg fun hstands : StandsAt b n => hcomment hstands.2, hrest]

def placeChecked (b : ByteArray) : Except (Halt Malformed) (Option Nat) := do
  let last ← demand (difference? b.size length)
  lastPlaceChecked b (last + 1)

theorem placeChecked_eq (hle : length ≤ b.size) (hsize : b.size < 2 ^ 63) :
    placeChecked b = .ok (place? b) := by
  have hlength : length = 22 := rfl
  rw [placeChecked, demand_bind (difference?_of_le hle), lastPlaceChecked_eq hsize (by omega), place?,
    show b.size - length + 1 = b.size + 1 - length by omega]

/-- The end record at a place that was found. -/
def atChecked (b : ByteArray) (pos : Nat) : Except (Halt Malformed) EndRecord := do
  let stop ← demand (sum? pos length)
  parseChecked (← demand (part? b pos stop))

theorem atChecked_eq (hsize : b.size < 2 ^ 63) (h : IsLast b pos) : atChecked b pos = .ok (.ofBytesAt b pos) := by
  have hlength : length = 22 := rfl
  have hle := h.le
  have hsignature : numberAt (slice b pos length) 0 4 = signature := by
    rw [numberAt_slice b (by decide), Nat.add_zero]
    exact h.standsAt.1
  have hsliced := size_slice b pos length
  rw [atChecked, demand_bind (sum?_of_lt (by omega)), demand_bind (part?_of_le (by omega) hle),
    Nat.add_sub_cancel_left, parseChecked_eq, parse, if_neg (not_or.2 ⟨by omega, not_not_intro hsignature⟩),
    ofBytesAt_slice (by omega), Nat.add_zero]
  rfl

end EndRecord

theorem Locator.length_eq : Locator.length = 20 := rfl

def Locator.parseChecked (b : ByteArray) : Except (Halt Malformed) Locator := do
  beginsChecked b length signature .badLocator
  return ⟨.ofNat (← demand (number? b 8 8))⟩

theorem Locator.parseChecked_eq (b : ByteArray) : parseChecked b = (parse b).mapError .fails := by
  refine beginsChecked_bind (by decide) fun hle => ?_
  rw [Locator.length_eq] at hle
  rw [demand_bind (number?_of_le (by omega))]
  rfl

theorem WideEndRecord.length_eq : WideEndRecord.length = 56 := rfl

def WideEndRecord.parseChecked (b : ByteArray) : Except (Halt Malformed) WideEndRecord := do
  beginsChecked b length signature .badWideEndRecord
  let totalEntries ← demand (number? b 32 8)
  let directorySize ← demand (number? b 40 8)
  let directoryOffset ← demand (number? b 48 8)
  return ⟨.ofNat totalEntries, .ofNat directorySize, .ofNat directoryOffset⟩

theorem WideEndRecord.parseChecked_eq (b : ByteArray) : parseChecked b = (parse b).mapError .fails := by
  refine beginsChecked_bind (by decide) fun hle => ?_
  rw [WideEndRecord.length_eq] at hle
  rw [demand_bind (number?_of_le (by omega)), demand_bind (number?_of_le (by omega)),
    demand_bind (number?_of_le (by omega))]
  rfl

/-! ### Records of the directory -/

namespace Bounds

variable {dir : ByteArray} {pos stop : Nat}

def widenChecked (dir : ByteArray) (stop : Nat) (value : UInt64) (pos : Nat) :
    Except (Halt RecordFault) (UInt64 × Nat) :=
  if value ≠ saturated then return (value, pos)
  else do
    let next ← demand (sum? pos 8)
    if stop < next then return (value, pos)
    else if dir.size < next then throw (.fails .truncated)
    else return (.ofNat (← demand (number? dir pos 8)), next)

def widenAllChecked (dir : ByteArray) (pos stop : Nat) (b : Bounds) : Except (Halt RecordFault) Bounds := do
  let (uncompressed, pos) ← widenChecked dir stop b.uncompressed pos
  let (compressed, pos) ← widenChecked dir stop b.compressed pos
  let (offset, _) ← widenChecked dir stop b.offset pos
  return ⟨uncompressed, compressed, offset⟩

/-- What is not there is missing at the end of the directory. -/
def orTruncated {α : Type} : Option α → Except (Halt RecordFault) α
  | none => .error (.fails .truncated)
  | some a => .ok a

theorem orTruncated_bind {α β : Type} {x : Option α} {f : α → Except (Halt RecordFault) β} {g : α → Option β}
    (h : ∀ a, x = some a → f a = orTruncated (g a)) : (orTruncated x >>= f) = orTruncated (x.bind g) := by
  cases x with
  | none => rfl
  | some a => exact h a rfl

theorem widenChecked_eq (hpos : pos + 8 < 2 ^ 64) (value : UInt64) :
    widenChecked dir stop value pos = orTruncated (widen dir stop value pos) := by
  unfold widenChecked widen
  by_cases hvalue : value ≠ saturated
  · rw [if_pos hvalue, if_neg fun h => hvalue h.1]
    rfl
  · have hvalue' := Decidable.not_not.1 hvalue
    rw [if_neg hvalue, demand_bind (sum?_of_lt hpos)]
    by_cases hstop : stop < pos + 8
    · rw [if_pos hstop, if_neg fun h => absurd h.2 (Nat.not_le.2 hstop)]
      rfl
    · have htaken : value = saturated ∧ pos + 8 ≤ stop := ⟨hvalue', Nat.le_of_not_lt hstop⟩
      rw [if_neg hstop, if_pos htaken]
      by_cases hsize : dir.size < pos + 8
      · rw [if_pos hsize, if_neg (Nat.not_le.2 hsize)]
        rfl
      · rw [if_neg hsize, if_pos (Nat.le_of_not_lt hsize), demand_bind (number?_of_le (Nat.le_of_not_lt hsize))]
        rfl

theorem le_of_widen_eq_some {value value' : UInt64} {next : Nat}
    (h : widen dir stop value pos = some (value', next)) : next ≤ pos + 8 := by
  unfold widen at h
  by_cases htaken : value = saturated ∧ pos + 8 ≤ stop
  · rw [if_pos htaken] at h
    by_cases hsize : pos + 8 ≤ dir.size
    · rw [if_pos hsize] at h
      exact Nat.le_of_eq (Prod.ext_iff.1 (Option.some.inj h)).2.symm
    · rw [if_neg hsize] at h
      cases h
  · rw [if_neg htaken] at h
    have heq : pos = next := (Prod.ext_iff.1 (Option.some.inj h)).2
    omega

theorem widenAllChecked_eq (hpos : pos + 24 < 2 ^ 64) (b : Bounds) :
    b.widenAllChecked dir pos stop = orTruncated (b.widenAll dir pos stop) := by
  unfold widenAllChecked widenAll
  rw [widenChecked_eq (by omega)]
  refine orTruncated_bind ?_
  rintro ⟨uncompressed, pos₁⟩ huncompressed
  have hle₁ := le_of_widen_eq_some huncompressed
  simp only
  rw [widenChecked_eq (by omega)]
  refine orTruncated_bind ?_
  rintro ⟨compressed, pos₂⟩ hcompressed
  have hle₂ := le_of_widen_eq_some hcompressed
  simp only
  rw [widenChecked_eq (by omega)]
  exact orTruncated_bind fun _ _ => rfl

/-- Goes through the extra field, looking at each step. -/
def resolveChecked (dir : ByteArray) (pos stop : Nat) (b : Bounds) : Except (Halt RecordFault) Bounds :=
  match _hheader : sum? pos 4 with
  | none => throw .outOfRange
  | some header =>
    if stop < header then return b
    else do
      let id ← demand (number? dir pos 2)
      let size ← demand (number? dir (pos + 2) 2)
      match _hnext : sum? header size with
      | none => throw .outOfRange
      | some next =>
        if id = wideId then resolveChecked dir next stop (← b.widenAllChecked dir header next)
        else resolveChecked dir next stop b
termination_by stop - pos
decreasing_by
  all_goals
    have hheader := eq_add_of_sum? _hheader
    have hnext := eq_add_of_sum? _hnext
    omega

theorem resolveChecked_eq (hsize : dir.size < 2 ^ 63) (hstop : stop ≤ dir.size) (hpos : pos ≤ dir.size + 2 ^ 17)
    (b : Bounds) : resolveChecked dir pos stop b = orTruncated (resolve dir pos stop b) := by
  induction hrest : stop - pos using Nat.strongRecOn generalizing pos b with
  | ind n ih =>
      rw [resolveChecked]
      split
      · rename_i hnone
        rw [sum?_of_lt (by omega)] at hnone
        cases hnone
      · rename_i header hheader
        obtain rfl := eq_add_of_sum? hheader
        by_cases hend : stop < pos + 4
        · rw [if_pos hend, resolve_of_stop_lt hend]
          rfl
        · have hle := Nat.le_of_not_lt hend
          have hlt := numberAt_lt dir (pos + 2) 2
          rw [if_neg hend, demand_bind (number?_of_le (by omega)), demand_bind (number?_of_le (by omega))]
          split
          · rename_i hnone
            rw [sum?_of_lt (by omega)] at hnone
            cases hnone
          · rename_i next hnext
            obtain rfl := eq_add_of_sum? hnext
            have hfield : fieldEnd dir pos = pos + 4 + numberAt dir (pos + 2) 2 := rfl
            by_cases hid : numberAt dir pos 2 = wideId
            · rw [if_pos hid, resolve_of_wide hle hid, hfield, widenAllChecked_eq (by omega)]
              exact orTruncated_bind fun b' _ => ih _ (by omega) (by omega) b' rfl
            · rw [if_neg hid, resolve_of_other hle hid, hfield]
              exact ih _ (by omega) (by omega) b rfl

end Bounds

namespace Entry

variable {dir : ByteArray} {pos : Nat}

/-- The number in a field of the record at `pos`. -/
def fieldChecked (dir : ByteArray) (pos place width : Nat) : Except (Halt RecordFault) Nat := do
  let place ← demand (sum? pos place)
  demand (number? dir place width)

theorem fieldChecked_bind {α : Type} {place width : Nat} (hpos : pos + place < 2 ^ 64)
    (hle : pos + place + width ≤ dir.size) (f : Nat → Except (Halt RecordFault) α) :
    (fieldChecked dir pos place width >>= f) = f (numberAt dir (pos + place) width) := by
  rw [fieldChecked, demand_bind (sum?_of_lt hpos), demand_bind (number?_of_le hle)]

/-- Reads the record at `pos`, looking at each step. -/
def parseChecked (dir : ByteArray) (pos : Nat) : Except (Halt RecordFault) (Entry × Nat) := do
  let start ← demand (sum? pos 4)
  if dir.size < start then throw (.fails .truncated)
  else
    let found ← demand (number? dir pos 4)
    if found ≠ recordSignature then throw (.fails .badSignature)
    else
      let fixed ← demand (sum? pos recordLength)
      if dir.size < fixed then throw (.fails .truncated)
      else
        let flags ← fieldChecked dir pos 8 2
        let method ← fieldChecked dir pos 10 2
        let crc ← fieldChecked dir pos 16 4
        let compressed ← fieldChecked dir pos 20 4
        let uncompressed ← fieldChecked dir pos 24 4
        let nameLength ← fieldChecked dir pos 28 2
        let extraLength ← fieldChecked dir pos 30 2
        let commentLength ← fieldChecked dir pos 32 2
        let offset ← fieldChecked dir pos 42 4
        let nameEnd ← demand (sum? fixed nameLength)
        if dir.size < nameEnd then throw (.fails .truncated)
        else
          let name ← demand (part? dir fixed nameEnd)
          let extraEnd ← demand (sum? nameEnd extraLength)
          let stop ← demand (sum? extraEnd commentLength)
          if dir.size < stop then throw (.fails .overrun)
          else
            let bounds : Bounds :=
              ⟨(UInt32.ofNat uncompressed).toUInt64, (UInt32.ofNat compressed).toUInt64,
                (UInt32.ofNat offset).toUInt64⟩
            let bounds ← bounds.resolveChecked dir nameEnd extraEnd
            return ({ name := Text.ofUtf8 name
                      method := .ofId (.ofNat method)
                      compressedSize := bounds.compressed
                      uncompressedSize := bounds.uncompressed
                      crc := .ofNat crc
                      headerOffset := bounds.offset
                      flags := .ofNat flags }, stop)

theorem parseChecked_eq (hsize : dir.size < 2 ^ 63) (hpos : pos ≤ dir.size) :
    parseChecked dir pos = (parse dir pos).mapError .fails := by
  have hlength : recordLength = 46 := rfl
  rw [parseChecked, parse, demand_bind (sum?_of_lt (by omega))]
  by_cases hstart : dir.size < pos + 4
  · rw [if_pos hstart, if_pos hstart]
    rfl
  · rw [if_neg hstart, if_neg hstart, demand_bind (number?_of_le (by omega))]
    by_cases hsignature : numberAt dir pos 4 ≠ recordSignature
    · rw [if_pos hsignature, if_pos hsignature]
      rfl
    · rw [if_neg hsignature, if_neg hsignature, demand_bind (sum?_of_lt (by omega))]
      by_cases hfixed : dir.size < pos + recordLength
      · rw [if_pos hfixed, if_pos (.inl hfixed)]
        rfl
      · have hname := numberAt_lt dir (pos + 28) 2
        have hextra := numberAt_lt dir (pos + 30) 2
        have hcomment := numberAt_lt dir (pos + 32) 2
        rw [if_neg hfixed, fieldChecked_bind (by omega) (by omega), fieldChecked_bind (by omega) (by omega),
          fieldChecked_bind (by omega) (by omega), fieldChecked_bind (by omega) (by omega),
          fieldChecked_bind (by omega) (by omega), fieldChecked_bind (by omega) (by omega),
          fieldChecked_bind (by omega) (by omega), fieldChecked_bind (by omega) (by omega),
          fieldChecked_bind (by omega) (by omega), demand_bind (sum?_of_lt (by omega))]
        by_cases hnameEnd : dir.size < pos + recordLength + numberAt dir (pos + 28) 2
        · rw [if_pos hnameEnd, if_pos (.inr hnameEnd)]
          rfl
        · have hextract := slice_eq_extract dir (pos + recordLength) (numberAt dir (pos + 28) 2) (by omega)
          rw [if_neg hnameEnd, if_neg (not_or.2 ⟨hfixed, hnameEnd⟩), demand_bind (part?_of_le (by omega) (by omega)),
            demand_bind (sum?_of_lt (by omega)), demand_bind (sum?_of_lt (by omega)), Nat.add_sub_cancel_left,
            hextract]
          simp only
          by_cases hstop : dir.size < pos + recordLength + numberAt dir (pos + 28) 2 +
              numberAt dir (pos + 30) 2 + numberAt dir (pos + 32) 2
          · rw [if_pos hstop, if_pos hstop]
            rfl
          · rw [if_neg hstop, if_neg hstop, Bounds.resolveChecked_eq hsize (by omega) (by omega)]
            simp only [u16At, u32At]
            cases Bounds.resolve dir (pos + recordLength + numberAt dir (pos + 28) 2)
                (pos + recordLength + numberAt dir (pos + 28) 2 + numberAt dir (pos + 30) 2)
                ⟨(UInt32.ofNat (numberAt dir (pos + 24) 4)).toUInt64,
                  (UInt32.ofNat (numberAt dir (pos + 20) 4)).toUInt64,
                  (UInt32.ofNat (numberAt dir (pos + 42) 4)).toUInt64⟩ with
            | none => rfl
            | some bounds => rfl

/-- The next record begins within the directory. -/
theorem next_le_of_parse {e : Entry} {next : Nat} (h : parse dir pos = .ok (e, next)) : next ≤ dir.size := by
  have hheld := (exists_of_parse_eq_ok h).1
  rw [parse_of_held hheld] at h
  split at h
  · cases h
  · split at h
    · cases h
    · cases h
      exact hheld

end Entry

/-- Reads `count` records from `pos` on, looking at each step. -/
def parseRecordsChecked (dir : ByteArray) : (count index pos : Nat) → Except (Halt Malformed) (List Entry)
  | 0, _, _ => return []
  | count + 1, index, pos =>
    match Entry.parseChecked dir pos with
    | .error halt => throw (halt.map (.badRecord index))
    | .ok (entry, next) => do return entry :: (← parseRecordsChecked dir count (index + 1) next)

theorem parseRecordsChecked_eq {dir : ByteArray} (hsize : dir.size < 2 ^ 63) (count index : Nat) {pos : Nat}
    (hpos : pos ≤ dir.size) :
    parseRecordsChecked dir count index pos = (parseRecords dir count index pos).mapError .fails := by
  induction count generalizing index pos with
  | zero => rfl
  | succ count ih =>
      rw [parseRecordsChecked, parseRecords, Entry.parseChecked_eq hsize hpos]
      cases hparse : Entry.parse dir pos with
      | error fault => rfl
      | ok parsed =>
          obtain ⟨entry, next⟩ := parsed
          have hok : (Except.ok (entry, next) : Except RecordFault (Entry × Nat)).mapError Halt.fails =
              .ok (entry, next) := rfl
          rw [hok]
          dsimp only
          rw [ih (index + 1) (Entry.next_le_of_parse hparse)]
          cases parseRecords dir count (index + 1) next <;> rfl

end DexArchive.Zip
