import DexArchive.Proofs.Zip.Confinement

/-! What the extra fields of a record say. Where its extra field is made of whole fields, only those for wide
values matter, whatever bytes the others hold, and a field for wide values has a value for each saturated field
in turn, as long as there are whole values. -/

namespace DexArchive.Zip

/-! ### Values -/

namespace ExtraField

variable {dir : ByteArray} {f : ExtraField} {p : Nat}

/-- The field is one for wide values. -/
def isWide (f : ExtraField) : Bool := f.id.toNat = Bounds.wideId

/-- The whole values in the field. -/
def values (f : ExtraField) : List UInt64 := (List.range (f.data.size / 8)).map fun i => u64At f.data (8 * i)

theorem length_values (f : ExtraField) : f.values.length = f.data.size / 8 := by
  simp [values]

theorem getElem?_values_of_has (h : Has dir p f.data) {n : Nat} (hn : n < f.data.size / 8) :
    f.values[n]? = some (u64At dir (p + 8 * n)) := by
  have hnumber : numberAt dir (p + 8 * n) 8 = numberAt f.data (8 * n) 8 := h.numberAt (by omega)
  simp [values, hn, u64At, hnumber]

end ExtraField

namespace Bounds

open ExtraField

variable {dir : ByteArray} {f : ExtraField} {p : Nat}

/-- The value of a field that comes after the fields `before`: if it is saturated, a value of its own, the one
after those that the saturated fields before it take. -/
def valueAfter (before : List UInt64) (values : List UInt64) (value : UInt64) : UInt64 :=
  if value = saturated then (values[before.count saturated]?).getD value else value

/-- Each saturated field with its value, as far as there is one for it. -/
def withValues (b : Bounds) (values : List UInt64) : Bounds where
  uncompressed := valueAfter [] values b.uncompressed
  compressed := valueAfter [b.uncompressed] values b.compressed
  offset := valueAfter [b.uncompressed, b.compressed] values b.offset

/-- Where the values are read after those of the fields `before`. -/
theorem widened_eq_valueAfter (h : Has dir p f.data) (before : List UInt64) (value : UInt64) :
    widened dir (p + f.data.size) value (p + 8 * min (before.count saturated) (f.data.size / 8)) =
        valueAfter before f.values value ∧
      widenEnd (p + f.data.size) value (p + 8 * min (before.count saturated) (f.data.size / 8)) =
        p + 8 * min ((before ++ [value]).count saturated) (f.data.size / 8) := by
  rw [List.count_append, List.count_singleton]
  unfold widened widenEnd valueAfter
  generalize before.count saturated = n
  by_cases hsaturated : value = saturated
  · by_cases hn : n < f.data.size / 8
    · have htaken : value = saturated ∧ p + 8 * min n (f.data.size / 8) + 8 ≤ p + f.data.size :=
        ⟨hsaturated, by omega⟩
      rw [if_pos htaken, if_pos htaken, if_pos hsaturated, getElem?_values_of_has h hn, Option.getD_some,
        Nat.min_eq_left (Nat.le_of_lt hn)]
      refine ⟨rfl, ?_⟩
      simp only [hsaturated, beq_self_eq_true, if_true]
      omega
    · have hnot : ¬ (value = saturated ∧ p + 8 * min n (f.data.size / 8) + 8 ≤ p + f.data.size) := by
        rintro ⟨-, hle⟩
        omega
      have hnone : f.values[n]? = none := List.getElem?_eq_none (by rw [length_values]; omega)
      rw [if_neg hnot, if_neg hnot, if_pos hsaturated, hnone]
      refine ⟨rfl, ?_⟩
      split <;> omega
  · have hnot : ¬ (value = saturated ∧ p + 8 * min n (f.data.size / 8) + 8 ≤ p + f.data.size) :=
      fun htaken => hsaturated htaken.1
    have hne : (value == saturated) = false := beq_eq_false_iff_ne.2 hsaturated
    rw [if_neg hnot, if_neg hnot, if_neg hsaturated, hne]
    exact ⟨rfl, rfl⟩

theorem widenedAll_eq_withValues (h : Has dir p f.data) (b : Bounds) :
    b.widenedAll dir p (p + f.data.size) = b.withValues f.values := by
  obtain ⟨huncompressed, hfirst⟩ := widened_eq_valueAfter h [] b.uncompressed
  obtain ⟨hcompressed, hsecond⟩ := widened_eq_valueAfter h [b.uncompressed] b.compressed
  obtain ⟨hoffset, -⟩ := widened_eq_valueAfter h [b.uncompressed, b.compressed] b.offset
  simp only [List.count_nil, Nat.zero_min, Nat.mul_zero, Nat.add_zero, List.nil_append] at huncompressed hfirst
  simp only [List.singleton_append] at hsecond
  rw [widenedAll, hfirst, hsecond, huncompressed, hcompressed, hoffset]
  rfl

/-- The values that fields give one after the other: only those for wide values have any. -/
def resolvedBy (fields : List ExtraField) (b : Bounds) : Bounds :=
  (fields.filter isWide).foldl (fun b f => b.withValues f.values) b

theorem resolvedBy_filter (fields : List ExtraField) (b : Bounds) :
    resolvedBy (fields.filter isWide) b = resolvedBy fields b := by
  rw [resolvedBy, resolvedBy, List.filter_filter]
  simp only [Bool.and_self]

variable {pos stop : Nat}

theorem resolve_of_isWide (h : Has dir pos f.bytes) (hwide : f.isWide) (hdata : f.data.size < 2 ^ 16)
    (hle : pos + f.bytes.size ≤ stop) (hstop : stop ≤ dir.size) (b : Bounds) :
    resolve dir pos stop b = resolve dir (pos + f.bytes.size) stop (b.withValues f.values) := by
  obtain ⟨hidAt, hsizeAt⟩ := id_and_size_of_has h hdata
  have hsize := f.size_bytes
  have hid : numberAt dir pos 2 = wideId := hidAt.trans (of_decide_eq_true hwide)
  have hdataAt : Has dir (pos + 4) f.data := h.append_right
  have hend : fieldEnd dir pos = pos + 4 + f.data.size := by rw [fieldEnd, hsizeAt]
  have hwithin := wideEnd_le (Nat.le_add_right (pos + 4) f.data.size) b
  rw [resolve_of_wide (by omega) hid, hend, widenAll_eq (by omega), Option.bind_some,
    widenedAll_eq_withValues hdataAt, hsize, Nat.add_assoc]

/-- Whole fields, with fewer bytes after them than another would have. -/
theorem resolve_of_fields {fields : List ExtraField} (h : Has dir pos (bytesOfAll fields))
    (hdata : ∀ f ∈ fields, f.data.size < 2 ^ 16) (hle : pos + (bytesOfAll fields).size ≤ stop)
    (hlt : stop < pos + (bytesOfAll fields).size + 4) (hstop : stop ≤ dir.size) (b : Bounds) :
    resolve dir pos stop b = some (resolvedBy fields b) := by
  induction fields generalizing pos b with
  | nil => exact resolve_of_stop_lt hlt b
  | cons f fields ih =>
      rw [bytesOfAll_cons] at h hle hlt
      rw [ByteArray.size_append] at hle hlt
      obtain ⟨hfirst, hothers⟩ := List.forall_mem_cons.1 hdata
      have hrest := fun b => ih h.append_right hothers (by omega) (by omega) b
      by_cases hwide : f.isWide
      · rw [resolve_of_isWide h.append_left hwide hfirst (by omega) hstop, hrest, resolvedBy, resolvedBy,
          List.filter_cons_of_pos hwide, List.foldl_cons]
      · rw [resolve_of_ne h.append_left (fun hid => hwide (decide_eq_true hid)) hfirst (by omega), hrest,
          resolvedBy, resolvedBy, List.filter_cons_of_neg hwide]

end Bounds

/-! ### Records -/

namespace Entry

open ExtraField

variable {dir dir' : ByteArray} {pos pos' : Nat} {fields : List ExtraField} {stray : ByteArray}

/-- A whole record is at `pos`; its extra field is made of the given fields and of some bytes after them that are
too few for another one. -/
structure HasFields (dir : ByteArray) (pos : Nat) (fields : List ExtraField) (stray : ByteArray) : Prop where
  signature_eq : numberAt dir pos 4 = recordSignature
  held : pos + declaredLength dir pos ≤ dir.size
  extra_eq : slice dir (extraStart dir pos) (numberAt dir (pos + 30) 2) = bytesOfAll fields ++ stray
  stray_lt : stray.size < 4

/-- Two records are the same but for the extra field and its length. -/
structure SameButExtra (dir : ByteArray) (pos : Nat) (dir' : ByteArray) (pos' : Nat) : Prop where
  before_eq : slice dir' pos' 30 = slice dir pos 30
  after_eq : slice dir' (pos' + 32) 14 = slice dir (pos + 32) 14
  name_eq : slice dir' (pos' + recordLength) (numberAt dir (pos + 28) 2) =
    slice dir (pos + recordLength) (numberAt dir (pos + 28) 2)

theorem HasFields.size_eq (h : HasFields dir pos fields stray) :
    (bytesOfAll fields).size + stray.size = numberAt dir (pos + 30) 2 := by
  have hheld := h.held
  have hsize := congrArg ByteArray.size h.extra_eq
  simp only [declaredLength, ownLength] at hheld
  rw [size_slice, ByteArray.size_append, extraStart] at hsize
  omega

/-- The entry of a record with whole fields. -/
theorem HasFields.parse_eq (h : HasFields dir pos fields stray) :
    parse dir pos =
      .ok (ofRecord dir pos ((narrowBounds dir pos).resolvedBy fields), pos + declaredLength dir pos) := by
  have hheld := h.held
  have hsize := h.size_eq
  have hstray := h.stray_lt
  have hextra := numberAt_lt dir (pos + 30) 2
  have hle := ownLength_le_declaredLength dir pos
  have hown : pos + ownLength dir pos = extraStart dir pos + numberAt dir (pos + 30) 2 := by
    simp only [ownLength, extraStart, Nat.add_assoc]
  have hhas : Has dir (extraStart dir pos) (bytesOfAll fields ++ stray) := by
    rw [Has, ByteArray.size_append, hsize, h.extra_eq]
  have hdata : ∀ f ∈ fields, f.data.size < 2 ^ 16 := fun f hf =>
    DirectoryRecord.data_lt_of_mem hf (by omega)
  have hresolve : (narrowBounds dir pos).resolve dir (extraStart dir pos) (pos + ownLength dir pos) =
      some ((narrowBounds dir pos).resolvedBy fields) :=
    Bounds.resolve_of_fields hhas.append_left hdata (by omega) (by omega) (by omega) _
  rw [parse_of_held hheld, if_neg fun hne => hne h.signature_eq, hresolve]

namespace SameButExtra

variable (h : SameButExtra dir pos dir' pos')

include h

theorem numberAt_before {k width : Nat} (hle : k + width ≤ 30) :
    numberAt dir' (pos' + k) width = numberAt dir (pos + k) width :=
  numberAt_of_byteAt (fun _ hi => byteAt_eq_of_slice_eq h.before_eq hi) hle

theorem numberAt_after {k width : Nat} (hle : k + width ≤ 14) :
    numberAt dir' (pos' + 32 + k) width = numberAt dir (pos + 32 + k) width :=
  numberAt_of_byteAt (fun _ hi => byteAt_eq_of_slice_eq h.after_eq hi) hle

theorem narrowBounds_eq : narrowBounds dir' pos' = narrowBounds dir pos := by
  have hoffset := h.numberAt_after (show 10 + 4 ≤ 14 by decide)
  rw [Nat.add_assoc, Nat.add_assoc] at hoffset
  simp only [narrowBounds, u32At, h.numberAt_before (show 24 + 4 ≤ 30 by decide),
    h.numberAt_before (show 20 + 4 ≤ 30 by decide), hoffset]

theorem ofRecord_eq (hheld : pos + declaredLength dir pos ≤ dir.size)
    (hheld' : pos' + declaredLength dir' pos' ≤ dir'.size) (b : Bounds) :
    ofRecord dir' pos' b = ofRecord dir pos b := by
  have hlength := h.numberAt_before (show 28 + 2 ≤ 30 by decide)
  have hname := h.name_eq
  simp only [declaredLength, ownLength] at hheld hheld'
  rw [slice_eq_extract _ _ _ (by omega), slice_eq_extract _ _ _ (by omega)] at hname
  simp only [ofRecord, extraStart, u16At, u32At, hlength, hname, h.numberAt_before (show 8 + 2 ≤ 30 by decide),
    h.numberAt_before (show 10 + 2 ≤ 30 by decide), h.numberAt_before (show 16 + 4 ≤ 30 by decide)]

end SameButExtra

/-- A record is read alike without its extra fields that are not for wide values and without the bytes after
them. A single field for wide values has those of the saturated fields, in their order. -/
theorem parse_eq_without_others (h : HasFields dir pos fields stray)
    (h' : HasFields dir' pos' (fields.filter isWide) .empty) (hsame : SameButExtra dir pos dir' pos') :
    ∃ e, parse dir pos = .ok (e, pos + declaredLength dir pos) ∧
      parse dir' pos' = .ok (e, pos' + declaredLength dir' pos') ∧
      (fields.filter isWide = [] → e.bounds = narrowBounds dir pos) ∧
      ∀ f, fields.filter isWide = [f] → e.bounds = (narrowBounds dir pos).withValues f.values := by
  refine ⟨_, h.parse_eq, ?_, fun hnone => ?_, fun f hf => ?_⟩
  · rw [h'.parse_eq, hsame.narrowBounds_eq, Bounds.resolvedBy_filter, hsame.ofRecord_eq h.held h'.held]
  · rw [Bounds.resolvedBy, hnone]
    rfl
  · rw [Bounds.resolvedBy, hf]
    rfl

/-- A field with another id, the bytes of which look like a field for wide values. -/
def disguisedField : ExtraField := ⟨0x5455, pack [(2, Bounds.wideId), (2, 8), (8, 9)]⟩

/-- A field for one wide value and half of another. -/
def shortField : ExtraField := ⟨1, pack [(8, 5), (4, 6)]⟩

def recordWith (extra : ByteArray) : ByteArray :=
  pack [(4, recordSignature), (2, 20), (2, 20), (2, 0), (2, 0), (2, 0), (2, 0), (4, 0), (4, 0xFFFFFFFF),
    (4, 0xFFFFFFFF), (2, 1), (2, extra.size), (2, 0), (2, 0), (2, 0), (4, 0), (4, 7), (1, 0x61)] ++ extra

def mixedFields : List ExtraField := [disguisedField, shortField, disguisedField]

def strayBytes : ByteArray := pack [(2, Bounds.wideId), (1, 8)]

/-- The uncompressed size has a value, for the compressed one there is only half a value, and the offset needs
none. -/
theorem parse_eq_without_others_mixedFields :
    HasFields (recordWith (bytesOfAll mixedFields ++ strayBytes)) 0 mixedFields strayBytes ∧
      HasFields (recordWith (bytesOfAll [shortField])) 0 [shortField] .empty ∧
      SameButExtra (recordWith (bytesOfAll mixedFields ++ strayBytes)) 0
        (recordWith (bytesOfAll [shortField])) 0 ∧
      ∃ e, parse (recordWith (bytesOfAll mixedFields ++ strayBytes)) 0 = .ok (e, 98) ∧
        parse (recordWith (bytesOfAll [shortField])) 0 = .ok (e, 63) ∧ e.bounds = ⟨5, 0xFFFFFFFF, 7⟩ := by
  have h : HasFields (recordWith (bytesOfAll mixedFields ++ strayBytes)) 0 mixedFields strayBytes :=
    ⟨by decide +kernel, by decide +kernel, by decide +kernel, by decide +kernel⟩
  have h' : HasFields (recordWith (bytesOfAll [shortField])) 0 [shortField] .empty :=
    ⟨by decide +kernel, by decide +kernel, by decide +kernel, by decide +kernel⟩
  have hsame : SameButExtra (recordWith (bytesOfAll mixedFields ++ strayBytes)) 0
      (recordWith (bytesOfAll [shortField])) 0 :=
    ⟨by decide +kernel, by decide +kernel, by decide +kernel⟩
  obtain ⟨e, hparse, hparse', -, hbounds⟩ := parse_eq_without_others h h' hsame
  refine ⟨h, h', hsame, e, hparse.trans ?_, hparse'.trans ?_,
    (hbounds shortField rfl).trans (by decide +kernel)⟩
  · exact congrArg (fun next => Except.ok (e, next)) (by decide +kernel)
  · exact congrArg (fun next => Except.ok (e, next)) (by decide +kernel)

end Entry

end DexArchive.Zip
