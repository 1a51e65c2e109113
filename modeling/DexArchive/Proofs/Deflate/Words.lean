import DexArchive.Proofs.Deflate.Inflating
import DexArchive.Proofs.Words

/-! Decompression over a range that is read with machine words. However the compressed bytes come, the range
is sound each time that more of them are read. -/

namespace DexArchive.Deflate.Inflating

open Halt DexArchive.Action

variable {σ : Type} {reader : Reader σ}

/-! ### The steps -/

def refillChecked (reader : Reader σ) : Action (Halt IoError) (Inflating × σ) Nat
  | (⟨range, inflater, unused, delivered, failure⟩, s) =>
    match Range.readChecked reader chunk (range, s) with
    | (.error halt, range, s) => (.error halt, ⟨range, inflater, unused, delivered, failure⟩, s)
    | (.ok b, range, s) =>
      (.ok b.size, ⟨range, inflater.feed b, unused + b.size, delivered, failure⟩, s)

/-- What remains to be decompressed is a sound range. -/
abbrev HasSoundRange (t : Inflating × σ) : Prop := t.1.range.IsSound

theorem checks_refill : Checks HasSoundRange (refillChecked reader) (refill reader) := by
  rintro ⟨⟨range, inflater, unused, delivered, failure⟩, s⟩
  cases hplain : Range.read reader chunk (range, s) with
  | mk result x =>
      rcases Range.checks_read reader chunk (range, s) with ⟨hread, hsound⟩ | ⟨hout, hnot⟩
      · rw [hplain] at hsound
        simp only [Action.mapError, hplain] at hread
        simp only [refillChecked, Action.mapError, refill, hread, hplain]
        cases result with
        | error e => exact .inl ⟨rfl, hsound⟩
        | ok b => exact .inl ⟨rfl, hsound⟩
      · refine .inr ⟨?_, hnot⟩
        simp only [refillChecked]
        rw [show Range.readChecked reader chunk (range, s) = (.error .outOfRange, _) from Prod.ext hout rfl]

/-- `decompress` with refills that look at their steps. -/
def decompressChecked (reader : Reader σ) (length : Nat) (t : Inflating × σ) :
    Except (Halt IoError) Unit × Inflating × σ :=
  let atEnd : Bool := t.1.unused = 0
  match _hz : t.1.inflate atEnd (t.1.delivered + length) with
  | (.full, z) | (.ended, z) => (.ok (), z, t.2)
  | (.corrupt, z) => Action.mapError .fails (fail .corrupt) (z, t.2)
  | (.starved, z) =>
    if z.ready ≠ 0 ∨ length = 0 then
      (.ok (), { z with failure := if atEnd then some .incomplete else z.failure }, t.2)
    else match _h : refillChecked reader (z, t.2) with
      | (.error halt, t') => (.error halt, t')
      | (.ok n, t') =>
        if n = 0 then Action.mapError .fails (fail .incomplete) t' else decompressChecked reader length t'
termination_by t.1.range.remaining
decreasing_by
  rename_i hn
  have hlt := remaining_refill_lt (checks_refill.of_ok _h).1 hn
  have hz := range_inflate atEnd (t.1.delivered + length) t.1
  rw [_hz] at hz
  rwa [show (z, t.2).1 = z from rfl, show z.range = t.1.range from hz] at hlt

def supplyChecked (reader : Reader σ) : Action (Halt IoError) (Inflating × σ) Nat
  | t => if t.1.unused = 0 then refillChecked reader t else (.ok t.1.unused, t)

def prepareChecked (reader : Reader σ) (length : Nat) : Action (Halt IoError) (Inflating × σ) Unit
  | t => match t.1.failure with
    | some f => (.error (.fails f.toIoError), t)
    | none => if t.1.ready = 0 then decompressChecked reader length t else (.ok (), t)

def readChecked (reader : Reader σ) (length : Nat) : Action (Halt IoError) (Inflating × σ) ByteArray := do
  let _ ← supplyChecked reader
  prepareChecked reader length
  Action.mapError .fails (deliver length)

/-! ### They stay within range -/

theorem checks_supply : Checks HasSoundRange (supplyChecked reader) (supply reader) := by
  rintro ⟨z, s⟩
  by_cases hunused : z.unused = 0
  · simp only [supplyChecked, Action.mapError, supply_of_eq_zero hunused, if_pos hunused]
    exact checks_refill (z, s)
  · simp only [supplyChecked, Action.mapError, supply_of_ne_zero hunused, if_neg hunused]
    exact .inl ⟨rfl, id⟩

theorem hasSoundRange_inflate {t : Inflating × σ} {atEnd : Bool} {target : Nat} {pause : Pause}
    {z : Inflating} (hz : t.1.inflate atEnd target = (pause, z)) : HasSoundRange (z, t.2) ↔ HasSoundRange t := by
  have hrange := range_inflate atEnd target t.1
  rw [hz] at hrange
  rw [HasSoundRange, show z.range = t.1.range from hrange]

theorem checks_decompress (length : Nat) :
    Checks HasSoundRange (decompressChecked reader length) (decompress reader length) := by
  intro t
  fun_induction decompressChecked reader length t with
  | case1 t atEnd z hz =>
      rw [Action.mapError, decompress_of_done hz (.inl rfl)]
      exact .inl ⟨rfl, (hasSoundRange_inflate hz).2⟩
  | case2 t atEnd z hz =>
      rw [Action.mapError, decompress_of_done hz (.inr rfl)]
      exact .inl ⟨rfl, (hasSoundRange_inflate hz).2⟩
  | case3 t atEnd z hz =>
      rw [Action.mapError, Action.mapError, decompress_of_corrupt hz]
      exact .inl ⟨rfl, (hasSoundRange_inflate hz).2⟩
  | case4 t atEnd z hz hready =>
      rw [Action.mapError, decompress_of_starved hz, if_pos hready]
      simp only [atEnd, decide_eq_true_eq]
      exact .inl ⟨rfl, (hasSoundRange_inflate hz).2⟩
  | case5 t atEnd z hz hready halt t' href =>
      -- The only step that can be out of range is in a refill.
      rw [Action.mapError, decompress_of_starved hz, if_neg hready, ← hasSoundRange_inflate hz]
      cases halt with
      | outOfRange => exact .inr ⟨rfl, checks_refill.not_of_outOfRange href⟩
      | fails e =>
          obtain ⟨hplain, hkeeps⟩ := checks_refill.of_fails href
          rw [hplain]
          exact .inl ⟨rfl, hkeeps⟩
  | case6 t atEnd z hz hready t' href =>
      obtain ⟨hplain, hkeeps⟩ := checks_refill.of_ok href
      rw [Action.mapError, Action.mapError, decompress_of_starved hz, if_neg hready, hplain,
        ← hasSoundRange_inflate hz]
      exact .inl ⟨rfl, hkeeps⟩
  | case7 t atEnd z hz hready n t' href hn ih =>
      obtain ⟨hplain, hkeeps⟩ := checks_refill.of_ok href
      rw [Action.mapError, decompress_of_starved hz, if_neg hready, hplain, ← hasSoundRange_inflate hz]
      simp only [if_neg hn]
      rcases ih with ⟨heq, hI⟩ | ⟨hout, hnot⟩
      · exact .inl ⟨heq, fun h => hI (hkeeps h)⟩
      · exact .inr ⟨hout, fun h => hnot (hkeeps h)⟩

theorem checks_prepare (length : Nat) :
    Checks HasSoundRange (prepareChecked reader length) (prepare reader length) := by
  rintro ⟨z, s⟩
  simp only [prepareChecked, Action.mapError, prepare]
  cases z.failure with
  | some f => exact .inl ⟨rfl, id⟩
  | none =>
      by_cases hready : z.ready = 0
      · simp only [if_pos hready]
        exact checks_decompress length (z, s)
      · simp only [if_neg hready]
        exact .inl ⟨rfl, id⟩

theorem checks_read (reader : Reader σ) (length : Nat) :
    Checks HasSoundRange (readChecked reader length) (read reader length) :=
  checks_supply.bind fun _ => (checks_prepare length).bind fun _ => checks_mapError fun _ h => h

end DexArchive.Deflate.Inflating
