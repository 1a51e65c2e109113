import DexArchive.Proofs.Deflate.Inflating
import DexArchive.Proofs.Matching

/-! Two decompressions side by side. If two readers match on a range, so do decompressions of it. -/

namespace DexArchive.Deflate.Inflating

open DexArchive.Action

variable {σ τ : Type} {R : σ → τ → Prop} {start stop : Nat} {reader : Reader σ} {reader' : Reader τ}

/-- States of the same decompression, whose range has only bytes from `start` to `stop`. -/
abbrev Paired (start stop : Nat) (R : σ → τ → Prop) : Inflating × σ → Inflating × τ → Prop :=
  Beside (fun z => z.range.Inside start stop) R

theorem inside_inflate {z : Inflating} (h : z.range.Inside start stop) (atEnd : Bool) (target : Nat) :
    (z.inflate atEnd target).2.range.Inside start stop := by
  rwa [range_inflate]

theorem matches_fail (f : Failure) :
    Matches (Paired start stop R) (fail f : Action IoError (Inflating × σ) Unit) (fail f) := by
  rintro ⟨z, s⟩ ⟨z', t⟩ ⟨heq, hinside, hst⟩
  obtain rfl : z = z' := heq
  exact ⟨rfl, rfl, hinside, hst⟩

theorem matches_deliver (length : Nat) :
    Matches (Paired start stop R) (deliver length : Action IoError (Inflating × σ) ByteArray)
      (deliver length) := by
  rintro ⟨z, s⟩ ⟨z', t⟩ ⟨heq, hinside, hst⟩
  obtain rfl : z = z' := heq
  exact ⟨rfl, rfl, hinside, hst⟩

variable (h : reader.MatchesOn R reader' start stop)

include h

theorem matches_refill : Matches (Paired start stop R) (refill reader) (refill reader') := by
  rintro ⟨z, s⟩ ⟨z', t⟩ ⟨heq, hinside, hst⟩
  obtain rfl : z = z' := heq
  cases hread : Range.read reader chunk (z.range, s) with
  | mk result x =>
      obtain ⟨⟨range, t'⟩, hread', hrange, hinside', hst'⟩ :=
        (Range.matches_read h chunk).exists_eq (t := (z.range, t)) ⟨rfl, hinside, hst⟩ hread
      obtain rfl : x.1 = range := hrange
      simp only [refill, hread, hread']
      cases result with
      | error e => exact ⟨rfl, rfl, hinside', hst'⟩
      | ok b => exact ⟨rfl, rfl, hinside', hst'⟩

theorem matches_supply : Matches (Paired start stop R) (supply reader) (supply reader') := by
  rintro ⟨z, s⟩ ⟨z', t⟩ ⟨heq, hinside, hst⟩
  obtain rfl : z = z' := heq
  by_cases hunused : z.unused = 0
  · rw [supply_of_eq_zero hunused, supply_of_eq_zero hunused]
    exact matches_refill h (z, s) (z, t) ⟨rfl, hinside, hst⟩
  · rw [supply_of_ne_zero hunused, supply_of_ne_zero hunused]
    exact ⟨rfl, rfl, hinside, hst⟩

theorem matches_decompress (length : Nat) :
    Matches (Paired start stop R) (decompress reader length) (decompress reader' length) := by
  rintro x ⟨z, t⟩ ⟨heq, hinside, hst⟩
  obtain rfl : x.1 = z := heq
  fun_induction decompress reader length x generalizing t with
  | case1 x atEnd z hz =>
      obtain rfl : (x.1.inflate atEnd (x.1.delivered + length)).2 = z := by rw [hz]
      rw [decompress_of_done (t := (x.1, t)) hz (.inl rfl)]
      exact ⟨rfl, rfl, inside_inflate hinside _ _, hst⟩
  | case2 x atEnd z hz =>
      obtain rfl : (x.1.inflate atEnd (x.1.delivered + length)).2 = z := by rw [hz]
      rw [decompress_of_done (t := (x.1, t)) hz (.inr rfl)]
      exact ⟨rfl, rfl, inside_inflate hinside _ _, hst⟩
  | case3 x atEnd z hz =>
      obtain rfl : (x.1.inflate atEnd (x.1.delivered + length)).2 = z := by rw [hz]
      rw [decompress_of_corrupt (t := (x.1, t)) hz]
      exact matches_fail .corrupt (_, x.2) (_, t) ⟨rfl, inside_inflate hinside _ _, hst⟩
  | case4 x atEnd z hz hready =>
      obtain rfl : (x.1.inflate atEnd (x.1.delivered + length)).2 = z := by rw [hz]
      rw [decompress_of_starved (t := (x.1, t)) hz, if_pos hready]
      simp only [atEnd, decide_eq_true_eq]
      exact ⟨trivial, rfl, inside_inflate hinside _ _, hst⟩
  | case5 x atEnd z hz hready e x' href =>
      obtain rfl : (x.1.inflate atEnd (x.1.delivered + length)).2 = z := by rw [hz]
      obtain ⟨y, href', hst'⟩ := (matches_refill h).exists_eq (s := (_, x.2)) (t := (_, t))
        ⟨rfl, inside_inflate hinside _ _, hst⟩ href
      rw [decompress_of_starved (t := (x.1, t)) hz, if_neg hready, href']
      exact ⟨rfl, hst'⟩
  | case6 x atEnd z hz hready x' href =>
      obtain rfl : (x.1.inflate atEnd (x.1.delivered + length)).2 = z := by rw [hz]
      obtain ⟨y, href', hst'⟩ := (matches_refill h).exists_eq (s := (_, x.2)) (t := (_, t))
        ⟨rfl, inside_inflate hinside _ _, hst⟩ href
      rw [decompress_of_starved (t := (x.1, t)) hz, if_neg hready, href']
      exact matches_fail .incomplete x' y hst'
  | case7 x atEnd z hz hready n x' href hn ih =>
      obtain rfl : (x.1.inflate atEnd (x.1.delivered + length)).2 = z := by rw [hz]
      obtain ⟨⟨z', t'⟩, href', heq', hinside', hst'⟩ := (matches_refill h).exists_eq (s := (_, x.2)) (t := (_, t))
        ⟨rfl, inside_inflate hinside _ _, hst⟩ href
      obtain rfl : x'.1 = z' := heq'
      rw [decompress_of_starved (t := (x.1, t)) hz, if_neg hready, href']
      simp only [if_neg hn]
      exact ih t' hinside' hst'

theorem matches_prepare (length : Nat) :
    Matches (Paired start stop R) (prepare reader length) (prepare reader' length) := by
  rintro ⟨z, s⟩ ⟨z', t⟩ ⟨heq, hinside, hst⟩
  obtain rfl : z = z' := heq
  unfold prepare
  simp only
  cases z.failure with
  | some f => exact ⟨rfl, rfl, hinside, hst⟩
  | none =>
      by_cases hready : z.ready = 0
      · simp only [if_pos hready]
        exact matches_decompress h length (z, s) (z, t) ⟨rfl, hinside, hst⟩
      · simp only [if_neg hready]
        exact ⟨trivial, rfl, hinside, hst⟩

theorem matches_read (length : Nat) :
    Matches (Paired start stop R) (read reader length) (read reader' length) :=
  (matches_supply h).bind fun _ => (matches_prepare h length).bind fun _ => matches_deliver length

end DexArchive.Deflate.Inflating
