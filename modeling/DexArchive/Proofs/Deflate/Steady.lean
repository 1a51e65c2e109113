import DexArchive.Proofs.Deflate.Matching

/-! Decompression from a steady reader. How a decompression goes on does not depend on how much of its
output has been handed over, nor on how much is asked for as long as one window is enough. So where one
reader of the output came to the end without failing, another one comes as far. -/

namespace DexArchive

/-- What the computation gives, and what it makes of its own part of the state, does not depend on the
state of the source. -/
def Action.IsSteady {ε τ σ α : Type} (p : Action ε (τ × σ) α) : Prop :=
  ∀ t s s', ∃ s₁ s₂, p (t, s) = ((p (t, s)).1, (p (t, s)).2.1, s₁) ∧ p (t, s') = ((p (t, s)).1, (p (t, s)).2.1, s₂)

theorem Action.IsSteady.exists_eq {ε τ σ α : Type} {p : Action ε (τ × σ) α} (hp : p.IsSteady) {t t' : τ}
    {s s₁ : σ} {result : Except ε α} (h : p (t, s) = (result, t', s₁)) (s' : σ) :
    ∃ s₂, p (t, s') = (result, t', s₂) := by
  obtain ⟨-, s₂, -, h'⟩ := hp t s s'
  rw [h] at h'
  exact ⟨s₂, h'⟩

theorem Action.isSteady_of_matches {ε X σ α : Type} {p : Action ε (X × σ) α}
    (h : ∀ x, ∃ P, P x ∧ Matches (Beside P fun _ _ => True) p p) : p.IsSteady := by
  intro x s s'
  obtain ⟨P, hx, hmatches⟩ := h x
  obtain ⟨hresult, hown, -⟩ := hmatches (x, s) (x, s') ⟨rfl, hx, trivial⟩
  exact ⟨(p (x, s)).2.2, (p (x, s')).2.2, rfl, Prod.ext hresult.symm (Prod.ext hown.symm rfl)⟩

theorem Reader.IsSteady.matchesOn {σ : Type} {r : Reader σ} (h : r.IsSteady) (start stop : Nat) :
    r.MatchesOn (fun _ _ => True) r start stop :=
  fun offset length _ _ s s' _ => ⟨h offset length s s', trivial⟩

/-- A range that has nothing to give has come to its end. -/
theorem Range.read_again {σ : Type} {reader : Reader σ} {length : Nat} {r r' : Range} {s s' : σ}
    {b : ByteArray} (h : Range.read reader length (r, s) = (.ok b, r', s')) (hb : b.size = 0) (s'' : σ) :
    Range.read reader length (r', s'') = (.ok .empty, r', s'') := by
  simp only [read] at h ⊢
  split at h
  · rename_i hend
    cases h
    exact if_pos hend
  · split at h
    · cases h
    · split at h
      · cases h
      · rename_i hne
        cases h
        exact absurd hb hne

namespace Deflate

namespace Inflating

variable {σ : Type} {reader : Reader σ}

theorem steady_refill (h : reader.IsSteady) : Action.IsSteady (refill reader) :=
  Action.isSteady_of_matches fun z =>
    ⟨_, ⟨Nat.le_refl _, Nat.le_refl _⟩, matches_refill (h.matchesOn z.range.pos z.range.stop)⟩

theorem steady_supply (h : reader.IsSteady) : Action.IsSteady (supply reader) :=
  Action.isSteady_of_matches fun z =>
    ⟨_, ⟨Nat.le_refl _, Nat.le_refl _⟩, matches_supply (h.matchesOn z.range.pos z.range.stop)⟩

/-- Nothing changes when a decompression is supplied twice. -/
theorem supply_again {z z' : Inflating} {s s' : σ} {n : Nat}
    (h : supply reader (z, s) = (.ok n, z', s')) (s'' : σ) :
    supply reader (z', s'') = (.ok z'.unused, z', s'') := by
  by_cases hunused' : z'.unused = 0
  · by_cases hunused : z.unused = 0
    · rw [supply_of_eq_zero hunused, refill] at h
      split at h
      · cases h
      · rename_i b range s₁ hread
        cases h
        simp only [hunused, Nat.zero_add] at hunused'
        have hagain := Range.read_again hread hunused' s''
        obtain rfl := ByteArray.size_eq_zero_iff.1 hunused'
        simp only [supply, hunused, refill, hagain]
        simp [Inflater.feed]
    · rw [supply_of_ne_zero hunused] at h
      cases h
      exact absurd hunused' hunused
  · exact supply_of_ne_zero hunused' s''

/-! ### What was handed over does not matter -/

/-- The same decompression with so much of its output handed over. -/
def withDelivered (z : Inflating) (n : Nat) : Inflating := { z with delivered := n }

/-- The same decompression with all of its output handed over. -/
def drained (z : Inflating) : Inflating := z.withDelivered z.inflater.output.size

theorem refill_withDelivered {z z' : Inflating} {s s' : σ} {result : Except IoError Nat}
    (h : refill reader (z, s) = (result, z', s')) (n : Nat) :
    refill reader (z.withDelivered n, s) = (result, z'.withDelivered n, s') := by
  simp only [refill, withDelivered] at h ⊢
  cases hread : Range.read reader chunk (z.range, s) with
  | mk result t =>
      rw [hread] at h
      cases result <;> cases h <;> rfl

theorem supply_withDelivered {z z' : Inflating} {s s' : σ} {result : Except IoError Nat}
    (h : supply reader (z, s) = (result, z', s')) (n : Nat) :
    supply reader (z.withDelivered n, s) = (result, z'.withDelivered n, s') := by
  by_cases hunused : z.unused = 0
  · rw [supply_of_eq_zero hunused] at h
    rw [supply_of_eq_zero (show (z.withDelivered n).unused = 0 from hunused)]
    exact refill_withDelivered h n
  · rw [supply_of_ne_zero hunused] at h
    rw [supply_of_ne_zero (show (z.withDelivered n).unused ≠ 0 from hunused)]
    cases h
    rfl

theorem refill_delivered {z : Inflating} {s : σ} {result : Except IoError Nat} {t : Inflating × σ}
    (h : refill reader (z, s) = (result, t)) : t.1.delivered = z.delivered := by
  rw [refill] at h
  split at h <;> cases h <;> rfl

/-- Neither the output nor the count of what was handed over changes when bytes are read. -/
theorem supply_frame {z z' : Inflating} {s s' : σ} {result : Except IoError Nat}
    (h : supply reader (z, s) = (result, z', s')) :
    z'.inflater.output = z.inflater.output ∧ z'.delivered = z.delivered := by
  by_cases hunused : z.unused = 0
  · rw [supply_of_eq_zero hunused, refill] at h
    split at h <;> cases h <;> exact ⟨rfl, rfl⟩
  · rw [supply_of_ne_zero hunused] at h
    cases h
    exact ⟨rfl, rfl⟩

/-! ### How much is asked for does not matter -/

theorem inflate_of_ne_full {z : Inflating} (h : z.inflateWindow.1 ≠ .full) (atEnd : Bool) (target : Nat) :
    z.inflate atEnd target = z.inflateWindow := by
  rw [inflate]
  split
  rename_i pause z' hz
  rw [hz] at h
  rw [if_neg fun hfull => h hfull.1, hz]

/-- The first window is enough for a target within it. -/
theorem inflate_of_le_window {z : Inflating} {target : Nat} (h : target ≤ window) (atEnd : Bool) :
    z.inflate atEnd target = z.inflateWindow := by
  by_cases hfull : z.inflateWindow.1 = .full
  · have hsize : windowEnd z.inflater ≤ z.inflateWindow.2.inflater.output.size :=
      Inflater.le_size_of_run_eq_full hfull
    have hwindow := window_le_windowEnd z.inflater
    rw [inflate]
    split
    rename_i pause z' hz
    rw [hz] at hsize
    simp only at hsize
    rw [if_neg (by omega), hz]
  · exact inflate_of_ne_full hfull atEnd target

theorem inflate_eq_or_full (z : Inflating) (atEnd : Bool) (target : Nat) {target' : Nat}
    (hle : target' ≤ window) :
    z.inflate atEnd target' = z.inflate atEnd target ∨
      ∃ z', z.inflate atEnd target' = (.full, z') ∧ window ≤ z'.inflater.output.size := by
  rw [inflate_of_le_window hle]
  by_cases hfull : z.inflateWindow.1 = .full
  · exact .inr ⟨z.inflateWindow.2, by rw [← hfull], ((runsTo_inflateWindow z).full hfull).2⟩
  · exact .inl (inflate_of_ne_full hfull atEnd target).symm

theorem inflate_delivered {z z' : Inflating} {atEnd : Bool} {target : Nat} {pause : Pause}
    (h : z.inflate atEnd target = (pause, z')) : z'.delivered = z.delivered := by
  rw [show z' = (z.inflate atEnd target).2 by rw [h], inflate_eq]

/-- If a decompression goes well for one length, it does so for another, and comes to the same unless the
first window is full. -/
theorem exists_decompress_eq (h : reader.IsSteady) {length length' : Nat} (hlength : length ≠ 0)
    (hlength' : length' ≠ 0) {t t' : Inflating × σ} (hle : t.1.delivered + length' ≤ window)
    (hok : decompress reader length t = (.ok (), t')) (s : σ) :
    ∃ z' s', decompress reader length' (t.1, s) = (.ok (), z', s') ∧ z'.delivered = t.1.delivered ∧
      (z' = t'.1 ∨ window ≤ z'.inflater.output.size) := by
  fun_induction decompress reader length t generalizing s with
  | case1 t atEnd z hz =>
      cases hok
      rcases inflate_eq_or_full t.1 atEnd (t.1.delivered + length) hle with heq | ⟨z', hz', hsize⟩
      · exact ⟨z, s, decompress_of_done (t := (t.1, s)) (heq.trans hz) (.inl rfl), inflate_delivered hz,
          .inl rfl⟩
      · exact ⟨z', s, decompress_of_done (t := (t.1, s)) hz' (.inl rfl), inflate_delivered hz', .inr hsize⟩
  | case2 t atEnd z hz =>
      cases hok
      rcases inflate_eq_or_full t.1 atEnd (t.1.delivered + length) hle with heq | ⟨z', hz', hsize⟩
      · exact ⟨z, s, decompress_of_done (t := (t.1, s)) (heq.trans hz) (.inr rfl), inflate_delivered hz,
          .inl rfl⟩
      · exact ⟨z', s, decompress_of_done (t := (t.1, s)) hz' (.inl rfl), inflate_delivered hz', .inr hsize⟩
  | case3 t atEnd z hz => cases hok
  | case4 t atEnd z hz hready =>
      cases hok
      rcases inflate_eq_or_full t.1 atEnd (t.1.delivered + length) hle with heq | ⟨z', hz', hsize⟩
      · refine ⟨{ z with failure := if t.1.unused = 0 then some .incomplete else z.failure }, s, ?_,
          show z.delivered = t.1.delivered from inflate_delivered hz, .inl ?_⟩
        · rw [decompress_of_starved (t := (t.1, s)) (heq.trans hz), if_pos (.inl (hready.resolve_right hlength))]
        · simp only [atEnd, decide_eq_true_eq]
      · exact ⟨z', s, decompress_of_done (t := (t.1, s)) hz' (.inl rfl), inflate_delivered hz', .inr hsize⟩
  | case5 t atEnd z hz hready e t₁ href => cases hok
  | case6 t atEnd z hz hready t₁ href => cases hok
  | case7 t atEnd z hz hready n t₁ href hn ih =>
      rcases inflate_eq_or_full t.1 atEnd (t.1.delivered + length) hle with heq | ⟨z', hz', hsize⟩
      · have hdelivered : t₁.1.delivered = t.1.delivered :=
          (refill_delivered href).trans (inflate_delivered hz)
        obtain ⟨s₂, href'⟩ := (steady_refill h).exists_eq (show refill reader (z, t.2) = (.ok n, t₁.1, t₁.2)
          from href) s
        obtain ⟨z', s', hdecompress, hz'⟩ := ih (by rw [hdelivered]; exact hle) hok s₂
        rw [hdelivered] at hz'
        refine ⟨z', s', ?_, hz'⟩
        rw [decompress_of_starved (t := (t.1, s)) (heq.trans hz),
          if_neg fun h => h.elim (fun h => hready (.inl h)) hlength']
        simp only [href', if_neg hn, hdecompress]
      · exact ⟨z', s, decompress_of_done (t := (t.1, s)) hz' (.inl rfl), inflate_delivered hz', .inr hsize⟩

/-! ### Handing over everything each time -/

/-- Bytes are supplied if none are unused, and more is decompressed. -/
def Advances (reader : Reader σ) (z : Inflating) (t : Inflating × σ) : Prop :=
  ∃ s n z' s' length s'', supply reader (z, s) = (.ok n, z', s') ∧ z'.failure = none ∧ length ≠ 0 ∧
    decompress reader length (z', s'') = (.ok (), t)

/-- When everything is handed over each time, the decompression goes on until nothing more comes, and does
not fail. -/
inductive Drains (reader : Reader σ) : Inflating → Prop
  | last {z : Inflating} {t : Inflating × σ} (h : Advances reader z t) (hready : t.1.ready = 0) :
    Drains reader z
  | more {z : Inflating} {t : Inflating × σ} (h : Advances reader z t)
    (hrest : Drains reader t.1.drained) : Drains reader z

theorem Advances.of_supply {z z' : Inflating} {s s' : σ} {n : Nat} {t : Inflating × σ}
    (hsupply : supply reader (z, s) = (.ok n, z', s')) (h : Advances reader z'.drained t) :
    Advances reader z.drained t := by
  obtain ⟨s₁, n₁, z₁, s₁', length, s'', hsupply₁, hfailure, hlength, hdecompress⟩ := h
  have hagain : supply reader (z'.drained, s₁) = (.ok z'.unused, z'.drained, s₁) :=
    supply_withDelivered (supply_again hsupply s₁) _
  rw [hagain] at hsupply₁
  cases hsupply₁
  have hdrained : z'.withDelivered z.inflater.output.size = z'.drained := by
    rw [drained, (supply_frame hsupply).1]
  have hfirst := supply_withDelivered hsupply z.inflater.output.size
  rw [hdrained] at hfirst
  exact ⟨s, n, z'.drained, s', length, s'', hfirst, hfailure, hlength, hdecompress⟩

theorem Drains.of_supply {z z' : Inflating} {s s' : σ} {n : Nat}
    (hsupply : supply reader (z, s) = (.ok n, z', s')) (h : Drains reader z'.drained) :
    Drains reader z.drained := by
  cases h with
  | last h hready => exact .last (h.of_supply hsupply) hready
  | more h hrest => exact .more (h.of_supply hsupply) hrest

theorem cases_of_prepare_ok {length : Nat} {t t' : Inflating × σ} {u : Unit}
    (h : prepare reader length t = (.ok u, t')) :
    t.1.failure = none ∧
      (t.1.ready ≠ 0 ∧ t' = t ∨ t.1.ready = 0 ∧ decompress reader length t = (.ok (), t')) := by
  rw [prepare] at h
  split at h
  · cases h
  · rename_i hfailure
    refine ⟨hfailure, ?_⟩
    split at h
    · rename_i hready
      exact .inr ⟨hready, h⟩
    · rename_i hready
      cases h
      exact .inl ⟨hready, rfl⟩

/-- What a read that goes well did. -/
theorem exists_of_read_ok {length : Nat} {z z' : Inflating} {s s' : σ} {b : ByteArray}
    (h : read reader length (z, s) = (.ok b, z', s')) :
    ∃ n z₁ s₁ z₂ s₂, supply reader (z, s) = (.ok n, z₁, s₁) ∧ z₁.failure = none ∧
      (z₁.ready ≠ 0 ∧ z₂ = z₁ ∨ z₁.ready = 0 ∧ decompress reader length (z₁, s₁) = (.ok (), z₂, s₂)) ∧
      b.size = min length z₂.ready ∧ z' = z₂.withDelivered (z₂.delivered + b.size) := by
  unfold read at h
  obtain ⟨n, t, hsupply, h⟩ := Action.exists_of_bind_eq_ok h
  obtain ⟨u, t', hprepare, h⟩ := Action.exists_of_bind_eq_ok h
  cases h
  obtain ⟨hfailure, hcases⟩ := cases_of_prepare_ok hprepare
  refine ⟨n, t.1, t.2, t'.1, t'.2, hsupply, hfailure, ?_, size_slice _ _ _, rfl⟩
  rcases hcases with ⟨hready, rfl⟩ | hdecompress
  · exact .inl ⟨hready, rfl⟩
  · exact .inr hdecompress

/-- Another read advances as well as the one that is known. -/
theorem Advances.exists_read_eq (h : reader.IsSteady) {z : Inflating} {t : Inflating × σ}
    (hadvances : Advances reader z t) (hready : z.ready = 0) {length : Nat} (hlength : length ≠ 0)
    (hle : z.delivered + length ≤ window) (s : σ) :
    ∃ b z' s', read reader length (z, s) = (.ok b, z'.withDelivered (z'.delivered + b.size), s') ∧
      b.size = min length z'.ready ∧ z'.delivered = z.delivered ∧
      (z' = t.1 ∨ window ≤ z'.inflater.output.size) := by
  obtain ⟨s₁, n, z₁, s₁', length₁, s'', hsupply, hfailure, hlength₁, hdecompress⟩ := hadvances
  obtain ⟨s₂, hsupply'⟩ := (steady_supply h).exists_eq hsupply s
  obtain ⟨houtput, hdelivered⟩ := supply_frame hsupply
  have hready₁ : z₁.ready = 0 := by
    rw [ready] at hready ⊢
    rw [houtput, hdelivered]
    exact hready
  have hle₁ : z₁.delivered + length ≤ window := by rwa [hdelivered]
  obtain ⟨z', s', hdecompress', hdelivered', hz'⟩ :=
    exists_decompress_eq h hlength₁ hlength (t := (z₁, s'')) hle₁ hdecompress s₂
  have hprepare : prepare reader length (z₁, s₂) = (.ok (), z', s') := by
    simp only [prepare, hfailure, if_pos hready₁]
    exact hdecompress'
  refine ⟨slice z'.inflater.output z'.delivered length, z', s', ?_, size_slice _ _ _,
    hdelivered'.trans hdelivered, hz'⟩
  rw [read, Action.bind_ok hsupply', Action.bind_ok hprepare]
  rfl

end Inflating

end Deflate

end DexArchive
