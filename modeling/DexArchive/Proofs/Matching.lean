import DexArchive.Dex.Sniff
import DexArchive.Proofs.Range
import DexArchive.Proofs.Streaming
import DexArchive.Source.Faulty

/-! Two runs side by side. Computations match if from related states they give the same and come to related
states. Readers need to match only on a part of the bytes: a range within it is then read alike, and so is
any stream whose single reads match. -/

namespace DexArchive

namespace Action

variable {ε σ τ α β : Type} {R : σ → τ → Prop}

/-- From related states the two computations give the same and come to related states. -/
def Matches (R : σ → τ → Prop) (p : Action ε σ α) (q : Action ε τ α) : Prop :=
  ∀ s t, R s t → (p s).1 = (q t).1 ∧ R (p s).2 (q t).2

theorem Matches.exists_eq {p : Action ε σ α} {q : Action ε τ α} (h : Matches R p q) {s s' : σ} {t : τ}
    {result : Except ε α} (hst : R s t) (hp : p s = (result, s')) :
    ∃ t', q t = (result, t') ∧ R s' t' := by
  obtain ⟨hresult, hstates⟩ := h s t hst
  rw [hp] at hresult hstates
  exact ⟨(q t).2, Prod.ext hresult.symm rfl, hstates⟩

theorem Matches.agrees {p : Action ε σ α} {q : Action ε τ α} (h : Matches (fun _ _ => True) p q) : Agrees p q :=
  fun s t => (h s t trivial).1

theorem Agrees.matches {p : Action ε σ α} {q : Action ε τ α} (h : Agrees p q) : Matches (fun _ _ => True) p q :=
  fun s t _ => ⟨h s t, trivial⟩

theorem matches_pure (a : α) : Matches R (pure a : Action ε σ α) (pure a : Action ε τ α) :=
  fun _ _ hst => ⟨rfl, hst⟩

theorem matches_throw (e : ε) : Matches R (throw e : Action ε σ α) (throw e : Action ε τ α) :=
  fun _ _ hst => ⟨rfl, hst⟩

theorem ofExcept_eq (x : Except ε α) (s : σ) : (MonadExcept.ofExcept x : Action ε σ α) s = (x, s) := by
  cases x <;> rfl

theorem matches_ofExcept (x : Except ε α) :
    Matches R (MonadExcept.ofExcept x : Action ε σ α) (MonadExcept.ofExcept x : Action ε τ α) := by
  intro s t hst
  rw [ofExcept_eq, ofExcept_eq]
  exact ⟨rfl, hst⟩

theorem Matches.bind_of {p : Action ε σ α} {q : Action ε τ α} {f : α → Action ε σ β}
    {g : α → Action ε τ β} (h : Matches R p q)
    (hfg : ∀ a s s', p s = (.ok a, s') → Matches R (f a) (g a)) : Matches R (p >>= f) (q >>= g) := by
  intro s t hst
  cases hp : p s with
  | mk result s' =>
      obtain ⟨t', hq, hst'⟩ := h.exists_eq hst hp
      cases result with
      | error e =>
          rw [bind_error hp, bind_error hq]
          exact ⟨rfl, hst'⟩
      | ok a =>
          rw [bind_ok hp, bind_ok hq]
          exact hfg a s s' hp s' t' hst'

theorem Matches.bind {p : Action ε σ α} {q : Action ε τ α} {f : α → Action ε σ β} {g : α → Action ε τ β}
    (h : Matches R p q) (hfg : ∀ a, Matches R (f a) (g a)) : Matches R (p >>= f) (q >>= g) :=
  h.bind_of fun a _ _ _ => hfg a

end Action

open DexArchive.Action

variable {σ τ : Type} {R : σ → τ → Prop} {start stop : Nat}

namespace Reader

/-- The two readers match in reads from `start` on that end at `stop`. -/
def MatchesOn (R : σ → τ → Prop) (r : Reader σ) (r' : Reader τ) (start stop : Nat) : Prop :=
  ∀ offset length, start ≤ offset → offset + length ≤ stop →
    Matches R (r.readAt offset length) (r'.readAt offset length)

variable {r : Reader σ} {r' : Reader τ}

theorem MatchesOn.readRest (h : MatchesOn R r r' start stop) {offset length : Nat} (hstart : start ≤ offset)
    (hstop : offset + length ≤ stop) (got : ByteArray) :
    Matches R (r.readRest offset length got) (r'.readRest offset length got) := by
  induction hn : length - got.size using Nat.strongRecOn generalizing got with
  | ind n ih =>
      unfold Reader.readRest
      by_cases hdone : length ≤ got.size
      · rw [if_pos hdone, if_pos hdone]
        exact matches_pure got
      · rw [if_neg hdone, if_neg hdone]
        refine (h (offset + got.size) (length - got.size) (by omega) (by omega)).bind fun chunk => ?_
        by_cases hend : chunk.size = 0
        · rw [if_pos hend, if_pos hend]
          exact matches_throw _
        · rw [if_neg hend, if_neg hend]
          have happend := ByteArray.size_append (a := got) (b := chunk)
          exact ih (length - (got ++ chunk).size) (by omega) (got ++ chunk) rfl

theorem MatchesOn.readExact (h : MatchesOn R r r' start stop) {offset length : Nat} (hstart : start ≤ offset)
    (hstop : offset + length ≤ stop) : Matches R (r.readExact offset length) (r'.readExact offset length) :=
  h.readRest hstart hstop .empty

/-- Where the same is to be read of `d` and of `d'`, the two readers match. -/
def Alike (R : σ → τ → Prop) (r : Reader σ) (d : ByteArray) (r' : Reader τ) (d' : ByteArray) : Prop :=
  ∀ offset length, slice d offset length = slice d' offset length →
    Matches R (r.readAt offset length) (r'.readAt offset length)

variable {d d' : ByteArray}

theorem Alike.matchesOn (h : Alike R r d r' d') {n : Nat} (hsame : slice d start n = slice d' start n) :
    MatchesOn R r r' start (start + n) :=
  fun offset length hstart hstop => h offset length (slice_eq_of_slice_eq hsame hstart hstop)

theorem alike_memoryReader (σ τ : Type) (d d' : ByteArray) :
    Alike (fun _ _ => True) (memoryReader σ d) d (memoryReader τ d') d' :=
  fun _ _ hsame _ _ _ => ⟨congrArg Except.ok hsame, trivial⟩

theorem alike_fileReader (σ τ : Type) (d d' : ByteArray) :
    Alike (fun _ _ => True) (fileReader σ d) d (fileReader τ d') d' := by
  intro offset length hsame s t _
  simp only [fileReader, hsame]
  by_cases hlimit : offset + length < fileAddressLimit
  · rw [if_pos hlimit, if_pos hlimit]
    exact ⟨rfl, trivial⟩
  · rw [if_neg hlimit, if_neg hlimit]
    exact ⟨rfl, trivial⟩

/-- Sources that are to do the same wrong are alike, each in the bytes that it has. -/
theorem alike_faultyMemory (m : FaultyMemory) (d : ByteArray) :
    Alike Eq m.reader m.data { m with data := d }.reader d := by
  rintro offset length hsame s - rfl
  have hread : { m with data := d }.readAt offset length s = m.readAt offset length s := by
    unfold FaultyMemory.readAt
    cases Fault.strike? offset s.faults with
    | some p => rfl
    | none =>
        cases m.maxRead with
        | none => simp only [hsame]
        | some most =>
            have hle : offset + min most length ≤ offset + length := by omega
            simp only [slice_eq_of_slice_eq hsame (Nat.le_refl _) hle]
  exact ⟨congrArg Prod.fst hread.symm, congrArg Prod.snd hread.symm⟩

end Reader

/-- States beside related ones, with the same of their own and `P` of it. -/
def Beside {X : Type} (P : X → Prop) (R : σ → τ → Prop) (x : X × σ) (y : X × τ) : Prop :=
  x.1 = y.1 ∧ P x.1 ∧ R x.2 y.2

/-! ### Ranges -/

namespace Range

def Inside (start stop : Nat) (r : Range) : Prop := start ≤ r.pos ∧ r.stop ≤ stop

theorem matches_read {reader : Reader σ} {reader' : Reader τ} (h : reader.MatchesOn R reader' start stop)
    (length : Nat) : Matches (Beside (Inside start stop) R) (read reader length) (read reader' length) := by
  rintro ⟨r, s⟩ ⟨r', t⟩ ⟨heq, hinside, hst⟩
  obtain rfl : r = r' := heq
  simp only [read]
  by_cases hnone : min length r.remaining = 0
  · rw [if_pos hnone, if_pos hnone]
    exact ⟨rfl, rfl, hinside, hst⟩
  · rw [if_neg hnone, if_neg hnone]
    have hend : r.pos + min length r.remaining ≤ stop := by
      have hstop : r.stop ≤ stop := hinside.2
      unfold remaining at hnone ⊢
      omega
    cases hread : reader.readAt r.pos (min length r.remaining) s with
    | mk result s' =>
        obtain ⟨t', hread', hst'⟩ := (h _ _ hinside.1 hend).exists_eq hst hread
        rw [hread']
        cases result with
        | error f => exact ⟨rfl, rfl, hinside, hst'⟩
        | ok b =>
            simp only
            by_cases hb : b.size = 0
            · rw [if_pos hb, if_pos hb]
              exact ⟨rfl, rfl, hinside, hst'⟩
            · rw [if_neg hb, if_neg hb]
              exact ⟨rfl, rfl, ⟨Nat.le_trans hinside.1 (Nat.le_add_right _ _), hinside.2⟩, hst'⟩

end Range

/-! ### Loops over a stream -/

namespace Stream

variable {st : Stream σ} {st' : Stream τ} (h : ∀ length, Matches R (st.read length) (st'.read length))

include h

theorem matches_readThrough (length : Nat) : Matches R (st.readThrough length) (st'.readThrough length) := by
  intro s t hst
  fun_induction st.readThrough length s generalizing t with
  | case1 s b s' hread =>
      obtain ⟨t', hread', hst'⟩ := (h length).exists_eq hst hread
      rw [readThrough_of_ok hread']
      exact ⟨rfl, hst'⟩
  | case2 s e s' hread he ih =>
      obtain ⟨t', hread', hst'⟩ := (h length).exists_eq hst hread
      rw [readThrough_of_isInterruption hread' he]
      exact ih t' hst'
  | case3 s e s' hread he =>
      obtain ⟨t', hread', hst'⟩ := (h length).exists_eq hst hread
      rw [readThrough_of_error hread' he]
      exact ⟨rfl, hst'⟩

theorem matches_readMore (length : Nat) (got : ByteArray) {rest : ByteArray → Action IoError σ ByteArray}
    {rest' : ByteArray → Action IoError τ ByteArray}
    (hrest : ∀ b, b.size ≠ 0 → Matches R (rest b) (rest' b)) :
    Matches R (st.readMore length got rest) (st'.readMore length got rest') := by
  refine (matches_readThrough h length).bind fun b => ?_
  by_cases hb : b.size = 0
  · rw [if_pos hb, if_pos hb]
    exact matches_pure got
  · rw [if_neg hb, if_neg hb]
    exact hrest b hb

theorem matches_fillFrom (n : Nat) (got : ByteArray) :
    Matches R (st.fillFrom n got) (st'.fillFrom n got) :=
  lift_fillFrom matches_pure (fun length got _ _ => matches_readMore h length got) n got

theorem matches_readRest (limit : Nat) (g : Growth) (got : ByteArray) :
    Matches R (st.readRest limit g got) (st'.readRest limit g got) :=
  lift_readRest matches_pure (fun length got _ _ => matches_readMore h length got) limit g got

theorem matches_readToEnd (length limit : Nat) :
    Matches R (st.readToEnd length limit) (st'.readToEnd length limit) :=
  matches_readRest h limit (.forLength length) .empty

theorem matches_sniff : Matches R (Dex.sniff st) (Dex.sniff st') :=
  (matches_fillFrom h Dex.sniffLength .empty).bind fun _ => matches_pure _

end Stream

end DexArchive
