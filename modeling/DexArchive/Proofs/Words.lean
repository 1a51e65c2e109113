import DexArchive.Proofs.Zip.Opening

/-! Computing with machine words. The programs of this library compute with numbers of any size. Here stand,
beside them, programs that do the same steps and look at each of them: whether a sum is a number of 64 bits, a
difference no less than zero, and a place in a buffer within it. Where each program comes to the same as the
one beside it, nothing ever goes out of range. -/

namespace DexArchive

/-- How a program that looks at its steps ends without a result: it fails, or a step goes out of range. -/
inductive Halt (ε : Type) where
  | fails (error : ε)
  | outOfRange
  deriving DecidableEq, Repr

namespace Halt

variable {ε ε' : Type} {m : Type → Type} [Monad m]

def map (f : ε → ε') : Halt ε → Halt ε'
  | fails error => .fails (f error)
  | outOfRange => .outOfRange

/-- Goes on with the result of a step that is within range. -/
def demand [MonadExcept (Halt ε) m] {α : Type} : Option α → m α
  | some a => pure a
  | none => throw .outOfRange

theorem demand_bind [MonadExcept (Halt ε) m] [LawfulMonad m] {α β : Type} {step : Option α} {a : α}
    (h : step = some a) (f : α → m β) : (demand step >>= f) = f a := by
  rw [h]
  exact pure_bind a f

end Halt

/-! ### Steps -/

namespace Word

/-- A sum as a number of 64 bits. -/
def sum? (a b : Nat) : Option Nat := if a + b < 2 ^ 64 then some (a + b) else none

def difference? (a b : Nat) : Option Nat := if b ≤ a then some (a - b) else none

/-- The length of a new buffer, of which there may be no more than `most` bytes. -/
def allocate? (most length : Nat) : Option Nat := if length ≤ most then some length else none

/-- The number in the `width` bytes of a buffer from `pos` on. -/
def number? (b : ByteArray) (pos width : Nat) : Option Nat :=
  if pos + width ≤ b.size then some (numberAt b pos width) else none

/-- The bytes of a buffer from `start` up to `stop`. -/
def part? (b : ByteArray) (start stop : Nat) : Option ByteArray :=
  if start ≤ stop ∧ stop ≤ b.size then some (slice b start (stop - start)) else none

variable {a b : Nat} {bytes : ByteArray}

theorem sum?_of_lt (h : a + b < 2 ^ 64) : sum? a b = some (a + b) := if_pos h

theorem eq_add_of_sum? {c : Nat} (h : sum? a b = some c) : c = a + b := by
  unfold sum? at h
  split at h
  · exact (Option.some.inj h).symm
  · cases h

theorem difference?_of_le (h : b ≤ a) : difference? a b = some (a - b) := if_pos h

theorem eq_sub_of_difference? {c : Nat} (h : difference? a b = some c) : c = a - b := by
  unfold difference? at h
  split at h
  · exact (Option.some.inj h).symm
  · cases h

theorem allocate?_of_le {most : Nat} (h : a ≤ most) : allocate? most a = some a := if_pos h

theorem number?_of_le {pos width : Nat} (h : pos + width ≤ bytes.size) :
    number? bytes pos width = some (numberAt bytes pos width) := if_pos h

theorem part?_of_le {start stop : Nat} (h : start ≤ stop) (hstop : stop ≤ bytes.size) :
    part? bytes start stop = some (slice bytes start (stop - start)) := if_pos ⟨h, hstop⟩

end Word

open Halt Word

namespace Action

variable {ε ε' ε'' σ α β : Type}

theorem mapError_bind (f : ε → ε') (p : Action ε σ α) (q : α → Action ε σ β) :
    (p >>= q).mapError f = p.mapError f >>= fun a => (q a).mapError f := by
  funext s
  cases hp : p s with
  | mk result s' =>
      cases result with
      | error e => rw [bind_error (mapError_error hp), mapError_error (bind_error hp)]
      | ok a =>
          rw [bind_ok (mapError_ok hp)]
          unfold mapError
          rw [bind_ok hp]

theorem mapError_mapError (f : ε → ε') (g : ε' → ε'') (p : Action ε σ α) :
    (p.mapError f).mapError g = p.mapError (g ∘ f) := by
  funext s
  unfold mapError
  cases p s with
  | mk result s' => cases result <;> rfl

/-- Two ways to go on need to be the same only for what can come before them. -/
theorem bind_congr_of_ok {p : Action ε σ α} {f g : α → Action ε σ β}
    (h : ∀ a s s', p s = (.ok a, s') → f a = g a) : p >>= f = p >>= g := by
  funext s
  cases hp : p s with
  | mk result s' =>
      cases result with
      | error e => rw [bind_error hp, bind_error hp]
      | ok a => rw [bind_ok hp, bind_ok hp, h a s s' hp]

/-- `q` is `p` with a look at its steps: it comes to the same, or it ends where a step is out of range. From
states with `I` no step is, and they lead to states with `I` again. -/
def Checks (I : σ → Prop) (q : Action (Halt ε) σ α) (p : Action ε σ α) : Prop :=
  ∀ s, (q s = p.mapError .fails s ∧ (I s → I (p s).2)) ∨ ((q s).1 = .error .outOfRange ∧ ¬ I s)

section Checks

variable {I : σ → Prop} {q : Action (Halt ε) σ α} {p : Action ε σ α} {s s' : σ}

theorem checks_mapError (hI : ∀ s, I s → I (p s).2) : Checks I (p.mapError .fails) p :=
  fun s => .inl ⟨rfl, hI s⟩

theorem Checks.bind {g : α → Action (Halt ε) σ β} {f : α → Action ε σ β} (h : Checks I q p)
    (hgf : ∀ a, Checks I (g a) (f a)) : Checks I (q >>= g) (p >>= f) := by
  intro s
  cases hp : p s with
  | mk result s' =>
      rcases h s with ⟨heq, hI⟩ | ⟨hout, hnot⟩
      · rw [hp] at hI
        cases result with
        | error e =>
            rw [mapError_error hp] at heq
            rw [bind_error heq, mapError_error (bind_error hp), bind_error hp]
            exact .inl ⟨rfl, hI⟩
        | ok a =>
            rw [mapError_ok hp] at heq
            rw [mapError_bind, bind_ok heq, bind_ok (mapError_ok hp), bind_ok hp]
            rcases hgf a s' with ⟨heq', hI'⟩ | ⟨hout, hnot⟩
            · exact .inl ⟨heq', fun hs => hI' (hI hs)⟩
            · exact .inr ⟨hout, fun hs => hnot (hI hs)⟩
      · rw [bind_error (Prod.ext hout rfl)]
        exact .inr ⟨rfl, hnot⟩

theorem Checks.eq (h : Checks I q p) (hs : I s) : q s = p.mapError .fails s := by
  rcases h s with ⟨heq, -⟩ | ⟨-, hnot⟩
  · exact heq
  · exact absurd hs hnot

theorem Checks.keeps (h : Checks I q p) (hs : I s) : I (p s).2 := by
  rcases h s with ⟨-, hI⟩ | ⟨-, hnot⟩
  · exact hI hs
  · exact absurd hs hnot

theorem Checks.of_ok (h : Checks I q p) {a : α} (hq : q s = (.ok a, s')) :
    p s = (.ok a, s') ∧ (I s → I s') := by
  rcases h s with ⟨heq, hI⟩ | ⟨hout, -⟩
  · have hp := exists_of_mapError_ok (heq.symm.trans hq)
    rw [hp] at hI
    exact ⟨hp, hI⟩
  · rw [hq] at hout
    cases hout

theorem Checks.of_fails (h : Checks I q p) {e : ε} (hq : q s = (.error (.fails e), s')) :
    p s = (.error e, s') ∧ (I s → I s') := by
  rcases h s with ⟨heq, hI⟩ | ⟨hout, -⟩
  · rw [hq] at heq
    cases hp : p s with
    | mk result t =>
        rw [hp] at hI
        cases result with
        | error e' =>
            rw [mapError_error hp] at heq
            cases heq
            exact ⟨rfl, hI⟩
        | ok a =>
            rw [mapError_ok hp] at heq
            cases heq
  · rw [hq] at hout
    cases hout

theorem Checks.not_of_outOfRange (h : Checks I q p) (hq : q s = (.error .outOfRange, s')) : ¬ I s := by
  rcases h s with ⟨heq, -⟩ | ⟨-, hnot⟩
  · rw [hq] at heq
    cases hp : p s with
    | mk result t =>
        cases result with
        | error e =>
            rw [mapError_error hp] at heq
            cases heq
        | ok a =>
            rw [mapError_ok hp] at heq
            cases heq
  · exact hnot

end Checks

end Action

open DexArchive.Action

/-! ### Exact reads -/

namespace Reader

variable {σ : Type} {r : Reader σ} {n offset length : Nat}

/-- What the reader gives ends within the first `n` bytes of its source. -/
def EndsBy (r : Reader σ) (n : Nat) : Prop :=
  ∀ offset length s b s', r.readAt offset length s = (.ok b, s') → b.size ≠ 0 → offset + b.size ≤ n

theorem IsTruthful.endsBy {d : ByteArray} (h : r.IsTruthful d) : r.EndsBy d.size :=
  fun offset length s b s' hread hb => (h offset length s b s' hread).add_size_le hb

/-- `readRest`, looking at its steps. -/
def readRestChecked (r : Reader σ) (offset length : Nat) (got : ByteArray) :
    Action (Halt Failure) σ ByteArray :=
  if length ≤ got.size then pure got
  else do
    let place ← demand (sum? offset got.size)
    let room ← demand (difference? length got.size)
    let chunk ← Action.mapError .fails (r.readAt place room)
    if chunk.size = 0 then throw (.fails (.io (.shortRead offset length got.size)))
    else
      let _ ← demand (sum? got.size chunk.size)
      r.readRestChecked offset length (got ++ chunk)
termination_by length - got.size
decreasing_by
  simp only [ByteArray.size_append]
  omega

def readExactChecked (r : Reader σ) (offset length : Nat) : Action (Halt Failure) σ ByteArray :=
  r.readRestChecked offset length .empty

section Ends

variable (hends : r.EndsBy n)

include hends

/-- An exact read gives as many bytes as it was to, and they are within the source. -/
theorem EndsBy.readRest {got b : ByteArray} {s s' : σ} (hgot : got.size = 0 ∨ offset + got.size ≤ n)
    (hle : got.size ≤ length) (hread : r.readRest offset length got s = (.ok b, s')) :
    b.size = length ∧ (length = 0 ∨ offset + length ≤ n) := by
  induction hrest : length - got.size using Nat.strongRecOn generalizing got s with
  | ind k ih =>
      unfold Reader.readRest at hread
      by_cases hdone : length ≤ got.size
      · rw [if_pos hdone] at hread
        cases hread
        exact ⟨by omega, by omega⟩
      · rw [if_neg hdone] at hread
        obtain ⟨chunk, s₁, hchunk, hread⟩ := Action.exists_of_bind_eq_ok hread
        by_cases hend : chunk.size = 0
        · rw [if_pos hend] at hread
          cases hread
        · rw [if_neg hend] at hread
          have happend := ByteArray.size_append (a := got) (b := chunk)
          have hwithin := hends _ _ _ _ _ hchunk hend
          have hsize := r.size_readAt_le _ _ _ _ (congrArg Prod.fst hchunk)
          exact ih (length - (got ++ chunk).size) (by omega) (.inr (by omega)) (by omega) hread rfl

theorem EndsBy.readExact {b : ByteArray} {s s' : σ} (hread : r.readExact offset length s = (.ok b, s')) :
    b.size = length ∧ (length = 0 ∨ offset + length ≤ n) :=
  hends.readRest (.inl rfl) (Nat.zero_le _) hread

theorem readRestChecked_eq (hn : n < 2 ^ 63) (hoffset : offset < 2 ^ 64) (hlength : length < 2 ^ 63)
    {got : ByteArray} (hgot : got.size = 0 ∨ offset + got.size ≤ n) :
    r.readRestChecked offset length got = (r.readRest offset length got).mapError .fails := by
  induction hrest : length - got.size using Nat.strongRecOn generalizing got with
  | ind k ih =>
      unfold readRestChecked Reader.readRest
      by_cases hdone : length ≤ got.size
      · rw [if_pos hdone, if_pos hdone]
        rfl
      · rw [if_neg hdone, if_neg hdone, mapError_bind, demand_bind (sum?_of_lt (by omega)),
          demand_bind (difference?_of_le (by omega))]
        refine bind_congr_of_ok fun chunk s s' hchunk => ?_
        have hchunk := exists_of_mapError_ok hchunk
        by_cases hend : chunk.size = 0
        · rw [if_pos hend, if_pos hend]
          rfl
        · have happend := ByteArray.size_append (a := got) (b := chunk)
          have hwithin := hends _ _ _ _ _ hchunk hend
          have hsize := r.size_readAt_le _ _ _ _ (congrArg Prod.fst hchunk)
          rw [if_neg hend, if_neg hend, demand_bind (sum?_of_lt (by omega))]
          exact ih (length - (got ++ chunk).size) (by omega) (.inr (by omega)) rfl

theorem readExactChecked_eq (hn : n < 2 ^ 63) (hoffset : offset < 2 ^ 64) (hlength : length < 2 ^ 63) :
    r.readExactChecked offset length = (r.readExact offset length).mapError .fails :=
  readRestChecked_eq hends hn hoffset hlength (.inl rfl)

end Ends

end Reader

/-! ### Ranges -/

namespace Range

variable {σ : Type} {reader : Reader σ} {r : Range}

/-- The range does not end before it begins, and its end is a number of 64 bits. -/
structure IsSound (r : Range) : Prop where
  pos_le : r.pos ≤ r.stop
  stop_le : r.stop ≤ addressMax

theorem isSound_ofLength {pos : Nat} (h : pos ≤ addressMax) (length : Nat) : (ofLength pos length).IsSound where
  pos_le := Nat.le_min.2 ⟨Nat.le_add_right _ _, h⟩
  stop_le := Nat.min_le_right _ _

/-- `read`, looking at its steps: what remains, the part of the buffer that is read into, the new place. -/
def readChecked (reader : Reader σ) (length : Nat) : Action (Halt IoError) (Range × σ) ByteArray
  | (r, s) =>
    match difference? r.stop r.pos with
    | none => (.error .outOfRange, r, s)
    | some remaining =>
      let wanted := min length remaining
      if wanted = 0 then (.ok .empty, r, s)
      else match difference? length wanted with
        | none => (.error .outOfRange, r, s)
        | some _ =>
          match reader.readAt r.pos wanted s with
          | (.error f, s') => (.error (.fails f.toIoError), r, s')
          | (.ok b, s') =>
            if b.size = 0 then (.error (.fails (.truncatedEntry r.pos)), r, s')
            else match sum? r.pos b.size with
              | none => (.error .outOfRange, r, s')
              | some pos => (.ok b, { r with pos := pos }, s')

/-- Of a sound range every read is within range, and the range is sound after it. -/
theorem checks_read (reader : Reader σ) (length : Nat) :
    Checks (fun x : Range × σ => x.1.IsSound) (readChecked reader length) (read reader length) := by
  rintro ⟨r, s⟩
  simp only [readChecked, Action.mapError, read]
  cases hremaining : difference? r.stop r.pos with
  | none =>
      refine .inr ⟨rfl, fun h => ?_⟩
      rw [difference?_of_le h.pos_le] at hremaining
      cases hremaining
  | some remaining =>
      obtain rfl : remaining = r.remaining := eq_sub_of_difference? hremaining
      simp only
      by_cases hwanted : min length r.remaining = 0
      · rw [if_pos hwanted, if_pos hwanted]
        exact .inl ⟨rfl, id⟩
      · rw [if_neg hwanted, if_neg hwanted, difference?_of_le (Nat.min_le_left _ _)]
        simp only
        cases hread : reader.readAt r.pos (min length r.remaining) s with
        | mk result s' =>
            cases result with
            | error f => exact .inl ⟨rfl, id⟩
            | ok b =>
                have hsize := reader.size_readAt_le _ _ _ _ (congrArg Prod.fst hread)
                have hroom : r.remaining = r.stop - r.pos := rfl
                simp only
                by_cases hend : b.size = 0
                · rw [if_pos hend, if_pos hend]
                  exact .inl ⟨rfl, id⟩
                · rw [if_neg hend, if_neg hend]
                  cases hsum : sum? r.pos b.size with
                  | none =>
                      refine .inr ⟨rfl, fun h => ?_⟩
                      have hstop : r.stop < 2 ^ 64 := Nat.lt_of_le_of_lt h.stop_le (by decide)
                      have hpos : r.pos ≤ r.stop := h.pos_le
                      rw [sum?_of_lt (by omega)] at hsum
                      cases hsum
                  | some pos =>
                      obtain rfl := eq_add_of_sum? hsum
                      refine .inl ⟨rfl, fun h => ⟨?_, h.stop_le⟩⟩
                      have hpos : r.pos ≤ r.stop := h.pos_le
                      simp only
                      omega

/-- A range that is not sound is found out. -/
example (s : σ) : (readChecked reader 1 (⟨5, 3⟩, s)).1 = .error .outOfRange := rfl

end Range

/-! ### Streams -/

namespace Stream

variable {τ : Type} {st : Stream τ} {I : τ → Prop} {q : Nat → Action (Halt IoError) τ ByteArray}

/-- A stream whose reads look at their steps. It has no state any more once a step was out of range. -/
def watched (st : Stream τ) (q : Nat → Action (Halt IoError) τ ByteArray)
    (h : ∀ length, Checks I (q length) (st.read length)) : Stream (Option τ) where
  read length
    | none => (.ok .empty, none)
    | some t =>
      match q length t with
      | (.ok b, t') => (.ok b, some t')
      | (.error (.fails e), t') => (.error e, some t')
      | (.error .outOfRange, _) => (.ok .empty, none)
  interruptions
    | none => 0
    | some t => st.interruptions t
  size_read_le length t b hread := by
    cases t with
    | none =>
        cases hread
        exact Nat.zero_le _
    | some t =>
        simp only at hread
        split at hread
        · rename_i hq
          cases hread
          exact st.size_read_le length t _ (congrArg Prod.fst ((h length).of_ok hq).1)
        · cases hread
        · cases hread
          exact Nat.zero_le _
  interruptions_read_lt length t e hread he := by
    cases t with
    | none => cases hread
    | some t =>
        simp only at hread ⊢
        split at hread
        · cases hread
        · rename_i hq
          cases hread
          have hlt := st.interruptions_read_lt length t e (congrArg Prod.fst ((h length).of_fails hq).1) he
          rwa [((h length).of_fails hq).1] at hlt
        · cases hread

/-- The state of a stream beside that of the stream that is watched. -/
def IsWatched (I : τ → Prop) (t : τ) (x : Option τ) : Prop := x = some t ∧ I t

theorem matches_watched (h : ∀ length, Checks I (q length) (st.read length)) (length : Nat) :
    Matches (IsWatched I) (st.read length) ((st.watched q h).read length) := by
  rintro t x ⟨rfl, ht⟩
  have heq := (h length).eq ht
  have hkeeps := (h length).keeps ht
  cases hread : st.read length t with
  | mk result t' =>
      rw [hread] at hkeeps
      cases result with
      | error e =>
          rw [mapError_error hread] at heq
          simp only [watched, heq]
          exact ⟨trivial, rfl, hkeeps⟩
      | ok b =>
          rw [mapError_ok hread] at heq
          simp only [watched, heq]
          exact ⟨trivial, rfl, hkeeps⟩

end Stream

end DexArchive
