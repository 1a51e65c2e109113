import DexArchive.Reader
import DexArchive.Proofs.Bytes

/-! Readers of given bytes. A reader may hand over fewer bytes than it is asked for, as long as it goes on
where there are any; exact reads do not show this. A reader that holds bytes answers every read within
them (a local file fails beyond the largest address), one that gives them answers every read, and one that
serves them does so and says how many they are. One that is truthful gives nothing but them, if anything. -/

namespace DexArchive

/-- What a read of `length` bytes from `offset` on may give of `d`: none only at the end. -/
structure IsPiece (d : ByteArray) (offset length : Nat) (b : ByteArray) : Prop where
  eq_slice : b = slice d offset b.size
  size_le : b.size ≤ length
  stops : b.size = 0 → length = 0 ∨ d.size ≤ offset

theorem isPiece_slice (d : ByteArray) (offset length : Nat) :
    IsPiece d offset length (slice d offset length) where
  eq_slice := (slice_size_slice d offset length).symm
  size_le := size_slice_le d offset length
  stops h := by
    rw [size_slice] at h
    omega

theorem isPiece_slice_min {portion : Nat} (h : 0 < portion) (d : ByteArray) (offset length : Nat) :
    IsPiece d offset length (slice d offset (min portion length)) where
  eq_slice := (slice_size_slice d offset _).symm
  size_le := Nat.le_trans (size_slice_le d offset _) (Nat.min_le_right portion length)
  stops hzero := by
    rw [size_slice] at hzero
    omega

theorem IsPiece.add_size_le {d b : ByteArray} {offset length : Nat} (h : IsPiece d offset length b)
    (hb : b.size ≠ 0) : offset + b.size ≤ d.size := by
  have hsize := congrArg ByteArray.size h.eq_slice
  rw [size_slice] at hsize
  omega

/-- What is read of `d` by asking for exactly `length` bytes from `offset` on. -/
def readExactly (d : ByteArray) (offset length : Nat) : Except Failure ByteArray :=
  if length = 0 ∨ offset + length ≤ d.size then .ok (slice d offset length)
  else .error (.io (.shortRead offset length (d.size - offset)))

theorem readExactly_of_le {d : ByteArray} {offset length : Nat} (h : offset + length ≤ d.size) :
    readExactly d offset length = .ok (slice d offset length) := if_pos (.inr h)

namespace Action

variable {ε σ τ α β : Type}

theorem pure_apply (a : α) (s : σ) : (pure a : Action ε σ α) s = (.ok a, s) := rfl

theorem throw_apply (e : ε) (s : σ) : (throw e : Action ε σ α) s = (.error e, s) := rfl

theorem exists_of_bind_eq_ok {p : Action ε σ α} {q : α → Action ε σ β} {s s' : σ} {b : β}
    (h : (p >>= q) s = (.ok b, s')) : ∃ a s₁, p s = (.ok a, s₁) ∧ q a s₁ = (.ok b, s') := by
  cases hp : p s with
  | mk result s₁ =>
      cases result with
      | error e =>
          rw [bind_error hp] at h
          cases h
      | ok a =>
          rw [bind_ok hp] at h
          exact ⟨a, s₁, rfl, h⟩

/-- The two computations give the same, whatever states they begin in. -/
def Agrees (p : Action ε σ α) (q : Action ε τ α) : Prop := ∀ s t, (p s).1 = (q t).1

theorem Agrees.trans {υ : Type} {p : Action ε σ α} {q : Action ε τ α} {r : Action ε υ α} (h : Agrees p q)
    (h' : Agrees q r) (t : τ) : Agrees p r :=
  fun s u => (h s t).trans (h' t u)

theorem Agrees.bind_of {p : Action ε σ α} {q : Action ε τ α} {f : α → Action ε σ β}
    {g : α → Action ε τ β} (h : Agrees p q)
    (hfg : ∀ a s s', p s = (.ok a, s') → Agrees (f a) (g a)) : Agrees (p >>= f) (q >>= g) := by
  intro s t
  have hst := h s t
  cases hp : p s with
  | mk r s' =>
      cases hq : q t with
      | mk r' t' =>
          rw [hp, hq] at hst
          obtain rfl : r = r' := hst
          cases r with
          | error e => rw [bind_error hp, bind_error hq]
          | ok a =>
              rw [bind_ok hp, bind_ok hq]
              exact hfg a s s' hp s' t'

theorem Agrees.bind {p : Action ε σ α} {q : Action ε τ α} {f : α → Action ε σ β} {g : α → Action ε τ β}
    (h : Agrees p q) (hfg : ∀ a, Agrees (f a) (g a)) : Agrees (p >>= f) (q >>= g) :=
  h.bind_of fun a _ _ _ => hfg a

end Action

namespace Reader

variable {σ τ : Type}

/-- The reader answers a read with bytes of `d`, in every state. -/
def Answers (r : Reader σ) (d : ByteArray) (offset length : Nat) : Prop :=
  ∀ s, ∃ b s', r.readAt offset length s = (.ok b, s') ∧ IsPiece d offset length b

structure Holds (r : Reader σ) (d : ByteArray) : Prop where
  size_eq : r.size = d.size
  answers : ∀ offset length, offset + length ≤ d.size → r.Answers d offset length

structure Serves (r : Reader σ) (d : ByteArray) : Prop where
  size_eq : r.size = d.size
  answers : ∀ offset length, r.Answers d offset length

/-- The reader answers every read, whatever it says about the length of `d`. -/
def Gives (r : Reader σ) (d : ByteArray) : Prop := ∀ offset length, r.Answers d offset length

/-- What the reader answers are bytes of `d`; it may fail to answer. -/
def IsTruthful (r : Reader σ) (d : ByteArray) : Prop :=
  ∀ offset length s b s', r.readAt offset length s = (.ok b, s') → IsPiece d offset length b

theorem Gives.isTruthful {r : Reader σ} {d : ByteArray} (h : r.Gives d) : r.IsTruthful d := by
  intro offset length s b s' hread
  obtain ⟨b', s'', hread', hpiece⟩ := h offset length s
  rw [hread] at hread'
  cases hread'
  exact hpiece

theorem Serves.gives {r : Reader σ} {d : ByteArray} (h : r.Serves d) : r.Gives d := h.answers

theorem Serves.holds {r : Reader σ} {d : ByteArray} (h : r.Serves d) : r.Holds d :=
  ⟨h.size_eq, fun offset length _ => h.answers offset length⟩

/-- What the reader answers does not depend on its state. -/
def IsSteady (r : Reader σ) : Prop :=
  ∀ offset length s s', (r.readAt offset length s).1 = (r.readAt offset length s').1

theorem serves_memoryReader (σ : Type) (d : ByteArray) : (memoryReader σ d).Serves d where
  size_eq := rfl
  answers offset length s := ⟨slice d offset length, s, rfl, isPiece_slice d offset length⟩

theorem isSteady_memoryReader (σ : Type) (d : ByteArray) : (memoryReader σ d).IsSteady :=
  fun _ _ _ _ => rfl

theorem isTruthful_fileReader (σ : Type) (d : ByteArray) : (fileReader σ d).IsTruthful d := by
  intro offset length s b s' hread
  simp only [fileReader] at hread
  split at hread
  · cases hread
    exact isPiece_slice d offset length
  · cases hread

theorem holds_fileReader (σ : Type) {d : ByteArray} (h : d.size < fileAddressLimit) :
    (fileReader σ d).Holds d where
  size_eq := rfl
  answers offset length hle s :=
    ⟨slice d offset length, s, if_pos (Nat.lt_of_le_of_lt hle h), isPiece_slice d offset length⟩

/-! ### Exact reads -/

/-- The bytes got so far are a slice, and each read makes it longer until it is all that was asked for
or there are no more bytes. -/
theorem readRest_of_answers {r : Reader σ} {d : ByteArray} {offset length : Nat}
    (hr : ∀ k, k < length → r.Answers d (offset + k) (length - k)) (got : ByteArray)
    (hgot : got = slice d offset got.size) (hle : got.size ≤ length) (s : σ) :
    ∃ s', r.readRest offset length got s = (readExactly d offset length, s') := by
  induction hn : length - got.size using Nat.strongRecOn generalizing got s with
  | ind n ih =>
      have hsize := congrArg ByteArray.size hgot
      rw [size_slice] at hsize
      unfold readRest
      by_cases hdone : length ≤ got.size
      · have hlength : got.size = length := Nat.le_antisymm hle hdone
        refine ⟨s, ?_⟩
        rw [if_pos hdone, readExactly, if_pos (by omega), ← hlength, ← hgot, Action.pure_apply]
      · rw [if_neg hdone]
        obtain ⟨b, s', hread, hb⟩ := hr got.size (by omega) s
        rw [Action.bind_ok hread]
        by_cases hend : b.size = 0
        · refine ⟨s', ?_⟩
          have hstop := hb.stops hend
          rw [if_pos hend, Action.throw_apply, readExactly, if_neg (by omega),
            show d.size - offset = got.size by omega]
        · rw [if_neg hend]
          have hpos := hb.add_size_le hend
          have hble := hb.size_le
          refine ih (length - (got ++ b).size) ?_ (got ++ b) ?_ ?_ s' rfl
          · rw [ByteArray.size_append]
            omega
          · rw [ByteArray.size_append, ← slice_append_slice, ← hgot, ← hb.eq_slice]
          · rw [ByteArray.size_append]
            omega

/-- An exact read that goes well gives a slice of full length. -/
theorem readRest_of_isTruthful {r : Reader σ} {d : ByteArray} (h : r.IsTruthful d) {offset length : Nat}
    {got b : ByteArray} {s s' : σ} (hgot : got = slice d offset got.size) (hle : got.size ≤ length)
    (hread : r.readRest offset length got s = (.ok b, s')) : b = slice d offset length := by
  induction hn : length - got.size using Nat.strongRecOn generalizing got s with
  | ind n ih =>
      unfold readRest at hread
      by_cases hdone : length ≤ got.size
      · rw [if_pos hdone] at hread
        have hlength : got.size = length := Nat.le_antisymm hle hdone
        rw [hlength] at hgot
        cases hread
        exact hgot
      · rw [if_neg hdone] at hread
        obtain ⟨chunk, s'', hchunk, hread⟩ := Action.exists_of_bind_eq_ok hread
        have hpiece := h _ _ _ _ _ hchunk
        by_cases hend : chunk.size = 0
        · rw [if_pos hend] at hread
          cases hread
        · rw [if_neg hend] at hread
          have happend := ByteArray.size_append (a := got) (b := chunk)
          have hchunkle := hpiece.size_le
          refine ih (length - (got ++ chunk).size) (by omega) ?_ (by omega) hread rfl
          rw [happend, ← slice_append_slice, ← hgot, ← hpiece.eq_slice]

theorem IsTruthful.readExact {r : Reader σ} {d b : ByteArray} (h : r.IsTruthful d) {offset length : Nat}
    {s s' : σ} (hread : r.readExact offset length s = (.ok b, s')) : b = slice d offset length :=
  readRest_of_isTruthful h (by simp) (by simp) hread

theorem Gives.readExact {r : Reader σ} {d : ByteArray} (h : r.Gives d) (offset length : Nat) (s : σ) :
    ∃ s', r.readExact offset length s = (readExactly d offset length, s') :=
  readRest_of_answers (fun k _ => h (offset + k) (length - k)) .empty (by simp) (by simp) s

theorem Holds.readExact {r : Reader σ} {d : ByteArray} (h : r.Holds d) {offset length : Nat}
    (hle : offset + length ≤ d.size) (s : σ) :
    ∃ s', r.readExact offset length s = (.ok (slice d offset length), s') := by
  rw [← readExactly_of_le hle]
  exact readRest_of_answers (fun k _ => h.answers (offset + k) (length - k) (by omega)) .empty
    (by simp) (by simp) s

/-- Exact reads from two readers that give the same bytes come to the same, failures included. -/
theorem agrees_readExact {r : Reader σ} {r' : Reader τ} {d : ByteArray} (h : r.Gives d)
    (h' : r'.Gives d) (offset length : Nat) :
    Action.Agrees (r.readExact offset length) (r'.readExact offset length) := by
  intro s t
  obtain ⟨s', hs⟩ := h.readExact offset length s
  obtain ⟨t', ht⟩ := h'.readExact offset length t
  rw [hs, ht]

end Reader

end DexArchive
