import DexArchive.Stream
import DexArchive.Proofs.Serving

/-! Reading a stream with an invariant. `I got t` says that at `t` the bytes `got` have been handed over,
and `E got` that they are all there are. Whatever pieces a stream hands over, reading up to a length and
reading to the end keep the invariant, stop short only at the end, and succeed if every single read does. Where it is
given what a stream hands over and how it ends, both give the same for any pieces. -/

namespace DexArchive

namespace Stream

variable {τ : Type} {st : Stream τ} {I : ByteArray → τ → Prop} {E : ByteArray → Prop}

/-- Each read adds to what was handed over, one that gives nothing shows the end, and none is
interrupted. -/
structure Reveals (st : Stream τ) (I : ByteArray → τ → Prop) (E : ByteArray → Prop) : Prop where
  of_ok : ∀ {got t length b t'}, I got t → 0 < length → st.read length t = (.ok b, t') →
    I (got ++ b) t' ∧ (b.size = 0 → E got)
  of_error : ∀ {got t length e t'}, I got t → 0 < length → st.read length t = (.error e, t') →
    ¬ e.IsInterruption

/-- No read fails. -/
def Flows (st : Stream τ) (I : ByteArray → τ → Prop) : Prop :=
  ∀ got t length, I got t → 0 < length → ∃ b t', st.read length t = (.ok b, t') ∧ I (got ++ b) t'

theorem readThrough_of_ok {length : Nat} {t t' : τ} {b : ByteArray}
    (h : st.read length t = (.ok b, t')) : st.readThrough length t = (.ok b, t') := by
  unfold readThrough
  split
  · rename_i h'
    rw [← h, h']
  · rename_i h'
    rw [h] at h'
    cases h'

theorem readThrough_of_error {length : Nat} {t t' : τ} {e : IoError} (h : st.read length t = (.error e, t'))
    (he : ¬ e.IsInterruption) : st.readThrough length t = (.error e, t') := by
  unfold readThrough
  split
  all_goals
    rename_i h'
    rw [h] at h'
    cases h'
  rw [if_neg he]

theorem readThrough_of_isInterruption {length : Nat} {t t' : τ} {e : IoError}
    (h : st.read length t = (.error e, t')) (he : e.IsInterruption) :
    st.readThrough length t = st.readThrough length t' := by
  rw [readThrough]
  split
  all_goals
    rename_i h'
    rw [h] at h'
    cases h'
  rw [if_pos he]

theorem Reveals.read_of_readThrough (hI : st.Reveals I E) {length : Nat} {t t' : τ} {got b : ByteArray}
    (hgot : I got t) (hlength : 0 < length) (h : st.readThrough length t = (.ok b, t')) :
    st.read length t = (.ok b, t') := by
  unfold readThrough at h
  split at h
  · rename_i h'
    rw [h', h]
  · rename_i e t'' h'
    rw [if_neg (hI.of_error hgot hlength h')] at h
    cases h

/-- The stream hands over `w` in pieces that are not empty, and then it ends, or fails, as `ending` says. -/
structure Pours (st : Stream τ) (I : ByteArray → τ → Prop) (w : ByteArray) (ending : Except IoError Unit) :
    Prop where
  isStart : ∀ {got t}, I got t → got = slice w 0 got.size ∧ got.size ≤ w.size
  read : ∀ {got t length}, I got t → 0 < length →
    (∃ b t', st.read length t = (.ok b, t') ∧ b.size ≠ 0 ∧ I (got ++ b) t') ∨
      got = w ∧ ∃ t', st.read length t = (ending.map fun _ => .empty, t')
  calm : ∀ e, ending = .error e → ¬ e.IsInterruption

/-- What a stream of `w` gives up to a limit. Beyond `w` it is for the end of the stream to say. -/
def upTo (w : ByteArray) (ending : Except IoError Unit) (limit : Nat) : Except IoError ByteArray :=
  if limit ≤ w.size then .ok (slice w 0 limit) else ending.map fun _ => w

/-! ### One step of the loops over a stream -/

/-- Reads once more after `got`, and goes on with what came. -/
def readMore (st : Stream τ) (length : Nat) (got : ByteArray)
    (rest : ByteArray → Action IoError τ ByteArray) : Action IoError τ ByteArray := do
  let chunk ← st.readThrough length
  if chunk.size = 0 then pure got else rest chunk

section ReadMore

variable {length : Nat} {t : τ} {got : ByteArray} {rest : ByteArray → Action IoError τ ByteArray}

theorem Reveals.readMore {t' : τ} {p : ByteArray} (hI : st.Reveals I E) (hgot : I got t)
    (hlength : 0 < length) (h : st.readMore length got rest t = (.ok p, t')) :
    ∃ b t'', st.read length t = (.ok b, t'') ∧ I (got ++ b) t'' ∧
      ((b.size = 0 ∧ p = got ∧ t' = t'' ∧ E got) ∨
        (b.size ≠ 0 ∧ b.size ≤ length ∧ rest b t'' = (.ok p, t'))) := by
  unfold Stream.readMore at h
  obtain ⟨b, t'', hthrough, h⟩ := Action.exists_of_bind_eq_ok h
  have hread := hI.read_of_readThrough hgot hlength hthrough
  obtain ⟨hnext, hend⟩ := hI.of_ok hgot hlength hread
  refine ⟨b, t'', hread, hnext, ?_⟩
  by_cases hb : b.size = 0
  · rw [if_pos hb] at h
    cases h
    exact .inl ⟨hb, rfl, rfl, hend hb⟩
  · rw [if_neg hb] at h
    exact .inr ⟨hb, st.size_read_le length t b (by rw [hread]), h⟩

theorem Pours.readMore {w : ByteArray} {ending : Except IoError Unit} (hI : st.Pours I w ending)
    (hgot : I got t) (hlength : 0 < length) {result : Except IoError ByteArray}
    (hrest : ∀ b t', b.size ≠ 0 → b.size ≤ length → I (got ++ b) t' → ∃ t'', rest b t' = (result, t''))
    (hend : got = w → result = ending.map fun _ => w) :
    ∃ t', st.readMore length got rest t = (result, t') := by
  unfold Stream.readMore
  rcases hI.read hgot hlength with ⟨b, t', hread, hb, hnext⟩ | ⟨rfl, t', hread⟩
  · have hsize := st.size_read_le length t b (by rw [hread])
    rw [Action.bind_ok (readThrough_of_ok hread), if_neg hb]
    exact hrest b t' hb hsize hnext
  · refine ⟨t', ?_⟩
    rw [hend rfl]
    cases hending : ending with
    | ok u =>
        rw [hending] at hread
        rw [Action.bind_ok (readThrough_of_ok hread), if_pos ByteArray.size_empty]
        rfl
    | error e =>
        rw [hending] at hread
        exact Action.bind_error (readThrough_of_error hread (hI.calm e hending))

theorem Flows.readMore (hI : st.Flows I) (hgot : I got t) (hlength : 0 < length)
    (hrest : ∀ b t', b.size ≠ 0 → I (got ++ b) t' → ∃ p t'', rest b t' = (.ok p, t'')) :
    ∃ p t', st.readMore length got rest t = (.ok p, t') := by
  obtain ⟨b, t', hread, hnext⟩ := hI got t length hgot hlength
  rw [Stream.readMore, Action.bind_ok (readThrough_of_ok hread)]
  by_cases hb : b.size = 0
  · rw [if_pos hb]
    exact ⟨got, t', rfl⟩
  · rw [if_neg hb]
    exact hrest b t' hb hnext

end ReadMore

section Lifting

variable {τ' : Type} {st' : Stream τ'}
  {P : Action IoError τ ByteArray → Action IoError τ' ByteArray → Prop} (hpure : ∀ got, P (pure got) (pure got))
  (hmore : ∀ length got rest rest', (∀ b, b.size ≠ 0 → P (rest b) (rest' b)) →
    P (st.readMore length got rest) (st'.readMore length got rest'))

include hpure hmore

/-- What relates two streams step by step relates the loops over them. -/
theorem lift_fillFrom (n : Nat) (got : ByteArray) : P (st.fillFrom n got) (st'.fillFrom n got) := by
  induction hm : n - got.size using Nat.strongRecOn generalizing got with
  | ind m ih =>
      unfold fillFrom
      by_cases hdone : n ≤ got.size
      · rw [if_pos hdone, if_pos hdone]
        exact hpure got
      · rw [if_neg hdone, if_neg hdone]
        apply hmore
        intro b hb
        have happend := ByteArray.size_append (a := got) (b := b)
        exact ih (n - (got ++ b).size) (by omega) (got ++ b) rfl

theorem lift_readRest (limit : Nat) (g : Growth) (got : ByteArray) :
    P (st.readRest limit g got) (st'.readRest limit g got) := by
  induction hm : limit - got.size using Nat.strongRecOn generalizing g got with
  | ind m ih =>
      unfold readRest
      by_cases hdone : min (g.request got.size) (limit - got.size) = 0
      · rw [if_pos hdone, if_pos hdone]
        exact hpure got
      · rw [if_neg hdone, if_neg hdone]
        apply hmore
        intro b hb
        have happend := ByteArray.size_append (a := got) (b := b)
        exact ih (limit - (got ++ b).size) (by omega) (g.next got.size b.size) (got ++ b) rfl

end Lifting

/-! ### Up to a length -/

theorem reveals_fillFrom (hI : st.Reveals I E) {n : Nat} {got p : ByteArray} {t t' : τ} (hgot : I got t)
    (hle : got.size ≤ n) (h : st.fillFrom n got t = (.ok p, t')) :
    I p t' ∧ p.size ≤ n ∧ (p.size < n → E p) := by
  induction hm : n - got.size using Nat.strongRecOn generalizing got t with
  | ind m ih =>
      unfold fillFrom at h
      by_cases hdone : n ≤ got.size
      · rw [if_pos hdone] at h
        cases h
        exact ⟨hgot, hle, fun hlt => absurd hlt (Nat.not_lt.2 hdone)⟩
      · rw [if_neg hdone] at h
        obtain ⟨b, t'', -, hnext, ⟨hb, rfl, rfl, hE⟩ | ⟨hb, hsize, hrest⟩⟩ := hI.readMore hgot (by omega) h
        · rw [ByteArray.size_eq_zero_iff.1 hb, ByteArray.append_empty] at hnext
          exact ⟨hnext, hle, fun _ => hE⟩
        · have happend := ByteArray.size_append (a := got) (b := b)
          exact ih (n - (got ++ b).size) (by omega) hnext (by omega) hrest rfl

theorem reveals_fill (hI : st.Reveals I E) {n : Nat} {p : ByteArray} {t t' : τ} (h0 : I .empty t)
    (h : st.fill n t = (.ok p, t')) : I p t' ∧ p.size ≤ n ∧ (p.size < n → E p) :=
  reveals_fillFrom hI h0 (Nat.zero_le n) h

theorem flows_fillFrom (hI : st.Flows I) (n : Nat) {got : ByteArray} {t : τ} (hgot : I got t) :
    ∃ p t', st.fillFrom n got t = (.ok p, t') := by
  induction hm : n - got.size using Nat.strongRecOn generalizing got t with
  | ind m ih =>
      unfold fillFrom
      by_cases hdone : n ≤ got.size
      · rw [if_pos hdone]
        exact ⟨got, t, rfl⟩
      · rw [if_neg hdone]
        apply hI.readMore hgot (by omega)
        intro b t' hb hnext
        have happend := ByteArray.size_append (a := got) (b := b)
        exact ih (n - (got ++ b).size) (by omega) hnext rfl

theorem flows_fill (hI : st.Flows I) (n : Nat) {t : τ} (h0 : I .empty t) :
    ∃ p t', st.fill n t = (.ok p, t') :=
  flows_fillFrom hI n h0

theorem upTo_of_size_eq {w got : ByteArray} {ending : Except IoError Unit} (hgot : got = slice w 0 got.size)
    (hle : got.size ≤ w.size) : .ok got = upTo w ending got.size := by
  rw [upTo, if_pos hle, ← hgot]

theorem upTo_of_lt {w : ByteArray} {ending : Except IoError Unit} {limit : Nat} (h : w.size < limit) :
    upTo w ending limit = ending.map fun _ => w := if_neg (Nat.not_le.2 h)

theorem Pours.fillFrom {w : ByteArray} {ending : Except IoError Unit} (hI : st.Pours I w ending) {n : Nat}
    {got : ByteArray} {t : τ} (hgot : I got t) (hle : got.size ≤ n) :
    ∃ t', st.fillFrom n got t = (upTo w ending n, t') := by
  induction hm : n - got.size using Nat.strongRecOn generalizing got t with
  | ind m ih =>
      obtain ⟨hslice, hsize⟩ := hI.isStart hgot
      unfold Stream.fillFrom
      by_cases hdone : n ≤ got.size
      · obtain rfl : got.size = n := Nat.le_antisymm hle hdone
        rw [if_pos hdone, ← upTo_of_size_eq hslice hsize]
        exact ⟨t, rfl⟩
      · rw [if_neg hdone]
        refine hI.readMore hgot (by omega) (fun b t' hb hbsize hnext => ?_) fun hall => ?_
        · have happend := ByteArray.size_append (a := got) (b := b)
          exact ih (n - (got ++ b).size) (by omega) hnext (by omega) rfl
        · rw [hall] at hdone
          exact upTo_of_lt (Nat.lt_of_not_le hdone)

theorem Pours.fill {w : ByteArray} {ending : Except IoError Unit} (hI : st.Pours I w ending) (n : Nat) {t : τ}
    (h0 : I .empty t) : ∃ t', st.fill n t = (upTo w ending n, t') :=
  hI.fillFrom h0 (Nat.zero_le n)

/-! ### To the end -/

namespace Growth

theorem lt_capacity_withRoom (g : Growth) (filled : Nat) : filled < (g.withRoom filled).capacity := by
  simp only [withRoom, probe]
  split
  · assumption
  · simp only [enlarge]
    omega

theorem most_withRoom (g : Growth) (filled : Nat) : (g.withRoom filled).most = g.most := by
  unfold withRoom
  split <;> rfl

/-- There is always room for a byte at least. -/
theorem request_pos {g : Growth} (h : 0 < g.most) (filled : Nat) : 0 < g.request filled := by
  unfold request
  split
  · exact Nat.zero_lt_succ 31
  · have hroom := lt_capacity_withRoom g filled
    rw [← most_withRoom g filled] at h
    unfold room
    split <;> omega

theorem most_next_pos {g : Growth} (h : 0 < g.most) (filled got : Nat) : 0 < (g.next filled got).most := by
  unfold next
  split
  · exact h
  · dsimp only
    split <;> omega

end Growth

section ReadRest

variable {limit n : Nat} {g : Growth} {got b : ByteArray} {t t' : τ}
  (hn : min (g.request got.size) (limit - got.size) = n) (hne : n ≠ 0)

include hn hne

theorem readRest_of_ok (hread : st.read n t = (.ok b, t')) (hb : b.size ≠ 0) :
    st.readRest limit g got t = st.readRest limit (g.next got.size b.size) (got ++ b) t' := by
  rw [readRest]
  simp only [hn, if_neg hne]
  rw [Action.bind_ok (readThrough_of_ok hread), if_neg hb]

theorem readRest_of_end (hread : st.read n t = (.ok b, t')) (hb : b.size = 0) :
    st.readRest limit g got t = (.ok got, t') := by
  rw [readRest]
  simp only [hn, if_neg hne]
  rw [Action.bind_ok (readThrough_of_ok hread), if_pos hb]
  rfl

theorem readRest_of_error {e : IoError} (hread : st.read n t = (.error e, t'))
    (he : ¬ e.IsInterruption) : st.readRest limit g got t = (.error e, t') := by
  rw [readRest]
  simp only [hn, if_neg hne]
  exact Action.bind_error (readThrough_of_error hread he)

end ReadRest

theorem reveals_readRest (hI : st.Reveals I E) {limit : Nat} {g : Growth} {got p : ByteArray} {t t' : τ}
    (hg : 0 < g.most) (hgot : I got t) (hle : got.size ≤ limit)
    (h : st.readRest limit g got t = (.ok p, t')) : I p t' ∧ p.size ≤ limit ∧ (p.size < limit → E p) := by
  induction hm : limit - got.size using Nat.strongRecOn generalizing g got t with
  | ind m ih =>
      have hpos := Growth.request_pos hg got.size
      unfold readRest at h
      by_cases hdone : min (g.request got.size) (limit - got.size) = 0
      · rw [if_pos hdone] at h
        cases h
        exact ⟨hgot, hle, fun hlt => by omega⟩
      · rw [if_neg hdone] at h
        obtain ⟨b, t'', -, hnext, ⟨hb, rfl, rfl, hE⟩ | ⟨hb, hsize, hrest⟩⟩ :=
          hI.readMore hgot (Nat.pos_of_ne_zero hdone) h
        · rw [ByteArray.size_eq_zero_iff.1 hb, ByteArray.append_empty] at hnext
          exact ⟨hnext, hle, fun _ => hE⟩
        · have happend := ByteArray.size_append (a := got) (b := b)
          exact ih (limit - (got ++ b).size) (by omega) (Growth.most_next_pos hg _ _) hnext
            (by omega) hrest rfl

theorem reveals_readToEnd (hI : st.Reveals I E) {length limit : Nat} {p : ByteArray} {t t' : τ}
    (h0 : I .empty t) (h : st.readToEnd length limit t = (.ok p, t')) :
    I p t' ∧ p.size ≤ limit ∧ (p.size < limit → E p) :=
  reveals_readRest hI (Nat.zero_lt_succ _) h0 (Nat.zero_le limit) h

theorem Pours.readRest {w : ByteArray} {ending : Except IoError Unit} (hI : st.Pours I w ending) {limit : Nat}
    {g : Growth} {got : ByteArray} {t : τ} (hg : 0 < g.most) (hgot : I got t) (hle : got.size ≤ limit) :
    ∃ t', st.readRest limit g got t = (upTo w ending limit, t') := by
  induction hm : limit - got.size using Nat.strongRecOn generalizing g got t with
  | ind m ih =>
      obtain ⟨hslice, hsize⟩ := hI.isStart hgot
      have hpos := Growth.request_pos hg got.size
      unfold Stream.readRest
      by_cases hdone : min (g.request got.size) (limit - got.size) = 0
      · obtain rfl : got.size = limit := by omega
        rw [if_pos hdone, ← upTo_of_size_eq hslice hsize]
        exact ⟨t, rfl⟩
      · rw [if_neg hdone]
        refine hI.readMore hgot (Nat.pos_of_ne_zero hdone) (fun b t' hb hbsize hnext => ?_) fun hall => ?_
        · have happend := ByteArray.size_append (a := got) (b := b)
          exact ih (limit - (got ++ b).size) (by omega) (Growth.most_next_pos hg _ _) hnext (by omega) rfl
        · rw [hall] at hdone
          exact upTo_of_lt (by omega)

theorem Pours.readToEnd {w : ByteArray} {ending : Except IoError Unit} (hI : st.Pours I w ending)
    (length limit : Nat) {t : τ} (h0 : I .empty t) :
    ∃ t', st.readToEnd length limit t = (upTo w ending limit, t') :=
  hI.readRest (Nat.zero_lt_succ _) h0 (Nat.zero_le limit)

theorem flows_readRest (hI : st.Flows I) (limit : Nat) (g : Growth) {got : ByteArray} {t : τ}
    (hgot : I got t) : ∃ p t', st.readRest limit g got t = (.ok p, t') := by
  induction hm : limit - got.size using Nat.strongRecOn generalizing g got t with
  | ind m ih =>
      unfold readRest
      by_cases hdone : min (g.request got.size) (limit - got.size) = 0
      · rw [if_pos hdone]
        exact ⟨got, t, rfl⟩
      · rw [if_neg hdone]
        apply hI.readMore hgot (Nat.pos_of_ne_zero hdone)
        intro b t' hb hnext
        have happend := ByteArray.size_append (a := got) (b := b)
        exact ih (limit - (got ++ b).size) (by omega) (g.next got.size b.size) hnext rfl

theorem flows_readToEnd (hI : st.Flows I) (length limit : Nat) {t : τ} (h0 : I .empty t) :
    ∃ p t', st.readToEnd length limit t = (.ok p, t') :=
  flows_readRest hI limit (.forLength length) h0

end Stream

end DexArchive
