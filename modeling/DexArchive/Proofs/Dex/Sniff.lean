import Mathlib.Logic.Relation
import DexArchive.Stream.Script
import DexArchive.Proofs.Reads
import DexArchive.Proofs.Zip.Reading

/-! Sniffing a stream that follows a script. The verdict depends on the bytes that come before the script ends, or fails
with more than an interruption, and on nothing else: not on the pieces that they come in, nor on interruptions between
them. No more is taken out of the stream than the verdict is given on. -/

namespace DexArchive

/-- A sequence goes on as its first part does. -/
theorem Action.bind_eq_of_eq {ε τ α β : Type} {p : Action ε τ α} {q : α → Action ε τ β} {t t' : τ}
    (h : p t = p t') : (p >>= q) t = (p >>= q) t' := by
  cases hp : p t' with
  | mk result u =>
      cases result with
      | error e => rw [bind_error (h.trans hp), bind_error hp]
      | ok a => rw [bind_ok (h.trans hp), bind_ok hp]

namespace Stream

variable {τ : Type} {st : Stream τ} {n : Nat} {got b : ByteArray} {t t' : τ}

/-! ### A step of reading up to a length -/

theorem fillFrom_of_le (h : n ≤ got.size) (t : τ) : st.fillFrom n got t = (.ok got, t) := by
  rw [fillFrom, if_pos h]
  rfl

section Step

variable (hlt : got.size < n)

include hlt

theorem fillFrom_of_ok (hread : st.read (n - got.size) t = (.ok b, t')) (hb : b.size ≠ 0) :
    st.fillFrom n got t = st.fillFrom n (got ++ b) t' := by
  rw [fillFrom, if_neg (Nat.not_le.2 hlt), Action.bind_ok (readThrough_of_ok hread), if_neg hb]

theorem fillFrom_of_end (hread : st.read (n - got.size) t = (.ok b, t')) (hb : b.size = 0) :
    st.fillFrom n got t = (.ok got, t') := by
  rw [fillFrom, if_neg (Nat.not_le.2 hlt), Action.bind_ok (readThrough_of_ok hread), if_pos hb]
  rfl

theorem fillFrom_of_error {e : IoError} (hread : st.read (n - got.size) t = (.error e, t'))
    (he : ¬ e.IsInterruption) : st.fillFrom n got t = (.error e, t') := by
  rw [fillFrom, if_neg (Nat.not_le.2 hlt)]
  exact Action.bind_error (readThrough_of_error hread he)

theorem fillFrom_of_isInterruption {e : IoError} (hread : st.read (n - got.size) t = (.error e, t'))
    (he : e.IsInterruption) : st.fillFrom n got t = st.fillFrom n got t' := by
  unfold fillFrom
  rw [if_neg (Nat.not_le.2 hlt)]
  exact Action.bind_eq_of_eq (readThrough_of_isInterruption hread he)

end Step

/-! ### What a script comes to -/

/-- The bytes that a script hands over until it ends, or fails with more than an interruption. -/
def heard : List Step → ByteArray
  | [] => .empty
  | .fails e :: steps => if e.IsInterruption then heard steps else .empty
  | .bytes b :: steps => if b.size = 0 then .empty else b ++ heard steps

/-- Whether it ends or fails then. Bytes of length zero are the end. -/
def ending : List Step → Except IoError Unit
  | [] => .ok ()
  | .fails e :: steps => if e.IsInterruption then ending steps else .error e
  | .bytes b :: steps => if b.size = 0 then .ok () else ending steps

/-- Two scripts of which one has an interruption, or bytes in one piece, where the other has none, or the same bytes in
two. -/
inductive Regroups : List Step → List Step → Prop
  | interruption {e : IoError} (before after : List Step) (he : e.IsInterruption) :
    Regroups (before ++ .fails e :: after) (before ++ after)
  | pieces {a b : ByteArray} (before after : List Step) (ha : a.size ≠ 0) (hb : b.size ≠ 0) :
    Regroups (before ++ .bytes (a ++ b) :: after) (before ++ .bytes a :: .bytes b :: after)

theorem heard_of_isInterruption {e : IoError} (he : e.IsInterruption) (steps : List Step) :
    heard (.fails e :: steps) = heard steps ∧ ending (.fails e :: steps) = ending steps :=
  ⟨if_pos he, if_pos he⟩

theorem heard_of_bytes (hb : b.size ≠ 0) (steps : List Step) :
    heard (.bytes b :: steps) = b ++ heard steps ∧ ending (.bytes b :: steps) = ending steps :=
  ⟨if_neg hb, if_neg hb⟩

/-- What comes first does not matter to what comes to the same. -/
theorem heard_append_congr {steps steps' : List Step} (h : heard steps = heard steps' ∧ ending steps = ending steps')
    (before : List Step) :
    heard (before ++ steps) = heard (before ++ steps') ∧ ending (before ++ steps) = ending (before ++ steps') := by
  induction before with
  | nil => exact h
  | cons step before ih =>
      obtain ⟨hheard, hending⟩ := ih
      cases step with
      | fails e => simp only [List.cons_append, heard, ending, hheard, hending, and_self]
      | bytes b => simp only [List.cons_append, heard, ending, hheard, hending, and_self]

theorem Regroups.heard_eq {steps steps' : List Step} (h : Regroups steps steps') :
    heard steps = heard steps' ∧ ending steps = ending steps' := by
  cases h with
  | interruption before after he => exact heard_append_congr (heard_of_isInterruption he after) before
  | pieces before after ha hb =>
      rename_i a b
      apply heard_append_congr
      have hab : (a ++ b).size ≠ 0 := by
        rw [ByteArray.size_append]
        omega
      obtain ⟨hwhole, hwholeEnd⟩ := heard_of_bytes hab after
      obtain ⟨hright, hrightEnd⟩ := heard_of_bytes hb after
      obtain ⟨hleft, hleftEnd⟩ := heard_of_bytes ha (.bytes b :: after)
      rw [hwhole, hwholeEnd, hleft, hleftEnd, hright, hrightEnd, ByteArray.append_assoc]
      exact ⟨rfl, rfl⟩

theorem heard_eq_of_eqvGen {steps steps' : List Step} (h : Relation.EqvGen Regroups steps steps') :
    heard steps = heard steps' ∧ ending steps = ending steps' := by
  induction h with
  | rel _ _ h => exact h.heard_eq
  | refl _ => exact ⟨rfl, rfl⟩
  | symm _ _ _ ih => exact ⟨ih.1.symm, ih.2.symm⟩
  | trans _ _ _ _ _ ih ih' => exact ⟨ih.1.trans ih'.1, ih.2.trans ih'.2⟩

/-! ### Reading up to a length -/

variable {steps : List Step}

theorem scripted_read_bytes_of_le {length : Nat} (h : b.size ≤ length) (steps : List Step) (calls consumed : Nat) :
    scripted.read length ⟨.bytes b :: steps, calls, consumed⟩ =
      (.ok b, ⟨steps, calls + 1, consumed + b.size⟩) := by
  show (Except.ok (slice b 0 length), Script.mk _ _ _) = _
  rw [if_pos h, slice_of_size_le h, Nat.min_eq_right h]

theorem scripted_read_bytes_of_lt {length : Nat} (h : length < b.size) (steps : List Step) (calls consumed : Nat) :
    scripted.read length ⟨.bytes b :: steps, calls, consumed⟩ =
      (.ok (slice b 0 length), ⟨.bytes (slice b length b.size) :: steps, calls + 1, consumed + length⟩) := by
  show (Except.ok (slice b 0 length), Script.mk _ _ _) = _
  rw [if_neg (Nat.not_le.2 h), Nat.min_eq_left (Nat.le_of_lt h)]

/-- Where a script hands over less than is asked for, all of it is read, and it is for the end of the script to say
what comes of it. -/
theorem fillFrom_of_heard_lt (got : ByteArray) (h : got.size + (heard steps).size < n) (calls consumed : Nat) :
    ∃ left m, scripted.fillFrom n got ⟨steps, calls, consumed⟩ =
      ((ending steps).map fun _ => got ++ heard steps, ⟨left, m, consumed + (heard steps).size⟩) := by
  have hlt : got.size < n := by omega
  induction steps generalizing got calls consumed with
  | nil =>
      refine ⟨[], calls + 1, (fillFrom_of_end hlt rfl ByteArray.size_empty).trans ?_⟩
      rw [heard, ByteArray.append_empty]
      rfl
  | cons step steps ih =>
      cases step with
      | fails e =>
          by_cases he : e.IsInterruption
          · obtain ⟨hheard, hending⟩ := heard_of_isInterruption he steps
            rw [hheard] at h ⊢
            rw [hending, fillFrom_of_isInterruption hlt rfl he]
            exact ih got h _ _ hlt
          · refine ⟨steps, calls + 1, (fillFrom_of_error hlt rfl he).trans ?_⟩
            rw [heard, ending, if_neg he, if_neg he]
            rfl
      | bytes b =>
          by_cases hb : b.size = 0
          · have hread := scripted_read_bytes_of_le (show b.size ≤ n - got.size by omega) steps calls consumed
            refine ⟨steps, calls + 1, (fillFrom_of_end hlt hread hb).trans ?_⟩
            rw [heard, ending, if_pos hb, if_pos hb, ByteArray.append_empty, hb]
            rfl
          · obtain ⟨hheard, hending⟩ := heard_of_bytes hb steps
            have happend := ByteArray.size_append (a := got) (b := b)
            rw [hheard, ByteArray.size_append] at h
            have hread := scripted_read_bytes_of_le (show b.size ≤ n - got.size by omega) steps calls consumed
            obtain ⟨left, m, hrest⟩ := ih (got ++ b) (by omega) (calls + 1) (consumed + b.size) (by omega)
            refine ⟨left, m, ?_⟩
            rw [fillFrom_of_ok hlt hread hb, hrest, hheard, hending, ByteArray.size_append, ByteArray.append_assoc,
              Nat.add_assoc]

theorem slice_append_add (a b : ByteArray) (k : Nat) : slice (a ++ b) 0 (a.size + k) = a ++ slice b 0 k := by
  rw [← slice_append_slice, slice_append_left b (Nat.le_of_eq (Nat.zero_add _)), slice_of_size_le (Nat.le_refl _),
    Nat.zero_add]
  exact congrArg (a ++ ·) (slice_append_right a b 0 k)

/-- Of a piece that is longer than what is asked for, the rest is left. -/
theorem heard_of_cut {k : Nat} (hk : k < b.size) (steps : List Step) :
    slice (heard (.bytes b :: steps)) 0 k = slice b 0 k ∧
      heard (.bytes b :: steps) =
        slice (heard (.bytes b :: steps)) 0 k ++ heard (.bytes (slice b k b.size) :: steps) ∧
      ending (.bytes (slice b k b.size) :: steps) = ending (.bytes b :: steps) := by
  have hb : b.size ≠ 0 := by omega
  have hrest : (slice b k b.size).size ≠ 0 := by
    rw [size_slice]
    omega
  have hparts := slice_append_slice b 0 k b.size
  rw [Nat.zero_add, slice_of_size_le (Nat.le_add_left _ _)] at hparts
  obtain ⟨hheard, hending⟩ := heard_of_bytes hb steps
  obtain ⟨hleft, hleftEnd⟩ := heard_of_bytes hrest steps
  have hstart : slice (b ++ heard steps) 0 k = slice b 0 k := slice_append_left _ (by omega)
  rw [hheard, hending, hleft, hleftEnd, hstart, ← ByteArray.append_assoc, hparts]
  exact ⟨rfl, rfl, rfl⟩

/-- Reading up to `n` bytes is done before the script is. What the script goes on with does not matter: of the bytes
that are heard the ones that were missing are given, and the rest is left. -/
def Fills (n : Nat) (got : ByteArray) (steps : List Step) : Prop :=
  ∃ left m, heard steps = slice (heard steps) 0 (n - got.size) ++ heard left ∧ ending left = ending steps ∧
    ∀ tail calls consumed, scripted.fillFrom n got ⟨steps ++ tail, calls, consumed⟩ =
      (.ok (got ++ slice (heard steps) 0 (n - got.size)), ⟨left ++ tail, calls + m, consumed + (n - got.size)⟩)

theorem fills_of_le (h : n ≤ got.size) (steps : List Step) : Fills n got steps := by
  have hzero : n - got.size = 0 := by omega
  refine ⟨steps, 0, ?_, rfl, fun tail calls consumed => ?_⟩
  · rw [hzero, slice_zero, ByteArray.empty_append]
  · rw [hzero, slice_zero, ByteArray.append_empty, fillFrom_of_le h]
    rfl

theorem Fills.interrupted {e : IoError} (h : Fills n got steps) (hlt : got.size < n) (he : e.IsInterruption) :
    Fills n got (.fails e :: steps) := by
  obtain ⟨hheard, hending⟩ := heard_of_isInterruption he steps
  obtain ⟨left, m, hleft, hleftEnd, hrest⟩ := h
  rw [← hheard] at hleft hrest
  refine ⟨left, m + 1, hleft, hleftEnd.trans hending.symm, fun tail calls consumed => ?_⟩
  rw [List.cons_append, fillFrom_of_isInterruption hlt rfl he, hrest tail, Nat.add_assoc, Nat.add_comm 1]

/-- A piece that is not more than what is missing is given whole. -/
theorem Fills.whole (h : Fills n (got ++ b) steps) (hlt : got.size < n) (hb : b.size ≠ 0)
    (hle : b.size ≤ n - got.size) : Fills n got (.bytes b :: steps) := by
  obtain ⟨hheard, hending⟩ := heard_of_bytes hb steps
  obtain ⟨left, m, hleft, hleftEnd, hrest⟩ := h
  have happend := ByteArray.size_append (a := got) (b := b)
  have hmissing : n - got.size = b.size + (n - (got ++ b).size) := by omega
  refine ⟨left, m + 1, ?_, hleftEnd.trans hending.symm, fun tail calls consumed => ?_⟩
  · rw [hheard, hmissing, slice_append_add, ByteArray.append_assoc, ← hleft]
  · have hread := scripted_read_bytes_of_le hle (steps ++ tail) calls consumed
    rw [List.cons_append, fillFrom_of_ok hlt hread hb, hrest, hheard, hmissing, slice_append_add,
      ByteArray.append_assoc, Nat.add_assoc calls, Nat.add_comm 1, Nat.add_assoc consumed]

/-- Of a piece that is more than that, the start is given. -/
theorem fills_of_cut (hlt : got.size < n) (hcut : n - got.size < b.size) (steps : List Step) :
    Fills n got (.bytes b :: steps) := by
  obtain ⟨hstart, hleft, hleftEnd⟩ := heard_of_cut hcut steps
  have hsize : (slice b 0 (n - got.size)).size = n - got.size := by
    rw [size_slice]
    omega
  have hdone : n ≤ (got ++ slice b 0 (n - got.size)).size := by
    rw [ByteArray.size_append]
    omega
  refine ⟨.bytes (slice b (n - got.size) b.size) :: steps, 1, hleft, hleftEnd, fun tail calls consumed => ?_⟩
  have hread := scripted_read_bytes_of_lt hcut (steps ++ tail) calls consumed
  rw [List.cons_append, fillFrom_of_ok hlt hread (by omega), fillFrom_of_le hdone, hstart]
  rfl

/-- Where the script hands over enough, no more is read of it. -/
theorem fills_of_le_heard (got : ByteArray) (h : n ≤ got.size + (heard steps).size) : Fills n got steps := by
  induction steps generalizing got with
  | nil =>
      rw [heard, ByteArray.size_empty] at h
      exact fills_of_le h []
  | cons step steps ih =>
      by_cases hdone : n ≤ got.size
      · exact fills_of_le hdone _
      · have hlt := Nat.lt_of_not_le hdone
        cases step with
        | fails e =>
            by_cases he : e.IsInterruption
            · rw [(heard_of_isInterruption he steps).1] at h
              exact (ih got h).interrupted hlt he
            · rw [heard, if_neg he, ByteArray.size_empty] at h
              omega
        | bytes b =>
            by_cases hb : b.size = 0
            · rw [heard, if_pos hb, ByteArray.size_empty] at h
              omega
            · rw [(heard_of_bytes hb steps).1, ByteArray.size_append] at h
              have happend := ByteArray.size_append (a := got) (b := b)
              by_cases hle : b.size ≤ n - got.size
              · exact (ih (got ++ b) (by omega)).whole hlt hb hle
              · exact fills_of_cut hlt (Nat.lt_of_not_le hle) steps

theorem scripted_read_counts {length : Nat} {s s' : Script} {result : Except IoError ByteArray}
    (h : scripted.read length s = (result, s')) :
    s'.calls = s.calls + 1 ∧ s'.consumed = s.consumed + (Exchange.bytes ⟨length, result⟩).size := by
  obtain ⟨steps, calls, consumed⟩ := s
  cases steps with
  | nil =>
      cases h
      exact ⟨rfl, rfl⟩
  | cons step steps =>
      cases step with
      | fails e =>
          cases h
          exact ⟨rfl, rfl⟩
      | bytes b =>
          cases h
          have hsize := size_slice b 0 length
          exact ⟨rfl, congrArg (consumed + ·) hsize.symm⟩

/-- The script keeps count of the reads and of what they hand over. -/
theorem Reads.counts {s s' : Script} {log : List Exchange} (h : scripted.Reads s log s') :
    s'.calls = s.calls + log.length ∧ s'.consumed = s.consumed + (delivered log).size := by
  induction h with
  | nil => exact ⟨rfl, rfl⟩
  | @cons s u v x log head _ ih =>
      obtain ⟨hcalls, hconsumed⟩ : u.calls = s.calls + 1 ∧ u.consumed = s.consumed + x.bytes.size :=
        scripted_read_counts head
      rw [delivered, ByteArray.size_append, List.length_cons]
      omega

end Stream

namespace Dex

open DexArchive.Stream (Step Script scripted heard ending Regroups)

/-- How a stream that follows a script is sniffed. -/
structure Sniffs (steps : List Step) : Prop where
  /-- Each read asks for what is missing, and so what is taken out of the stream is not more than is looked at. -/
  reads : ∃ log, scripted.Reads (.ofSteps steps) log (sniff scripted (.ofSteps steps)).2 ∧
    Stream.Asks (fun got length => length = sniffLength - got) 0 log ∧
    (sniff scripted (.ofSteps steps)).2.calls = log.length ∧
    (sniff scripted (.ofSteps steps)).2.consumed = (Stream.delivered log).size
  consumed_eq : (sniff scripted (.ofSteps steps)).2.consumed = min sniffLength (heard steps).size
  /-- Where there is enough, the verdict is on the first bytes. What is left is the rest, and whatever comes after
  that is left as well. -/
  of_enough : sniffLength ≤ (heard steps).size → ∃ left calls,
    heard steps = slice (heard steps) 0 sniffLength ++ heard left ∧ ending left = ending steps ∧
      ∀ tail, sniff scripted (.ofSteps (steps ++ tail)) =
        (.ok (verify (slice (heard steps) 0 sniffLength)), ⟨left ++ tail, calls, sniffLength⟩)
  of_error : (heard steps).size < sniffLength → ∀ e, ending steps = .error e →
    (sniff scripted (.ofSteps steps)).1 = .error e
  of_end : (heard steps).size < sniffLength → ending steps = .ok () →
    (sniff scripted (.ofSteps steps)).1 = .ok (verify (heard steps)) ∧
      ∃ reason, verify (heard steps) = .error reason ∧ reason.rejection = .notDex
  regroup : ∀ steps', Relation.EqvGen Regroups steps steps' →
    (sniff scripted (.ofSteps steps')).1 = (sniff scripted (.ofSteps steps)).1

section Sniff

variable {steps : List Step}

theorem sniff_of_le_heard (h : sniffLength ≤ (heard steps).size) :
    ∃ left calls, heard steps = slice (heard steps) 0 sniffLength ++ heard left ∧ ending left = ending steps ∧
      ∀ tail, sniff scripted (.ofSteps (steps ++ tail)) =
        (.ok (verify (slice (heard steps) 0 sniffLength)), ⟨left ++ tail, calls, sniffLength⟩) := by
  obtain ⟨left, calls, hleft, hleftEnd, hfill⟩ := Stream.fills_of_le_heard .empty
    (Nat.le_trans h (Nat.le_add_left _ _))
  refine ⟨left, calls, hleft, hleftEnd, fun tail => ?_⟩
  have htail := hfill tail 0 0
  rw [ByteArray.size_empty, Nat.sub_zero, ByteArray.empty_append, Nat.zero_add, Nat.zero_add] at htail
  exact sniff_of_fill_ok htail

theorem sniff_of_heard_lt (h : (heard steps).size < sniffLength) :
    ∃ left calls, sniff scripted (.ofSteps steps) =
      ((ending steps).map fun _ => verify (heard steps), ⟨left, calls, (heard steps).size⟩) := by
  obtain ⟨left, calls, hfill⟩ := Stream.fillFrom_of_heard_lt (n := sniffLength) .empty
    (Nat.lt_of_le_of_lt (Nat.le_of_eq (Nat.zero_add _)) h) 0 0
  rw [ByteArray.empty_append, Nat.zero_add] at hfill
  refine ⟨left, calls, (sniff_of_fill hfill).trans ?_⟩
  cases ending steps <;> rfl

/-- The verdict is for the bytes that are heard, and the end of them, to say. -/
theorem sniff_eq (steps : List Step) : (sniff scripted (.ofSteps steps)).1 =
    (Stream.upTo (heard steps) (ending steps) sniffLength).map verify := by
  by_cases h : sniffLength ≤ (heard steps).size
  · obtain ⟨left, calls, -, -, hsniff⟩ := sniff_of_le_heard h
    have hresult := congrArg Prod.fst (hsniff [])
    rw [List.append_nil] at hresult
    rw [hresult, Stream.upTo, if_pos h]
    rfl
  · obtain ⟨left, calls, hsniff⟩ := sniff_of_heard_lt (Nat.lt_of_not_le h)
    rw [hsniff, Stream.upTo, if_neg h]
    cases ending steps <;> rfl

end Sniff

/-- Whatever a stream does, read by read, it is sniffed by what it hands over. -/
theorem sniffs_script (steps : List Step) : Sniffs steps where
  reads := by
    obtain ⟨log, hreads, hasks, -, -⟩ := scripted.exists_reads_fill sniffLength (.ofSteps steps)
    have hstate : (sniff scripted (.ofSteps steps)).2 = (scripted.fill sniffLength (.ofSteps steps)).2 :=
      congrArg Prod.snd (sniff_of_fill rfl)
    rw [hstate]
    obtain ⟨hcalls, hconsumed⟩ := hreads.counts
    exact ⟨log, hreads, hasks, hcalls.trans (Nat.zero_add _), hconsumed.trans (Nat.zero_add _)⟩
  consumed_eq := by
    by_cases h : sniffLength ≤ (heard steps).size
    · obtain ⟨left, calls, -, -, hsniff⟩ := sniff_of_le_heard h
      have hstate := hsniff []
      rw [List.append_nil] at hstate
      rw [hstate, Nat.min_eq_left h]
    · obtain ⟨left, calls, hsniff⟩ := sniff_of_heard_lt (Nat.lt_of_not_le h)
      rw [hsniff, Nat.min_eq_right (Nat.le_of_not_le h)]
  of_enough := sniff_of_le_heard
  of_error h e he := by
    rw [sniff_eq, he, Stream.upTo_of_lt h]
    rfl
  of_end h hend := by
    rw [sniff_eq, hend, Stream.upTo_of_lt h]
    exact ⟨rfl, .tooShort, verify_of_size_lt h, rfl⟩
  regroup steps' h := by
    obtain ⟨hheard, hending⟩ := Stream.heard_eq_of_eqvGen h
    rw [sniff_eq, sniff_eq, hheard, hending]

end Dex

end DexArchive
