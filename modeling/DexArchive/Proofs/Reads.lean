import DexArchive.Proofs.Streaming

/-! The single reads that a way of reading comes down to. A record of them says how much each asked for and what came
of it. Reading up to a length asks each time for what is missing, and reading to the end for no more than is left up
to its limit. So neither is handed more than that, whatever the stream does, and both give all that they are
handed. -/

namespace DexArchive.Stream

variable {τ : Type} {st : Stream τ} {P Q : Nat → Nat → Prop}

/-- One read: how much was asked for, and what came of it. -/
structure Exchange where
  length : Nat
  result : Except IoError ByteArray

/-- The bytes that a read handed over. -/
def Exchange.bytes (x : Exchange) : ByteArray :=
  match x.result with
  | .ok b => b
  | .error _ => .empty

/-- The bytes that were handed over by reads, all together. -/
def delivered : List Exchange → ByteArray
  | [] => .empty
  | x :: log => x.bytes ++ delivered log

/-- The reads that lead from one state to another. -/
inductive Reads (st : Stream τ) : τ → List Exchange → τ → Prop
  | nil (t : τ) : Reads st t [] t
  | cons {t u v : τ} {x : Exchange} {log : List Exchange} (head : st.read x.length t = (x.result, u))
    (tail : Reads st u log v) : Reads st t (x :: log) v

/-- How much each read asks for, as a property of how much was handed over before it. -/
def Asks (P : Nat → Nat → Prop) : Nat → List Exchange → Prop
  | _, [] => True
  | got, x :: log => P got x.length ∧ Asks P (got + x.bytes.size) log

/-! ### Records -/

theorem delivered_append (log log' : List Exchange) :
    delivered (log ++ log') = delivered log ++ delivered log' := by
  induction log with
  | nil => exact ByteArray.empty_append.symm
  | cons x log ih => rw [List.cons_append, delivered, delivered, ih, ByteArray.append_assoc]

theorem delivered_singleton (x : Exchange) : delivered [x] = x.bytes := ByteArray.append_empty

theorem Reads.single {t t' : τ} {length : Nat} {result : Except IoError ByteArray}
    (h : st.read length t = (result, t')) : st.Reads t [⟨length, result⟩] t' := .cons h (.nil t')

theorem Reads.append {t u v : τ} {log log' : List Exchange} (h : st.Reads t log u) (h' : st.Reads u log' v) :
    st.Reads t (log ++ log') v := by
  induction h with
  | nil => exact h'
  | cons head _ ih => exact .cons head (ih h')

theorem Asks.append {got : Nat} {log log' : List Exchange} (h : Asks P got log)
    (h' : Asks P (got + (delivered log).size) log') : Asks P got (log ++ log') := by
  induction log generalizing got with
  | nil => exact h'
  | cons x log ih =>
      rw [delivered, ByteArray.size_append, ← Nat.add_assoc] at h'
      exact ⟨h.1, ih h.2 h'⟩

theorem Asks.mono {got : Nat} {log : List Exchange} (h : Asks P got log)
    (hPQ : ∀ got length, P got length → Q got length) : Asks Q got log := by
  induction log generalizing got with
  | nil => trivial
  | cons x log ih => exact ⟨hPQ _ _ h.1, ih h.2⟩

theorem Exchange.size_bytes_le {t t' : τ} {x : Exchange} (h : st.read x.length t = (x.result, t')) :
    x.bytes.size ≤ x.length := by
  unfold bytes
  cases hresult : x.result with
  | error e => exact Nat.zero_le _
  | ok b => exact st.size_read_le x.length t b (by rw [h, hresult])

/-- Where no read asks for more than is left up to a limit, no more is handed over. -/
theorem Reads.size_delivered_le {t t' : τ} {log : List Exchange} (h : st.Reads t log t') {limit got : Nat}
    (hasks : Asks (fun got length => length ≤ limit - got) got log) (hle : got ≤ limit) :
    got + (delivered log).size ≤ limit := by
  induction h generalizing got with
  | nil => exact hle
  | cons head _ ih =>
      have hsize := Exchange.size_bytes_le head
      have hnext := ih hasks.2 (by have := hasks.1; omega)
      rw [delivered, ByteArray.size_append]
      omega

/-! ### Ways of reading -/

/-- After `got`, the computation goes on by reads that ask for what `P` says, and if it goes well it gives all that
was handed over. -/
def ReadsOn (st : Stream τ) (P : Nat → Nat → Prop) (got : ByteArray) (p : Action IoError τ ByteArray) : Prop :=
  ∀ t, ∃ log, st.Reads t log (p t).2 ∧ Asks P got.size log ∧ ∀ b, (p t).1 = .ok b → b = got ++ delivered log

theorem readsOn_pure (st : Stream τ) (P : Nat → Nat → Prop) (got : ByteArray) : st.ReadsOn P got (pure got) := by
  intro t
  refine ⟨[], .nil t, trivial, fun b hb => ?_⟩
  cases hb
  exact ByteArray.append_empty.symm

/-- An interrupted read hands nothing over, so the read that is made in its place asks for as much. -/
theorem exists_reads_readThrough (st : Stream τ) {got length : Nat} (h : P got length) (t : τ) :
    ∃ log, st.Reads t log (st.readThrough length t).2 ∧ Asks P got log ∧
      delivered log = Exchange.bytes ⟨length, (st.readThrough length t).1⟩ := by
  fun_induction readThrough st length t with
  | case1 t b t' hread => exact ⟨_, .single hread, ⟨h, trivial⟩, delivered_singleton _⟩
  | case2 t e t' hread he ih =>
      obtain ⟨log, hreads, hasks, hdelivered⟩ := ih
      exact ⟨⟨length, .error e⟩ :: log, .cons hread hreads, ⟨h, hasks⟩, ByteArray.empty_append.trans hdelivered⟩
  | case3 t e t' hread he => exact ⟨_, .single hread, ⟨h, trivial⟩, delivered_singleton _⟩

theorem readsOn_readMore {length : Nat} {got : ByteArray} {rest : ByteArray → Action IoError τ ByteArray}
    (h : P got.size length)
    (hrest : ∀ b, b.size ≠ 0 → st.ReadsOn P (got ++ b) (rest b)) :
    st.ReadsOn P got (st.readMore length got rest) := by
  intro t
  obtain ⟨log, hreads, hasks, hdelivered⟩ := st.exists_reads_readThrough h t
  unfold readMore
  cases hthrough : st.readThrough length t with
  | mk result t' =>
      rw [hthrough] at hreads hdelivered
      cases result with
      | error e =>
          rw [Action.bind_error hthrough]
          exact ⟨log, hreads, hasks, nofun⟩
      | ok b =>
          obtain rfl : b = delivered log := hdelivered.symm
          rw [Action.bind_ok hthrough]
          by_cases hend : (delivered log).size = 0
          · rw [if_pos hend]
            refine ⟨log, hreads, hasks, fun p hp => ?_⟩
            cases hp
            rw [ByteArray.size_eq_zero_iff.1 hend, ByteArray.append_empty]
          · rw [if_neg hend]
            obtain ⟨log', hreads', hasks', hresult⟩ := hrest _ hend t'
            rw [ByteArray.size_append] at hasks'
            refine ⟨log ++ log', hreads.append hreads', hasks.append hasks', fun p hp => ?_⟩
            rw [hresult p hp, delivered_append, ByteArray.append_assoc]

theorem readsOn_fillFrom (st : Stream τ) (n : Nat) (got : ByteArray) :
    st.ReadsOn (fun got length => length = n - got) got (st.fillFrom n got) := by
  induction hm : n - got.size using Nat.strongRecOn generalizing got with
  | ind m ih =>
      unfold fillFrom
      by_cases hdone : n ≤ got.size
      · rw [if_pos hdone]
        exact readsOn_pure st _ got
      · rw [if_neg hdone]
        apply readsOn_readMore
        · rfl
        · intro b hb
          have happend := ByteArray.size_append (a := got) (b := b)
          exact ih (n - (got ++ b).size) (by omega) (got ++ b) rfl

theorem readsOn_readRest (st : Stream τ) (limit : Nat) (g : Growth) (got : ByteArray) :
    st.ReadsOn (fun got length => length ≤ limit - got) got (st.readRest limit g got) := by
  induction hm : limit - got.size using Nat.strongRecOn generalizing g got with
  | ind m ih =>
      unfold readRest
      by_cases hdone : min (g.request got.size) (limit - got.size) = 0
      · rw [if_pos hdone]
        exact readsOn_pure st _ got
      · rw [if_neg hdone]
        apply readsOn_readMore
        · exact Nat.min_le_right _ _
        · intro b hb
          have happend := ByteArray.size_append (a := got) (b := b)
          exact ih (limit - (got ++ b).size) (by omega) (g.next got.size b.size) (got ++ b) rfl

/-- Reading up to a length asks for exactly what is missing, each time. -/
theorem exists_reads_fill (st : Stream τ) (n : Nat) (t : τ) :
    ∃ log, st.Reads t log (st.fill n t).2 ∧ Asks (fun got length => length = n - got) 0 log ∧
      (delivered log).size ≤ n ∧ ∀ b, (st.fill n t).1 = .ok b → b = delivered log := by
  obtain ⟨log, hreads, hasks, hresult⟩ := st.readsOn_fillFrom n .empty t
  have hsize := hreads.size_delivered_le (hasks.mono fun got length h => Nat.le_of_eq h) (Nat.zero_le n)
  rw [ByteArray.size_empty, Nat.zero_add] at hsize
  exact ⟨log, hreads, hasks, hsize, fun b hb => (hresult b hb).trans ByteArray.empty_append⟩

/-- Reading to the end is handed no more than its limit, be it all of the stream or not. -/
theorem exists_reads_readToEnd (st : Stream τ) (length limit : Nat) (t : τ) :
    ∃ log, st.Reads t log (st.readToEnd length limit t).2 ∧ (delivered log).size ≤ limit ∧
      ∀ b, (st.readToEnd length limit t).1 = .ok b → b = delivered log := by
  obtain ⟨log, hreads, hasks, hresult⟩ := st.readsOn_readRest limit (.forLength length) .empty t
  have hsize := hreads.size_delivered_le hasks (Nat.zero_le limit)
  rw [ByteArray.size_empty, Nat.zero_add] at hsize
  exact ⟨log, hreads, hsize, fun b hb => (hresult b hb).trans ByteArray.empty_append⟩

end DexArchive.Stream
