import DexArchive.Http.Script
import DexArchive.Proofs.Serving

/-! What is asked of a server to read a range of bytes. The requests and their answers are written down
beside the run; each request is for what is still missing, no answer is taken further than that, and a read
comes to an end with all the bytes, with an answer that has none, or without a connection. So bytes on a
server are read like the same bytes in memory. -/

namespace DexArchive.Http

variable {σ : Type}

/-- A request for the bytes from the first to the last one, and what came of it. -/
structure Exchange where
  first : UInt64
  last : UInt64
  outcome : Except Lapse Answer

/-- The server, with the exchanges written down. -/
def Server.recorded (server : Server σ) : Server (σ × List Exchange) where
  head s := ((server.head s.1).1, ((server.head s.1).2, s.2))
  get first last s :=
    let (outcome, s') := server.get first last s.1
    (outcome, (s', s.2 ++ [⟨first, last, outcome⟩]))

/-- The answer holds bytes of the resource. -/
def Answer.IsPartial (a : Answer) : Prop := a.status = partialContent ∧ a.body.size ≠ 0

instance (a : Answer) : Decidable a.IsPartial := inferInstanceAs (Decidable (_ ∧ _))

namespace Exchange

/-- There was no connection, and the request is to be made again. -/
def isUnanswered (x : Exchange) : Bool :=
  match x.outcome with
  | .error .noConnection => true
  | _ => false

/-- Why nothing is asked for any more after the exchange. -/
def fault? (x : Exchange) : Option Failure :=
  match x.outcome with
  | .error .noConnection => none
  | .error (.other text) => some (.plain text)
  | .ok a =>
    if a.status ≠ partialContent then some (Problem.badStatus a.status).failure
    else if a.body.size = 0 then some (Problem.emptyRange x.first x.last).failure
    else none

/-- The bytes that came of the request. -/
def body (x : Exchange) : ByteArray :=
  match x.outcome with
  | .error _ => .empty
  | .ok a => if a.IsPartial then a.body else .empty

/-- Bytes came of the request. -/
def succeeds (x : Exchange) : Bool := x.body.size ≠ 0

/-- How many bytes were asked for. -/
def asked (x : Exchange) : Nat := x.last.toNat + 1 - x.first.toNat

/-- If there was a connection, the answer has bytes, and they are those of `d` as far as they were asked
for. There may be fewer of them, and there may be more. -/
def Tells (d : ByteArray) (x : Exchange) : Prop :=
  x.isUnanswered ∨ ∃ a, x.outcome = .ok a ∧ a.IsPartial ∧
    slice a.body 0 x.asked = slice d x.first.toNat (min x.asked a.body.size)

variable {x : Exchange} {a : Answer}

theorem outcome_of_isUnanswered (h : x.isUnanswered) : x.outcome = .error .noConnection := by
  unfold isUnanswered at h
  split at h
  · assumption
  · cases h

theorem body_of_isPartial (hx : x.outcome = .ok a) (ha : a.IsPartial) : x.body = a.body := by
  rw [body, hx]
  exact if_pos ha

theorem body_of_isUnanswered (h : x.isUnanswered) : x.body = .empty := by
  rw [body, outcome_of_isUnanswered h]

theorem not_isUnanswered_of_ok (hx : x.outcome = .ok a) : ¬x.isUnanswered := by
  rw [isUnanswered, hx]
  exact Bool.false_ne_true

theorem fault?_of_isUnanswered (h : x.isUnanswered) : x.fault? = none := by
  rw [fault?, outcome_of_isUnanswered h]

theorem fault?_of_isPartial (hx : x.outcome = .ok a) (ha : a.IsPartial) : x.fault? = none := by
  rw [fault?, hx]
  simp only [if_neg (not_not_intro ha.1), if_neg ha.2]

theorem body_of_fault? {f : Failure} (h : x.fault? = some f) : x.body = .empty := by
  cases hx : x.outcome with
  | error lapse => rw [body, hx]
  | ok a =>
      have ha : ¬a.IsPartial := fun ha => by
        rw [fault?_of_isPartial hx ha] at h
        cases h
      rw [body, hx]
      exact if_neg ha

theorem succeeds_of_isPartial (hx : x.outcome = .ok a) (ha : a.IsPartial) : x.succeeds := by
  rw [succeeds, body_of_isPartial hx ha]
  exact decide_eq_true ha.2

theorem not_succeeds_of_body (h : x.body = .empty) : ¬x.succeeds := by
  rw [succeeds, h]
  exact Bool.false_ne_true

theorem Tells.fault?_eq_none {d : ByteArray} (h : x.Tells d) : x.fault? = none := by
  rcases h with hx | ⟨a, hx, ha, -⟩
  · exact fault?_of_isUnanswered hx
  · exact fault?_of_isPartial hx ha

end Exchange

/-- The bytes got so far and those of an exchange, of which no more is taken than is missing. -/
def extend (expected : Nat) (got : ByteArray) (x : Exchange) : ByteArray :=
  got ++ slice x.body 0 (expected - got.size)

/-- The bodies one after the other, each cut to what was still missing. -/
def received (expected : Nat) (exchanges : List Exchange) : ByteArray :=
  exchanges.foldl (extend expected) .empty

theorem extend_of_isUnanswered {x : Exchange} (h : x.isUnanswered) (expected : Nat) (got : ByteArray) :
    extend expected got x = got := by
  have hempty : slice x.body 0 (expected - got.size) = .empty := by
    rw [Exchange.body_of_isUnanswered h, ← ByteArray.size_eq_zero_iff, size_slice]
    exact Nat.min_zero _
  rw [extend, hempty, ByteArray.append_empty]

theorem extend_of_isPartial {x : Exchange} {a : Answer} (hx : x.outcome = .ok a) (ha : a.IsPartial)
    (expected : Nat) (got : ByteArray) :
    extend expected got x = got ++ slice a.body 0 (expected - got.size) := by
  rw [extend, Exchange.body_of_isPartial hx ha]

theorem size_le_foldl_extend (expected : Nat) (exchanges : List Exchange) (got : ByteArray) :
    got.size ≤ (exchanges.foldl (extend expected) got).size := by
  induction exchanges generalizing got with
  | nil => exact Nat.le_refl _
  | cons x rest ih =>
      refine Nat.le_trans ?_ (ih _)
      rw [extend, ByteArray.size_append]
      exact Nat.le_add_right _ _

/-! ### One request -/

section Step

variable {server : Server σ} {attempts : Nat} {offset last : UInt64} {expected failed : Nat} {got : ByteArray}
  {s s' : σ} {a : Answer}

theorem recorded_get {first : UInt64} {outcome : Except Lapse Answer}
    (h : server.get first last s = (outcome, s')) (past : List Exchange) :
    server.recorded.get first last (s, past) = (outcome, (s', past ++ [⟨first, last, outcome⟩])) := by
  simp only [Server.recorded, h]

theorem fetch_of_le (h : expected ≤ got.size) :
    fetch server attempts offset last expected failed got s = (.ok got, s) := by
  unfold fetch
  rw [if_pos h]

variable (h : got.size < expected)

include h

theorem fetch_of_noConnection_of_le
    (hget : server.get (offset + .ofNat got.size) last s = (.error .noConnection, s'))
    (hmost : attempts ≤ failed + 1) :
    fetch server attempts offset last expected failed got s =
      (.error Problem.retriesExceeded.failure, s') := by
  unfold fetch
  simp only [if_neg (Nat.not_le.2 h), hget, if_pos hmost]

theorem fetch_of_noConnection_of_lt
    (hget : server.get (offset + .ofNat got.size) last s = (.error .noConnection, s'))
    (hmost : failed + 1 < attempts) :
    fetch server attempts offset last expected failed got s =
      fetch server attempts offset last expected (failed + 1) got s' := by
  rw [fetch]
  simp only [if_neg (Nat.not_le.2 h), hget, if_neg (Nat.not_le.2 hmost)]

theorem fetch_of_fault? {outcome : Except Lapse Answer} {f : Failure}
    (hget : server.get (offset + .ofNat got.size) last s = (outcome, s'))
    (hfault : Exchange.fault? ⟨offset + .ofNat got.size, last, outcome⟩ = some f) :
    fetch server attempts offset last expected failed got s = (.error f, s') := by
  unfold fetch
  simp only [if_neg (Nat.not_le.2 h), hget]
  cases outcome with
  | error lapse =>
      cases lapse with
      | noConnection => cases hfault
      | other text =>
          cases hfault
          rfl
  | ok a =>
      simp only [Exchange.fault?] at hfault ⊢
      by_cases hstatus : a.status ≠ partialContent
      · rw [if_pos hstatus] at hfault ⊢
        cases hfault
        rfl
      · rw [if_neg hstatus] at hfault ⊢
        by_cases hbody : a.body.size = 0
        · rw [if_pos hbody] at hfault ⊢
          cases hfault
          rfl
        · rw [if_neg hbody] at hfault
          cases hfault

theorem fetch_of_isPartial (hget : server.get (offset + .ofNat got.size) last s = (.ok a, s'))
    (ha : a.IsPartial) :
    fetch server attempts offset last expected failed got s =
      fetch server attempts offset last expected failed
        (got ++ slice a.body 0 (expected - got.size)) s' := by
  rw [fetch]
  simp only [if_neg (Nat.not_le.2 h), hget, if_neg (not_not_intro ha.1), if_neg ha.2]

end Step

/-! ### All requests -/

/-- How a read of `expected` bytes goes on that holds `got` of them after `failed` attempts without a
connection: it has them all, or it makes one request and is given up, stopped, or goes on after it. -/
inductive Fetches (attempts : Nat) (offset last : UInt64) (expected : Nat) :
    Nat → ByteArray → List Exchange → Except Failure ByteArray → Prop where
  | done {failed : Nat} {got : ByteArray} (h : expected ≤ got.size) :
      Fetches attempts offset last expected failed got [] (.ok got)
  | givenUp {failed : Nat} {got : ByteArray} (h : got.size < expected) (hmost : attempts ≤ failed + 1) :
      Fetches attempts offset last expected failed got
        [⟨offset + .ofNat got.size, last, .error .noConnection⟩] (.error Problem.retriesExceeded.failure)
  | again {failed : Nat} {got : ByteArray} {rest : List Exchange} {result : Except Failure ByteArray}
      (h : got.size < expected) (hmost : failed + 1 < attempts)
      (hrest : Fetches attempts offset last expected (failed + 1) got rest result) :
      Fetches attempts offset last expected failed got
        (⟨offset + .ofNat got.size, last, .error .noConnection⟩ :: rest) result
  | stopped {failed : Nat} {got : ByteArray} {outcome : Except Lapse Answer} {f : Failure}
      (h : got.size < expected)
      (hfault : Exchange.fault? ⟨offset + .ofNat got.size, last, outcome⟩ = some f) :
      Fetches attempts offset last expected failed got [⟨offset + .ofNat got.size, last, outcome⟩] (.error f)
  | taken {failed : Nat} {got : ByteArray} {a : Answer} {rest : List Exchange}
      {result : Except Failure ByteArray} (h : got.size < expected) (ha : a.IsPartial)
      (hrest : Fetches attempts offset last expected failed
        (got ++ slice a.body 0 (expected - got.size)) rest result) :
      Fetches attempts offset last expected failed got
        (⟨offset + .ofNat got.size, last, .ok a⟩ :: rest) result

/-- Writing the exchanges down changes nothing else, and they go as the relation says. -/
theorem exists_fetches (server : Server σ) (attempts : Nat) (offset last : UInt64) (expected failed : Nat)
    (got : ByteArray) (s : σ) (past : List Exchange) :
    ∃ exchanges,
      fetch server.recorded attempts offset last expected failed got (s, past) =
        ((fetch server attempts offset last expected failed got s).1,
          ((fetch server attempts offset last expected failed got s).2, past ++ exchanges)) ∧
      Fetches attempts offset last expected failed got exchanges
        (fetch server attempts offset last expected failed got s).1 := by
  fun_induction fetch server attempts offset last expected failed got s generalizing past with
  | case1 failed got s hdone =>
      rw [fetch_of_le hdone]
      exact ⟨[], by rw [List.append_nil], .done hdone⟩
  | case2 failed got s hlt first s' hget hmost =>
      have hlt := Nat.lt_of_not_le hlt
      rw [fetch_of_noConnection_of_le hlt (recorded_get hget past) hmost]
      exact ⟨_, rfl, .givenUp hlt hmost⟩
  | case3 failed got s hlt first s' hget hmost ih =>
      have hlt := Nat.lt_of_not_le hlt
      have hmost := Nat.lt_of_not_le hmost
      obtain ⟨rest, hrun, hrest⟩ := ih (past ++ [⟨first, last, .error .noConnection⟩])
      rw [fetch_of_noConnection_of_lt hlt (recorded_get hget past) hmost, hrun, List.append_assoc]
      exact ⟨_, rfl, .again hlt hmost hrest⟩
  | case4 failed got s hlt first text s' hget =>
      have hlt := Nat.lt_of_not_le hlt
      rw [fetch_of_fault? hlt (recorded_get hget past) rfl]
      exact ⟨_, rfl, .stopped hlt rfl⟩
  | case5 failed got s hlt first a s' hget hstatus =>
      have hlt := Nat.lt_of_not_le hlt
      have hfault : Exchange.fault? ⟨first, last, .ok a⟩ = some (Problem.badStatus a.status).failure :=
        if_pos hstatus
      rw [fetch_of_fault? hlt (recorded_get hget past) hfault]
      exact ⟨_, rfl, .stopped hlt hfault⟩
  | case6 failed got s hlt first a s' hget hstatus hbody =>
      have hlt := Nat.lt_of_not_le hlt
      have hfault : Exchange.fault? ⟨first, last, .ok a⟩ = some (Problem.emptyRange first last).failure :=
        (if_neg hstatus).trans (if_pos hbody)
      rw [fetch_of_fault? hlt (recorded_get hget past) hfault]
      exact ⟨_, rfl, .stopped hlt hfault⟩
  | case7 failed got s hlt first a s' hget hstatus hbody ih =>
      have hlt := Nat.lt_of_not_le hlt
      have ha : a.IsPartial := ⟨Decidable.not_not.1 hstatus, hbody⟩
      obtain ⟨rest, hrun, hrest⟩ := ih (past ++ [⟨first, last, .ok a⟩])
      rw [fetch_of_isPartial hlt (recorded_get hget past) ha, hrun, List.append_assoc]
      exact ⟨_, rfl, .taken hlt ha hrest⟩

namespace Fetches

variable {attempts : Nat} {offset last : UInt64} {expected failed : Nat} {got : ByteArray}
  {exchanges : List Exchange} {result : Except Failure ByteArray}

/-- Each request is for what is missing when it is made. -/
theorem request (h : Fetches attempts offset last expected failed got exchanges result) {k : Nat}
    {x : Exchange} (hx : exchanges[k]? = some x) :
    ((exchanges.take k).foldl (extend expected) got).size < expected ∧ x.last = last ∧
      x.first = offset + .ofNat ((exchanges.take k).foldl (extend expected) got).size := by
  induction h generalizing k with
  | done => cases hx
  | givenUp h | stopped h =>
      cases k with
      | zero =>
          cases hx
          exact ⟨h, rfl, rfl⟩
      | succ k => cases hx
  | again h _ _ ih =>
      cases k with
      | zero =>
          cases hx
          exact ⟨h, rfl, rfl⟩
      | succ k =>
          rw [List.take_succ_cons, List.foldl_cons, extend_of_isUnanswered rfl]
          exact ih hx
  | taken h ha _ ih =>
      cases k with
      | zero =>
          cases hx
          exact ⟨h, rfl, rfl⟩
      | succ k =>
          rw [List.take_succ_cons, List.foldl_cons, extend_of_isPartial rfl ha]
          exact ih hx

/-- What comes of it if all goes well. -/
theorem ok (h : Fetches attempts offset last expected failed got exchanges result) {b : ByteArray}
    (hb : result = .ok b) :
    b = exchanges.foldl (extend expected) got ∧ ∀ x ∈ exchanges, x.fault? = none := by
  induction h with
  | done =>
      cases hb
      exact ⟨rfl, fun x hx => absurd hx List.not_mem_nil⟩
  | givenUp | stopped => cases hb
  | again _ _ _ ih =>
      obtain ⟨hfold, hall⟩ := ih hb
      refine ⟨?_, List.forall_mem_cons.2 ⟨rfl, hall⟩⟩
      rwa [List.foldl_cons, extend_of_isUnanswered rfl]
  | taken _ ha _ ih =>
      obtain ⟨hfold, hall⟩ := ih hb
      refine ⟨?_, List.forall_mem_cons.2 ⟨Exchange.fault?_of_isPartial rfl ha, hall⟩⟩
      rwa [List.foldl_cons, extend_of_isPartial rfl ha]

/-- After an exchange with a fault there is no other one, and the read fails with it. -/
theorem eq_error_of_fault? (h : Fetches attempts offset last expected failed got exchanges result)
    {k : Nat} {x : Exchange} {f : Failure} (hx : exchanges[k]? = some x) (hf : x.fault? = some f) :
    exchanges.length = k + 1 ∧ result = .error f := by
  induction h generalizing k with
  | done => cases hx
  | givenUp =>
      cases k with
      | zero =>
          cases hx
          cases hf
      | succ k => cases hx
  | stopped _ hfault =>
      cases k with
      | zero =>
          cases hx
          exact ⟨rfl, congrArg Except.error (Option.some.inj (hfault.symm.trans hf))⟩
      | succ k => cases hx
  | again _ _ _ ih =>
      cases k with
      | zero =>
          cases hx
          cases hf
      | succ k =>
          obtain ⟨hlength, hresult⟩ := ih hx
          exact ⟨congrArg (· + 1) hlength, hresult⟩
  | taken _ ha _ ih =>
      cases k with
      | zero =>
          cases hx
          rw [Exchange.fault?_of_isPartial rfl ha] at hf
          cases hf
      | succ k =>
          obtain ⟨hlength, hresult⟩ := ih hx
          exact ⟨congrArg (· + 1) hlength, hresult⟩

/-- Why a read fails: of a fault, or there was no connection too often. -/
theorem error (h : Fetches attempts offset last expected failed got exchanges result) {f : Failure}
    (hf : result = .error f) :
    (∃ x ∈ exchanges, x.fault? = some f) ∨ f = Problem.retriesExceeded.failure ∧
      max attempts 1 ≤ failed + exchanges.countP Exchange.isUnanswered := by
  induction h with
  | done => cases hf
  | givenUp _ hmost =>
      cases hf
      refine .inr ⟨rfl, ?_⟩
      rw [List.countP_cons_of_pos rfl]
      omega
  | stopped _ hfault =>
      cases hf
      exact .inl ⟨_, List.mem_singleton_self _, hfault⟩
  | again _ _ _ ih =>
      rw [List.countP_cons_of_pos rfl]
      rcases ih hf with ⟨x, hx, hfault⟩ | ⟨heq, hmost⟩
      · exact .inl ⟨x, List.mem_cons_of_mem _ hx, hfault⟩
      · exact .inr ⟨heq, by omega⟩
  | taken _ _ _ ih =>
      rw [List.countP_cons_of_neg (Exchange.not_isUnanswered_of_ok rfl)]
      rcases ih hf with ⟨x, hx, hfault⟩ | hmost
      · exact .inl ⟨x, List.mem_cons_of_mem _ hx, hfault⟩
      · exact .inr hmost

/-- Each answer that is taken brings at least a byte. -/
theorem countP_add_le (h : Fetches attempts offset last expected failed got exchanges result) :
    exchanges.countP Exchange.succeeds + got.size ≤ max expected got.size := by
  induction h with
  | done =>
      rw [List.countP_nil, Nat.zero_add]
      exact Nat.le_max_right _ _
  | givenUp =>
      rw [List.countP_cons_of_neg (Exchange.not_succeeds_of_body rfl), List.countP_nil, Nat.zero_add]
      exact Nat.le_max_right _ _
  | stopped _ hfault =>
      have hbody := Exchange.body_of_fault? hfault
      rw [List.countP_cons_of_neg (Exchange.not_succeeds_of_body hbody), List.countP_nil, Nat.zero_add]
      exact Nat.le_max_right _ _
  | again _ _ _ ih =>
      rw [List.countP_cons_of_neg (Exchange.not_succeeds_of_body rfl)]
      exact ih
  | taken h ha _ ih =>
      have hbody := ha.2
      rw [ByteArray.size_append, size_slice] at ih
      rw [List.countP_cons_of_pos (Exchange.succeeds_of_isPartial rfl ha)]
      omega

section Places

variable (hfit : offset.toNat + expected ≤ 2 ^ 64)

include hfit

theorem toNat_first (h : Fetches attempts offset last expected failed got exchanges result) {k : Nat}
    {x : Exchange} (hx : exchanges[k]? = some x) :
    x.first.toNat = offset.toNat + ((exchanges.take k).foldl (extend expected) got).size := by
  obtain ⟨hsize, -, hfirst⟩ := h.request hx
  rw [hfirst, UInt64.toNat_add, UInt64.toNat_ofNat']
  omega

theorem le_toNat_first (h : Fetches attempts offset last expected failed got exchanges result)
    {x : Exchange} (hx : x ∈ exchanges) : offset.toNat + got.size ≤ x.first.toNat := by
  obtain ⟨k, hk⟩ := List.mem_iff_getElem?.1 hx
  rw [h.toNat_first hfit hk]
  exact Nat.add_le_add_left (size_le_foldl_extend _ _ _) _

/-- The requests go forward: a request is made again only for want of a connection. -/
theorem pairwise_first (h : Fetches attempts offset last expected failed got exchanges result) :
    exchanges.Pairwise fun x y => x.first ≤ y.first ∧ (¬x.isUnanswered → x.first < y.first) := by
  induction h with
  | done => exact .nil
  | givenUp | stopped => exact List.pairwise_singleton _ _
  | @again _ got _ _ h _ hrest ih =>
      refine .cons (fun y hy => ⟨?_, fun hanswer => absurd rfl hanswer⟩) ih
      have hle := hrest.le_toNat_first hfit hy
      rw [UInt64.le_iff_toNat_le, UInt64.toNat_add, UInt64.toNat_ofNat']
      omega
  | @taken _ got a _ _ h ha hrest ih =>
      refine .cons (fun y hy => ?_) ih
      have hle := hrest.le_toNat_first hfit hy
      have hbody := ha.2
      rw [ByteArray.size_append, size_slice] at hle
      have hlt : (offset + UInt64.ofNat got.size).toNat < y.first.toNat := by
        rw [UInt64.toNat_add, UInt64.toNat_ofNat']
        omega
      exact ⟨UInt64.le_iff_toNat_le.2 (Nat.le_of_lt hlt), fun _ => UInt64.lt_iff_toNat_lt.2 hlt⟩

/-- Answers that tell of `d` make what is got a slice of it. -/
theorem foldl_eq_slice (h : Fetches attempts offset last expected failed got exchanges result)
    {d : ByteArray} (hlast : last.toNat + 1 = offset.toNat + expected)
    (hgot : got = slice d offset.toNat got.size) (htells : ∀ x ∈ exchanges, x.Tells d) :
    exchanges.foldl (extend expected) got =
      slice d offset.toNat (exchanges.foldl (extend expected) got).size := by
  induction h with
  | done => exact hgot
  | givenUp =>
      rw [List.foldl_cons, extend_of_isUnanswered rfl]
      exact hgot
  | stopped _ hfault =>
      have hnone := (htells _ (List.mem_singleton_self _)).fault?_eq_none
      rw [hfault] at hnone
      cases hnone
  | again _ _ _ ih =>
      rw [List.foldl_cons, extend_of_isUnanswered rfl]
      exact ih hgot (List.forall_mem_cons.1 htells).2
  | @taken failed got a rest result h ha hrest ih =>
      rw [List.foldl_cons, extend_of_isPartial rfl ha]
      obtain ⟨hfirst, hothers⟩ := List.forall_mem_cons.1 htells
      refine ih ?_ hothers
      have hplace : (offset + UInt64.ofNat got.size).toNat = offset.toNat + got.size := by
        rw [UInt64.toNat_add, UInt64.toNat_ofNat']
        omega
      rcases hfirst with hnone | ⟨a', heq, -, hbody⟩
      · cases hnone
      · cases heq
        rw [Exchange.asked, hplace,
          show last.toNat + 1 - (offset.toNat + got.size) = expected - got.size by omega] at hbody
        have hsize := size_slice a.body 0 (expected - got.size)
        rw [Nat.sub_zero] at hsize
        rw [ByteArray.size_append, hsize, ← slice_append_slice, ← hgot, hbody]

end Places

end Fetches

/-! ### Reads -/

section Words

variable {size offset length : UInt64} (hlength : 0 < length.toNat) (hoffset : offset.toNat < size.toNat)

include hlength hoffset

/-- The end of the buffer is reckoned before it is cut to the size, so it may wrap. -/
theorem toNat_lastByte_eq :
    (lastByte size offset length).toNat =
      if offset.toNat + length.toNat ≤ 2 ^ 64 then min (offset.toNat + length.toNat) size.toNat - 1
      else offset.toNat + length.toNat - 1 - 2 ^ 64 := by
  have hsize := size.toNat_lt
  have hword := length.toNat_lt
  have hend : (offset + length - 1).toNat = (offset.toNat + length.toNat - 1) % 2 ^ 64 := by
    rw [UInt64.toNat_sub, UInt64.toNat_add, UInt64.toNat_one]
    omega
  have htop : (size - 1).toNat = size.toNat - 1 := by
    rw [UInt64.toNat_sub, UInt64.toNat_one]
    omega
  rw [lastByte, Std.min_eq_if]
  split <;> rename_i hle <;> rw [UInt64.le_iff_toNat_le, hend, htop] at hle
  · rw [hend]
    split <;> omega
  · rw [htop]
    split <;> omega

theorem toNat_expectedLength_eq :
    (expectedLength size offset length).toNat =
      if offset.toNat + length.toNat ≤ 2 ^ 64 then
        min (offset.toNat + length.toNat) size.toNat - offset.toNat
      else length.toNat := by
  have hlast := toNat_lastByte_eq hlength hoffset
  have hsize := size.toNat_lt
  have hword := length.toNat_lt
  rw [expectedLength, UInt64.toNat_add, UInt64.toNat_sub, hlast, UInt64.toNat_one]
  split <;> omega

end Words

section Fitting

variable {size : UInt64} {offset length : Nat} (h : offset + length < 2 ^ 64) (hlength : 0 < length)
  (hoffset : offset < size.toNat)

theorem readAt_of_nothing (hnone : length = 0 ∨ size.toNat ≤ offset) (server : Server σ) (attempts : Nat)
    (s : σ) : readAt server attempts size offset length s = (.ok .empty, s) :=
  if_pos hnone

include h hlength hoffset

theorem toNat_lastByte :
    (lastByte size (.ofNat offset) (.ofNat length)).toNat = min (offset + length) size.toNat - 1 := by
  have hexact := @toNat_lastByte_eq size (.ofNat offset) (.ofNat length)
  rw [UInt64.toNat_ofNat', UInt64.toNat_ofNat', Nat.mod_eq_of_lt (by omega),
    Nat.mod_eq_of_lt (by omega)] at hexact
  exact (hexact hlength hoffset).trans (if_pos (Nat.le_of_lt h))

theorem toNat_expectedLength :
    (expectedLength size (.ofNat offset) (.ofNat length)).toNat =
      min (offset + length) size.toNat - offset := by
  have hexact := @toNat_expectedLength_eq size (.ofNat offset) (.ofNat length)
  rw [UInt64.toNat_ofNat', UInt64.toNat_ofNat', Nat.mod_eq_of_lt (by omega),
    Nat.mod_eq_of_lt (by omega)] at hexact
  exact (hexact hlength hoffset).trans (if_pos (Nat.le_of_lt h))

/-- A read of something, in numbers that do not wrap. -/
theorem exists_fetches_readAt (server : Server σ) (attempts : Nat) (s : σ) (past : List Exchange) :
    ∃ first last exchanges, first.toNat = offset ∧ last.toNat = min (offset + length) size.toNat - 1 ∧
      readAt server.recorded attempts size offset length (s, past) =
        ((readAt server attempts size offset length s).1,
          ((readAt server attempts size offset length s).2, past ++ exchanges)) ∧
      Fetches attempts first last (min (offset + length) size.toNat - offset) 0 .empty exchanges
        (readAt server attempts size offset length s).1 ∧
      ∀ b, (readAt server attempts size offset length s).1 = .ok b →
        b.size = min (offset + length) size.toNat - offset := by
  have hread : ∀ {τ : Type} (server : Server τ) (t : τ), readAt server attempts size offset length t =
      fetch server attempts (.ofNat offset) (lastByte size (.ofNat offset) (.ofNat length))
        (min (offset + length) size.toNat - offset) 0 .empty t := fun server t => by
    rw [readAt, if_neg (by omega), toNat_expectedLength h hlength hoffset]
  obtain ⟨exchanges, hrun, hfetches⟩ := exists_fetches server attempts (.ofNat offset)
    (lastByte size (.ofNat offset) (.ofNat length)) (min (offset + length) size.toNat - offset) 0 .empty s past
  rw [hread, hread]
  refine ⟨.ofNat offset, _, exchanges, ?_, toNat_lastByte h hlength hoffset, hrun, hfetches,
    size_fetch _ _ _ _ _ _ _ _ (Nat.zero_le _)⟩
  rw [UInt64.toNat_ofNat']
  omega

end Fitting

/-- The exchanges that a read of the bytes from `offset` to `last` makes, both of them included, and what
it comes to. -/
structure IsTranscript (attempts offset last : Nat) (exchanges : List Exchange)
    (result : Except Failure ByteArray) : Prop where
  /-- A request begins after the bytes taken before it. -/
  first_eq : ∀ k x, exchanges[k]? = some x →
    x.first.toNat = offset + (received (last + 1 - offset) (exchanges.take k)).size
  last_eq : ∀ x ∈ exchanges, x.last.toNat = last
  first_le : ∀ x ∈ exchanges, x.first ≤ x.last
  /-- The starts go forward; only a request without a connection is made again. -/
  increasing : exchanges.Pairwise fun x y => x.first ≤ y.first ∧ (¬x.isUnanswered → x.first < y.first)
  ok : ∀ b, result = .ok b → b = received (last + 1 - offset) exchanges ∧ b.size = last + 1 - offset ∧
    ∀ x ∈ exchanges, x.fault? = none
  fault : ∀ k x f, exchanges[k]? = some x → x.fault? = some f →
    exchanges.length = k + 1 ∧ result = .error f
  error : ∀ f, result = .error f → (∃ x ∈ exchanges, x.fault? = some f) ∨
    f = Problem.retriesExceeded.failure ∧ max attempts 1 ≤ exchanges.countP Exchange.isUnanswered
  successes_le : exchanges.countP Exchange.succeeds ≤ last + 1 - offset

theorem Fetches.isTranscript {attempts : Nat} {offset last : UInt64} {expected : Nat}
    {exchanges : List Exchange} {result : Except Failure ByteArray}
    (h : Fetches attempts offset last expected 0 .empty exchanges result)
    (hlast : last.toNat + 1 = offset.toNat + expected)
    (hsize : ∀ b, result = .ok b → b.size = expected) :
    IsTranscript attempts offset.toNat last.toNat exchanges result := by
  have hend := last.toNat_lt
  have hfit : offset.toNat + expected ≤ 2 ^ 64 := by omega
  have hexpected : last.toNat + 1 - offset.toNat = expected := by omega
  constructor
  · intro k x hx
    rw [hexpected]
    exact h.toNat_first hfit hx
  · intro x hx
    obtain ⟨k, hk⟩ := List.mem_iff_getElem?.1 hx
    rw [(h.request hk).2.1]
  · intro x hx
    obtain ⟨k, hk⟩ := List.mem_iff_getElem?.1 hx
    obtain ⟨hmissing, hxlast, -⟩ := h.request hk
    rw [UInt64.le_iff_toNat_le, h.toNat_first hfit hk, hxlast]
    omega
  · exact h.pairwise_first hfit
  · intro b hb
    obtain ⟨heq, hall⟩ := h.ok hb
    rw [hexpected]
    exact ⟨heq, hsize b hb, hall⟩
  · exact fun k x f => h.eq_error_of_fault?
  · intro f hf
    have herror := h.error hf
    rwa [Nat.zero_add] at herror
  · rw [hexpected]
    have hle := h.countP_add_le
    rwa [ByteArray.size_empty, Nat.add_zero, Nat.max_eq_left (Nat.zero_le _)] at hle

/-- A read asks a server for nothing if there is nothing to read, and otherwise for what is still missing
of the bytes up to the last one, until it has them all. Answers that tell of the same bytes as are in memory
make it read what is read from memory, however they split them. -/
theorem readAt_refines_memory (server : Server σ) (attempts : Nat) (size : UInt64) (offset length : Nat)
    (h : offset + length < 2 ^ 64) (s : σ) (past : List Exchange) :
    ∃ exchanges,
      readAt server.recorded attempts size offset length (s, past) =
        ((readAt server attempts size offset length s).1,
          ((readAt server attempts size offset length s).2, past ++ exchanges)) ∧
      (length = 0 ∨ size.toNat ≤ offset →
        exchanges = [] ∧ (readAt server attempts size offset length s).1 = .ok .empty) ∧
      (0 < length → offset < size.toNat →
        IsTranscript attempts offset (min (offset + length) size.toNat - 1) exchanges
          (readAt server attempts size offset length s).1) ∧
      ∀ d : ByteArray, d.size = size.toNat → (∀ x ∈ exchanges, x.Tells d) →
        exchanges.countP Exchange.isUnanswered < max attempts 1 →
        (readAt server attempts size offset length s).1 =
          ((memoryReader Unit d).readAt offset length ()).1 := by
  by_cases hnone : length = 0 ∨ size.toNat ≤ offset
  · rw [readAt_of_nothing hnone, readAt_of_nothing hnone]
    refine ⟨[], by rw [List.append_nil], fun _ => ⟨rfl, rfl⟩, fun hlength hoffset => by omega,
      fun d hd _ _ => congrArg Except.ok ?_⟩
    rw [eq_comm, ← ByteArray.size_eq_zero_iff, size_slice]
    omega
  · obtain ⟨hlength, hoffset⟩ : 0 < length ∧ offset < size.toNat := by omega
    obtain ⟨first, last, exchanges, rfl, hlast, hrun, hfetches, hsize⟩ :=
      exists_fetches_readAt h hlength hoffset server attempts s past
    refine ⟨exchanges, hrun, fun hnone' => absurd hnone' hnone, fun _ _ => ?_, fun d hd htells hmost => ?_⟩
    · rw [← hlast]
      exact hfetches.isTranscript (by omega) hsize
    · cases hresult : (readAt server attempts size first.toNat length s).1 with
      | error f =>
          rcases hfetches.error hresult with ⟨x, hx, hfault⟩ | ⟨-, hgiven⟩
          · rw [(htells x hx).fault?_eq_none] at hfault
            cases hfault
          · omega
      | ok b =>
          have hslice := hfetches.foldl_eq_slice (by omega) (by omega) (by simp) htells
          have hwhole := slice_size_slice d first.toNat length
          rw [← (hfetches.ok hresult).1, hsize b hresult] at hslice
          rw [size_slice, show min length (d.size - first.toNat) =
            min (first.toNat + length) size.toNat - first.toNat by omega] at hwhole
          rw [hslice, hwhole]
          rfl

/-- First fewer bytes than were asked for, then more, of which the last is not one of the data. -/
def unevenScript : Script where
  head := ⟨200, some "bytes", some 5⟩
  gets := [⟨206, ⟨#[11]⟩⟩, ⟨206, ⟨#[12, 13, 14, 99]⟩⟩]
  data := ⟨#[10, 11, 12, 13, 14]⟩
  maxChunk := none
  closeAfter := none

theorem readAt_unevenScript :
    1 + 10 < 2 ^ 64 ∧ ∃ exchanges,
      (readAt unevenScript.server.recorded 1 5 1 10 (unevenScript.start, [])).2.2 = exchanges ∧
      exchanges.map (fun x => (x.first, x.last)) = [(1, 4), (2, 4)] ∧
      IsTranscript 1 1 4 exchanges (readAt unevenScript.server 1 5 1 10 unevenScript.start).1 ∧
      (readAt unevenScript.server 1 5 1 10 unevenScript.start).1 = .ok (slice unevenScript.data 1 10) := by
  have hrun : (readAt unevenScript.server.recorded 1 5 1 10 (unevenScript.start, [])).2.2 =
      [⟨1, 4, .ok ⟨206, ⟨#[11]⟩⟩⟩, ⟨2, 4, .ok ⟨206, ⟨#[12, 13, 14, 99]⟩⟩⟩] := by
    rw [readAt, if_neg (by decide), fetch_of_isPartial (by decide) (recorded_get rfl []) (by decide),
      fetch_of_isPartial (by decide) (recorded_get rfl _) (by decide), fetch_of_le (by decide)]
    rfl
  obtain ⟨exchanges, heq, -, htranscript, hmemory⟩ :=
    readAt_refines_memory unevenScript.server 1 5 1 10 (by decide) unevenScript.start []
  have hexchanges : [⟨1, 4, .ok ⟨206, ⟨#[11]⟩⟩⟩, ⟨2, 4, .ok ⟨206, ⟨#[12, 13, 14, 99]⟩⟩⟩] = exchanges := by
    rw [← hrun, heq]
    rfl
  refine ⟨by decide, exchanges, by rw [hrun, hexchanges], by rw [← hexchanges]; rfl,
    htranscript (by decide) (by decide), hmemory unevenScript.data rfl ?_ (by rw [← hexchanges]; decide)⟩
  rw [← hexchanges]
  refine List.forall_mem_cons.2 ⟨.inr ⟨_, rfl, by decide, by decide⟩,
    List.forall_mem_cons.2 ⟨.inr ⟨_, rfl, by decide, by decide⟩, fun x hx => absurd hx List.not_mem_nil⟩⟩

end DexArchive.Http
