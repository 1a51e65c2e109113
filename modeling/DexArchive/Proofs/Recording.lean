import DexArchive.Source
import DexArchive.Proofs.Zip.Opening

/-! Sources that write down the calls on them. A recorded source does what the source does; besides that its
state holds the calls made so far, each with the failure that it came to. A computation is accounted for if
with a recorded source it does the same, and the calls that it adds show how its failure came about: a
failure that is not passed over is that of the last call, and it is what the computation fails with. -/

namespace DexArchive

/-- What is read: records of an archive, or the content of an entry. -/
inductive Purpose where
  | records
  | content
  deriving DecidableEq, Repr

/-- A call on a source, with the failure that it came to, if it did not go well. -/
inductive Call where
  | acquire (failure : Option Failure)
  | read (purpose : Purpose) (offset length : Nat) (failure : Option Failure)
  deriving DecidableEq, Repr

namespace Call

/-- The failure of a call, unless it may be passed over: content is read again after an interruption. -/
def fault? : Call → Option Failure
  | acquire failure | read .records _ _ failure => failure
  | read .content _ _ failure => failure.filter fun f => ¬ f.toIoError.IsInterruption

/-- The call asks for nothing beyond the first `size` bytes. -/
def Within (size : Nat) : Call → Prop
  | acquire _ => True
  | read _ offset length _ => offset + length ≤ size

/-- The call asks for nothing before `start` and for nothing from `stop` on. -/
def Inside (start stop : Nat) : Call → Prop
  | acquire _ => True
  | read _ offset length _ => start ≤ offset ∧ offset + length ≤ stop

/-- The call does not come to an interruption that ends the work. -/
def IsSteadfast (call : Call) : Prop := ∀ f, call.fault? = some f → ¬ f.toIoError.IsInterruption

theorem isSteadfast_content (offset length : Nat) (failure : Option Failure) :
    (read .content offset length failure).IsSteadfast := by
  intro f hf
  obtain ⟨-, hf⟩ := Option.filter_eq_some_iff.1 hf
  exact of_decide_eq_true hf

theorem failure_of_fault?_read {purpose : Purpose} {offset length : Nat} {failure : Option Failure}
    {f : Failure} (h : (read purpose offset length failure).fault? = some f) : failure = some f := by
  cases purpose with
  | records => exact h
  | content => exact (Option.filter_eq_some_iff.1 h).1

theorem Within.mono {call : Call} {size size' : Nat} (h : call.Within size) (hle : size ≤ size') :
    call.Within size' := by
  cases call with
  | acquire failure => trivial
  | read purpose offset length failure => exact Nat.le_trans h hle

end Call

/-- The failure in a result. -/
def failureIn? {α : Type} : Except Failure α → Option Failure
  | .ok _ => none
  | .error f => some f

/-- The state of a recorded source: that of the source, what is being read, and the calls so far. -/
structure Recorded (σ : Type) where
  state : σ
  purpose : Purpose
  calls : List Call

/-- A state of the source with the calls so far. -/
def Recorded.during {σ : Type} (purpose : Purpose) (s : σ) (calls : List Call) : Recorded σ :=
  ⟨s, purpose, calls⟩

variable {ε ε' σ τ τ' α β : Type}

def Reader.recorded (r : Reader σ) : Reader (Recorded σ) where
  size := r.size
  readAt offset length s :=
    match r.readAt offset length s.state with
    | (result, state) =>
      (result, ⟨state, s.purpose, s.calls ++ [.read s.purpose offset length (failureIn? result)]⟩)
  interruptions s := r.interruptions s.state
  size_readAt_le offset length s := r.size_readAt_le offset length s.state
  interruptions_readAt offset length s := r.interruptions_readAt offset length s.state

theorem Reader.size_recorded (r : Reader σ) : r.recorded.size = r.size := rfl

def Source.recorded (source : Source σ) : Source (Recorded σ) where
  location := source.location
  acquire s :=
    match source.acquire s.state with
    | (result, state) =>
      (result.map Reader.recorded, ⟨state, s.purpose, s.calls ++ [.acquire (failureIn? result)]⟩)
  release s := { s with state := source.release s.state }

namespace Action

/-- What is asked of a computation: what a failure becomes in its errors, and what holds of each call and
of each error. -/
structure Terms (ε : Type) where
  cause : Failure → ε
  call : Call → Prop
  error : ε → Prop

/-- The calls account for the result: only the last can be at fault, and then the result is its failure. -/
structure Accounts (terms : Terms ε) (post : α → Prop) (calls : List Call) (result : Except ε α) : Prop where
  heeds : ∀ before call after f, calls = before ++ call :: after → call.fault? = some f →
    after = [] ∧ result = .error (terms.cause f)
  call : ∀ call ∈ calls, terms.call call
  error : ∀ e, result = .error e → terms.error e
  ok : ∀ a, result = .ok a → post a

namespace Accounts

variable {terms : Terms ε} {terms' : Terms ε'} {post : α → Prop} {post' : β → Prop} {calls calls' : List Call}
  {result : Except ε α}

theorem of_ok {a : α} (h : post a) : Accounts terms post [] (.ok a) where
  heeds before call after f hcalls := absurd hcalls (by simp)
  call _ hmem := absurd hmem List.not_mem_nil
  error _ he := by cases he
  ok a' ha := by
    cases ha
    exact h

theorem of_error {e : ε} (h : terms.error e) : Accounts terms post [] (.error e) where
  heeds before call after f hcalls := absurd hcalls (by simp)
  call _ hmem := absurd hmem List.not_mem_nil
  error e' he := by
    cases he
    exact h
  ok _ ha := by cases ha

theorem of_call {call : Call} (hfault : ∀ f, call.fault? = some f → result = .error (terms.cause f))
    (hcall : terms.call call) (herror : ∀ e, result = .error e → terms.error e)
    (hok : ∀ a, result = .ok a → post a) : Accounts terms post [call] result where
  heeds before call' after f hcalls hf := by
    cases before with
    | nil =>
        obtain ⟨rfl, rfl⟩ := List.cons.inj hcalls
        exact ⟨rfl, hfault f hf⟩
    | cons head before => simp at hcalls
  call call' hmem := by
    rw [List.mem_singleton.1 hmem]
    exact hcall
  error := herror
  ok := hok

theorem eq_error_of_mem (h : Accounts terms post calls result) {call : Call} (hmem : call ∈ calls)
    {f : Failure} (hf : call.fault? = some f) : result = .error (terms.cause f) := by
  obtain ⟨before, after, hcalls⟩ := List.append_of_mem hmem
  exact (h.heeds before call after f hcalls hf).2

/-- A result that is not the failure of a call has no call at fault. -/
theorem fault?_eq_none_of_ne (h : Accounts terms post calls result)
    (hne : ∀ call ∈ calls, ∀ f, call.fault? = some f → result ≠ .error (terms.cause f)) :
    ∀ call ∈ calls, call.fault? = none := fun call hmem =>
  Option.eq_none_iff_forall_ne_some.2 fun f hf => hne call hmem f hf (h.eq_error_of_mem hmem hf)

theorem fault?_eq_none {a : α} (h : Accounts terms post calls (.ok a)) :
    ∀ call ∈ calls, call.fault? = none :=
  h.fault?_eq_none_of_ne fun _ _ _ _ heq => by cases heq

/-- Calls that are not at fault may come before. -/
theorem append (hfault : ∀ call ∈ calls, call.fault? = none) (hcall : ∀ call ∈ calls, terms.call call)
    (h : Accounts terms post calls' result) : Accounts terms post (calls ++ calls') result where
  heeds before call after f hcalls hf := by
    rcases List.append_eq_append_iff.1 hcalls with ⟨mid, -, hmid⟩ | ⟨mid, hmid, hrest⟩
    · exact h.heeds mid call after f hmid hf
    · cases mid with
      | nil => exact h.heeds [] call after f hrest.symm hf
      | cons head mid =>
          obtain ⟨rfl, -⟩ := List.cons.inj hrest
          rw [hfault call (by simp [hmid])] at hf
          cases hf
  call call hmem := (List.mem_append.1 hmem).elim (hcall call) (h.call call)
  error := h.error
  ok := h.ok

/-- The same calls account for another result, if a fault becomes the error that it must be there. -/
theorem map_result {result' : Except ε' β} (h : Accounts terms post calls result)
    (hcause : ∀ f, result = .error (terms.cause f) → result' = .error (terms'.cause f))
    (hcall : ∀ call, terms.call call → terms'.call call) (herror : ∀ e, result' = .error e → terms'.error e)
    (hok : ∀ b, result' = .ok b → post' b) : Accounts terms' post' calls result' where
  heeds before call after f hcalls hf :=
    ⟨(h.heeds before call after f hcalls hf).1, hcause f (h.heeds before call after f hcalls hf).2⟩
  call call hmem := hcall call (h.call call hmem)
  error := herror
  ok := hok

theorem to_ok {a : α} {b : β} (h : Accounts terms post calls (.ok a))
    (hcall : ∀ call, terms.call call → terms'.call call) (hok : post a → post' b) :
    Accounts terms' post' calls (.ok b) := by
  refine h.map_result (fun _ hf => ?_) hcall (fun _ he => ?_) fun b' hb => ?_
  · cases hf
  · cases he
  · rw [← Except.ok.inj hb]
    exact hok (h.ok a rfl)

theorem to_error {e : ε} {e' : ε'} (h : Accounts terms post calls (.error e))
    (hcause : ∀ f, e = terms.cause f → e' = terms'.cause f)
    (hcall : ∀ call, terms.call call → terms'.call call) (herror : terms.error e → terms'.error e') :
    Accounts terms' post' calls (.error e') := by
  refine h.map_result (fun f hf => ?_) hcall (fun e₁ he => ?_) fun _ hb => ?_
  · rw [hcause f (Except.error.inj hf)]
  · rw [← Except.error.inj he]
    exact herror (h.error e rfl)
  · cases hb

/-- The same error as before, in a result of another sort. -/
theorem retype {e : ε} (h : Accounts terms post calls (.error e)) :
    Accounts terms post' calls (.error e : Except ε β) :=
  h.to_error (fun _ => id) (fun _ => id) id

end Accounts

/-- The outcome `y` is `x` with calls noted after those of before, which account for it. -/
def NotedIn (note : τ → List Call → τ') (terms : Terms ε) (post : α → Prop) (calls : List Call)
    (x : Except ε α × τ) (y : Except ε α × τ') : Prop :=
  ∃ new, y = (x.1, note x.2 (calls ++ new)) ∧ Accounts terms post new x.1

/-- The computation `q` does what `p` does and notes the calls. -/
def Notes (note : τ → List Call → τ') (terms : Terms ε) (post : α → Prop) (p : Action ε τ α)
    (q : Action ε τ' α) : Prop :=
  ∀ t calls, NotedIn note terms post calls (p t) (q (note t calls))

section Noted

variable {note : τ → List Call → τ'} {terms : Terms ε} {post : α → Prop} {post' : β → Prop}
  {calls : List Call}

theorem Notes.exists_eq {p : Action ε τ α} {q : Action ε τ' α} (h : Notes note terms post p q) {t t' : τ}
    {result : Except ε α} (hp : p t = (result, t')) (calls : List Call) :
    ∃ new, q (note t calls) = (result, note t' (calls ++ new)) ∧ Accounts terms post new result := by
  obtain ⟨new, hq, haccounts⟩ := h t calls
  rw [hp] at hq haccounts
  exact ⟨new, hq, haccounts⟩

theorem NotedIn.of_ok {a : α} (h : post a) (t : τ) :
    NotedIn note terms post calls (.ok a, t) (.ok a, note t calls) :=
  ⟨[], by rw [List.append_nil], .of_ok h⟩

theorem NotedIn.of_error {e : ε} (h : terms.error e) (t : τ) :
    NotedIn note terms post calls (.error e, t) (.error e, note t calls) :=
  ⟨[], by rw [List.append_nil], .of_error h⟩

/-- Calls that are not at fault belong to what is noted in all. -/
theorem NotedIn.append {x : Except ε β × τ} {y : Except ε β × τ'} {new : List Call}
    (hfault : ∀ call ∈ new, call.fault? = none) (hcall : ∀ call ∈ new, terms.call call)
    (hrest : NotedIn note terms post' (calls ++ new) x y) : NotedIn note terms post' calls x y := by
  obtain ⟨rest, hy, hrest⟩ := hrest
  exact ⟨new ++ rest, by rw [hy, List.append_assoc], hrest.append hfault hcall⟩

theorem NotedIn.after {x : Except ε β × τ} {y : Except ε β × τ'} {new : List Call} {a : α}
    (h : Accounts terms post new (.ok a)) (hrest : NotedIn note terms post' (calls ++ new) x y) :
    NotedIn note terms post' calls x y :=
  hrest.append h.fault?_eq_none h.call

theorem NotedIn.bind {p : Action ε τ α} {q : Action ε τ' α} {f : α → Action ε τ β} {g : α → Action ε τ' β}
    {t : τ} (h : NotedIn note terms post calls (p t) (q (note t calls)))
    (hrest : ∀ a t₁ calls₁, p t = (.ok a, t₁) → post a →
      NotedIn note terms post' calls₁ (f a t₁) (g a (note t₁ calls₁))) :
    NotedIn note terms post' calls ((p >>= f) t) ((q >>= g) (note t calls)) := by
  cases hp : p t with
  | mk result t₁ =>
      rw [hp] at h
      cases result with
      | error e =>
          obtain ⟨new, hq, haccounts⟩ := h
          rw [bind_error hp, bind_error hq]
          exact ⟨new, rfl, haccounts.retype⟩
      | ok a =>
          obtain ⟨new, hq, haccounts⟩ := h
          rw [bind_ok hp, bind_ok hq]
          exact .after haccounts (hrest a t₁ (calls ++ new) hp (haccounts.ok a rfl))

theorem Notes.pure {a : α} (h : post a) :
    Notes note terms post (Pure.pure a : Action ε τ α) (Pure.pure a : Action ε τ' α) :=
  fun t _ => .of_ok h t

theorem Notes.throw {e : ε} (h : terms.error e) :
    Notes note terms post (throw e : Action ε τ α) (throw e : Action ε τ' α) :=
  fun t _ => .of_error h t

theorem Notes.bind {p : Action ε τ α} {q : Action ε τ' α} {f : α → Action ε τ β} {g : α → Action ε τ' β}
    (h : Notes note terms post p q) (hrest : ∀ a, post a → Notes note terms post' (f a) (g a)) :
    Notes note terms post' (p >>= f) (q >>= g) :=
  fun t calls => (h t calls).bind fun a t₁ calls₁ _ ha => hrest a ha t₁ calls₁

theorem Notes.mapError {terms' : Terms ε'} {f : ε → ε'} {p : Action ε τ α} {q : Action ε τ' α}
    (h : Notes note terms post p q) (hcause : ∀ x, f (terms.cause x) = terms'.cause x)
    (hcall : ∀ call, terms.call call → terms'.call call) (herror : ∀ e, terms.error e → terms'.error (f e)) :
    Notes note terms' post (p.mapError f) (q.mapError f) := by
  intro t calls
  cases hp : p t with
  | mk result t₁ =>
      obtain ⟨new, hq, haccounts⟩ := h.exists_eq hp calls
      cases result with
      | error e =>
          rw [mapError_error hp, mapError_error hq]
          exact ⟨new, rfl, haccounts.to_error (fun x hx => by rw [hx, hcause]) hcall (herror e)⟩
      | ok a =>
          rw [mapError_ok hp, mapError_ok hq]
          exact ⟨new, rfl, haccounts.to_ok hcall id⟩

/-- Less may be asked. -/
theorem Notes.mono {terms' : Terms ε} {post' : α → Prop} {p : Action ε τ α} {q : Action ε τ' α}
    (h : Notes note terms post p q) (hcause : terms'.cause = terms.cause)
    (hcall : ∀ call, terms.call call → terms'.call call)
    (herror : ∀ t e, (p t).1 = .error e → terms.error e → terms'.error e) (hok : ∀ a, post a → post' a) :
    Notes note terms' post' p q := by
  intro t calls
  obtain ⟨new, hq, haccounts⟩ := h t calls
  exact ⟨new, hq, haccounts.map_result (fun f hf => by rw [hf, hcause]) hcall
    (fun e he => herror t e he (haccounts.error e he)) fun a ha => hok a (haccounts.ok a ha)⟩

end Noted

end Action

/-! ### Reads -/

namespace Reader

open DexArchive.Action

theorem failureIn?_eq_some {result : Except Failure α} {f : Failure} (h : failureIn? result = some f) :
    result = .error f := by
  cases result with
  | error f' => rw [Option.some.inj h]
  | ok a => cases h

theorem notes_readAt (r : Reader σ) {terms : Terms Failure} {purpose : Purpose} {offset length : Nat}
    (hcause : ∀ f, terms.cause f = f) (hcall : ∀ failure, terms.call (.read purpose offset length failure))
    (herror : ∀ f, terms.error f) :
    Notes (Recorded.during purpose) terms (fun b => b.size ≤ length) (r.readAt offset length)
      (r.recorded.readAt offset length) := by
  intro s calls
  refine ⟨[.read purpose offset length (failureIn? (r.readAt offset length s).1)], rfl,
    .of_call (fun f hf => ?_) (hcall _) (fun f _ => herror f) (r.size_readAt_le offset length s)⟩
  rw [hcause]
  exact failureIn?_eq_some (Call.failure_of_fault?_read hf)

theorem notes_readRest (r : Reader σ) (offset length : Nat) {got : ByteArray} (hgot : got.size ≤ length) :
    Notes (Recorded.during .records) ⟨id, Call.Within (offset + length), fun _ => True⟩
      (fun b => b.size = length) (r.readRest offset length got) (r.recorded.readRest offset length got) := by
  induction hn : length - got.size using Nat.strongRecOn generalizing got with
  | ind n ih =>
      unfold readRest
      by_cases hdone : length ≤ got.size
      · rw [if_pos hdone, if_pos hdone]
        exact .pure (Nat.le_antisymm hgot hdone)
      · rw [if_neg hdone, if_neg hdone]
        have hwithin : offset + got.size + (length - got.size) ≤ offset + length := by omega
        refine (r.notes_readAt (fun _ => rfl) (fun _ => hwithin) fun _ => trivial).bind fun b hb => ?_
        have happend := ByteArray.size_append (a := got) (b := b)
        by_cases hend : b.size = 0
        · rw [if_pos hend, if_pos hend]
          exact .throw trivial
        · rw [if_neg hend, if_neg hend]
          exact ih (length - (got ++ b).size) (by omega) (by omega) rfl

theorem notes_readExact (r : Reader σ) (offset length : Nat) :
    Notes (Recorded.during .records) ⟨id, Call.Within (offset + length), fun _ => True⟩
      (fun b => b.size = length) (r.readExact offset length) (r.recorded.readExact offset length) :=
  r.notes_readRest offset length (Nat.zero_le length)

end Reader

end DexArchive
