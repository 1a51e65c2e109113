import DexArchive.Dex.Sniff
import DexArchive.Proofs.Recording
import DexArchive.Proofs.Streaming
import DexArchive.Proofs.Deflate.Steady

/-! Reading content from a recorded source. Interruptions are passed over, since the read is made again; any
other failure of a read ends the reading at once, through the decompression and through the loops that
read up to a length or to the end. -/

namespace DexArchive

open DexArchive.Action

variable {σ τ τ' α : Type} {reader : Reader σ}

/-- A state beside that of a source, while content is read. -/
abbrev Recorded.beside (t : τ × σ) (calls : List Call) : τ × Recorded σ := (t.1, .during .content t.2 calls)

theorem Recorded.beside_mk (x : τ) (s : σ) (calls : List Call) :
    beside (x, s) calls = (x, .during .content s calls) := rfl

/-- What is asked of reading content. -/
def streaming : Terms IoError := ⟨Failure.toIoError, Call.IsSteadfast, fun _ => True⟩

theorem Range.notes_read (reader : Reader σ) (length : Nat) :
    Notes Recorded.beside streaming (fun _ => True) (Range.read reader length)
      (Range.read reader.recorded length) := by
  rintro ⟨r, s⟩ calls
  rw [Recorded.beside_mk]
  simp only [read]
  by_cases hnone : min length r.remaining = 0
  · rw [if_pos hnone, if_pos hnone]
    exact .of_ok trivial (r, s)
  · rw [if_neg hnone, if_neg hnone]
    have hread : Notes (Recorded.during .content) ⟨id, Call.IsSteadfast, fun _ => True⟩ _
        (reader.readAt r.pos (min length r.remaining)) _ :=
      reader.notes_readAt (fun _ => rfl) (Call.isSteadfast_content _ _) fun _ => trivial
    cases hresult : reader.readAt r.pos (min length r.remaining) s with
    | mk result s' =>
        obtain ⟨new, hrecorded, haccounts⟩ := hread.exists_eq hresult calls
        rw [hrecorded]
        cases result with
        | error f =>
            exact ⟨new, rfl, haccounts.to_error (fun _ => congrArg Failure.toIoError) (fun _ => id) id⟩
        | ok b =>
            have haccounts : Accounts streaming (fun _ => True) new (.ok b) :=
              haccounts.to_ok (fun _ => id) fun _ => trivial
            simp only
            by_cases hb : b.size = 0
            · rw [if_pos hb, if_pos hb]
              exact .after haccounts (.of_error trivial (r, s'))
            · rw [if_neg hb, if_neg hb]
              exact .after haccounts (.of_ok trivial (_, s'))

/-! ### Decompression -/

namespace Deflate.Inflating

theorem notes_refill (reader : Reader σ) :
    Notes Recorded.beside streaming (fun _ => True) (refill reader) (refill reader.recorded) := by
  rintro ⟨z, s⟩ calls
  cases hread : Range.read reader chunk (z.range, s) with
  | mk result t =>
      obtain ⟨new, hrecorded, haccounts⟩ := (Range.notes_read reader chunk).exists_eq hread calls
      simp only [refill, hread, hrecorded]
      cases result with
      | error e => exact ⟨new, rfl, haccounts.retype⟩
      | ok b => exact .after haccounts (.of_ok trivial (_, t.2))

theorem notes_supply (reader : Reader σ) :
    Notes Recorded.beside streaming (fun _ => True) (supply reader) (supply reader.recorded) := by
  rintro ⟨z, s⟩ calls
  rw [Recorded.beside_mk]
  by_cases hunused : z.unused = 0
  · rw [supply_of_eq_zero hunused, supply_of_eq_zero hunused]
    exact notes_refill reader (z, s) calls
  · rw [supply_of_ne_zero hunused, supply_of_ne_zero hunused]
    exact .of_ok trivial (z, s)

theorem notes_fail (f : Failure) :
    Notes Recorded.beside streaming (fun _ => True) (fail f : Action IoError (Inflating × σ) Unit)
      (fail f) := by
  intro t calls
  refine ⟨[], ?_, .of_error trivial⟩
  rw [List.append_nil]
  rfl

theorem notes_deliver (length : Nat) :
    Notes Recorded.beside streaming (fun _ => True)
      (deliver length : Action IoError (Inflating × σ) ByteArray) (deliver length) := by
  intro t calls
  refine ⟨[], ?_, .of_ok trivial⟩
  rw [List.append_nil]
  rfl

theorem notes_decompress (reader : Reader σ) (length : Nat) :
    Notes Recorded.beside streaming (fun _ => True) (decompress reader length)
      (decompress reader.recorded length) := by
  intro t calls
  fun_induction decompress reader length t generalizing calls with
  | case1 t atEnd z hz =>
      rw [decompress_of_done (t := Recorded.beside t calls) hz (.inl rfl)]
      exact .of_ok trivial (z, t.2)
  | case2 t atEnd z hz =>
      rw [decompress_of_done (t := Recorded.beside t calls) hz (.inr rfl)]
      exact .of_ok trivial (z, t.2)
  | case3 t atEnd z hz =>
      rw [decompress_of_corrupt (t := Recorded.beside t calls) hz]
      exact notes_fail .corrupt (z, t.2) calls
  | case4 t atEnd z hz hready =>
      rw [decompress_of_starved (t := Recorded.beside t calls) hz, if_pos hready]
      simp only [atEnd, decide_eq_true_eq]
      exact ⟨[], by rw [List.append_nil], .of_ok trivial⟩
  | case5 t atEnd z hz hready e t' href =>
      obtain ⟨new, hrecorded, haccounts⟩ := (notes_refill reader).exists_eq href calls
      rw [decompress_of_starved (t := Recorded.beside t calls) hz, if_neg hready, hrecorded]
      exact ⟨new, rfl, haccounts.retype⟩
  | case6 t atEnd z hz hready t' href =>
      obtain ⟨new, hrecorded, haccounts⟩ := (notes_refill reader).exists_eq href calls
      rw [decompress_of_starved (t := Recorded.beside t calls) hz, if_neg hready, hrecorded]
      exact .after haccounts (notes_fail .incomplete t' (calls ++ new))
  | case7 t atEnd z hz hready n t' href hn ih =>
      obtain ⟨new, hrecorded, haccounts⟩ := (notes_refill reader).exists_eq href calls
      rw [decompress_of_starved (t := Recorded.beside t calls) hz, if_neg hready, hrecorded]
      simp only [if_neg hn]
      exact .after haccounts (ih (calls ++ new))

theorem notes_prepare (reader : Reader σ) (length : Nat) :
    Notes Recorded.beside streaming (fun _ => True) (prepare reader length)
      (prepare reader.recorded length) := by
  rintro ⟨z, s⟩ calls
  rw [Recorded.beside_mk]
  unfold prepare
  simp only
  cases z.failure with
  | some f => exact .of_error trivial (z, s)
  | none =>
      by_cases hready : z.ready = 0
      · simp only [if_pos hready]
        exact notes_decompress reader length (z, s) calls
      · simp only [if_neg hready]
        exact .of_ok trivial (z, s)

theorem notes_read (reader : Reader σ) (length : Nat) :
    Notes Recorded.beside streaming (fun _ => True) (read reader length) (read reader.recorded length) :=
  (notes_supply reader).bind fun _ _ => (notes_prepare reader length).bind fun _ _ => notes_deliver length

end Deflate.Inflating

theorem Zip.Content.notes_read (reader : Reader σ) (length : Nat) :
    Notes Recorded.beside streaming (fun _ => True) ((stream reader).read length)
      ((stream reader.recorded).read length) := by
  rintro ⟨c, s⟩ calls
  cases c with
  | stored range =>
      obtain ⟨new, hrecorded, haccounts⟩ := Range.notes_read reader length (range, s) calls
      rw [Recorded.beside_mk] at hrecorded ⊢
      simp only [stream, read, hrecorded]
      exact ⟨new, rfl, haccounts⟩
  | deflate inflating =>
      obtain ⟨new, hrecorded, haccounts⟩ := Deflate.Inflating.notes_read reader length (inflating, s) calls
      rw [Recorded.beside_mk] at hrecorded ⊢
      simp only [stream, read, hrecorded]
      exact ⟨new, rfl, haccounts⟩

/-! ### Loops over a stream -/

namespace Stream

variable {st : Stream τ} {st' : Stream τ'} {note : τ → List Call → τ'}

/-- An interruption has no call at fault before it. -/
theorem fault?_eq_none_of_isInterruption {post : α → Prop} {calls : List Call} {e : IoError}
    (h : Accounts streaming post calls (.error e)) (he : e.IsInterruption) :
    ∀ call ∈ calls, call.fault? = none := by
  refine h.fault?_eq_none_of_ne fun call hmem f hf heq => ?_
  rw [Except.error.inj heq] at he
  exact h.call call hmem f hf he

variable (h : ∀ length, Notes note streaming (fun _ => True) (st.read length) (st'.read length))

include h

theorem notes_readThrough (length : Nat) :
    Notes note streaming (fun _ => True) (st.readThrough length) (st'.readThrough length) := by
  intro t calls
  fun_induction st.readThrough length t generalizing calls with
  | case1 t b t' hread =>
      obtain ⟨new, hrecorded, haccounts⟩ := (h length).exists_eq hread calls
      rw [readThrough_of_ok hrecorded]
      exact ⟨new, rfl, haccounts⟩
  | case2 t e t' hread he ih =>
      obtain ⟨new, hrecorded, haccounts⟩ := (h length).exists_eq hread calls
      rw [readThrough_of_isInterruption hrecorded he]
      -- The calls of the interrupted read are not at fault, so those of the next one may come after them.
      exact .append (fault?_eq_none_of_isInterruption haccounts he) haccounts.call (ih (calls ++ new))
  | case3 t e t' hread he =>
      obtain ⟨new, hrecorded, haccounts⟩ := (h length).exists_eq hread calls
      rw [readThrough_of_error hrecorded he]
      exact ⟨new, rfl, haccounts.retype⟩

theorem notes_readMore (length : Nat) (got : ByteArray) {rest : ByteArray → Action IoError τ ByteArray}
    {rest' : ByteArray → Action IoError τ' ByteArray}
    (hrest : ∀ b, b.size ≠ 0 → Notes note streaming (fun _ => True) (rest b) (rest' b)) :
    Notes note streaming (fun _ => True) (st.readMore length got rest) (st'.readMore length got rest') := by
  refine (notes_readThrough h length).bind fun b _ => ?_
  by_cases hb : b.size = 0
  · rw [if_pos hb, if_pos hb]
    exact .pure trivial
  · rw [if_neg hb, if_neg hb]
    exact hrest b hb

theorem notes_fillFrom (n : Nat) (got : ByteArray) :
    Notes note streaming (fun _ => True) (st.fillFrom n got) (st'.fillFrom n got) :=
  lift_fillFrom (fun _ => .pure trivial) (fun length got _ _ => notes_readMore h length got) n got

theorem notes_readRest (limit : Nat) (g : Growth) (got : ByteArray) :
    Notes note streaming (fun _ => True) (st.readRest limit g got) (st'.readRest limit g got) :=
  lift_readRest (fun _ => .pure trivial) (fun length got _ _ => notes_readMore h length got) limit g got

theorem notes_readToEnd (length limit : Nat) :
    Notes note streaming (fun _ => True) (st.readToEnd length limit) (st'.readToEnd length limit) :=
  notes_readRest h limit (.forLength length) .empty

theorem notes_sniff : Notes note streaming (fun _ => True) (Dex.sniff st) (Dex.sniff st') :=
  (notes_fillFrom h Dex.sniffLength .empty).bind fun _ _ => .pure trivial

end Stream

end DexArchive
