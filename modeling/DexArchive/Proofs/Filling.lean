import DexArchive.Proofs.Recording
import DexArchive.Proofs.Zip.Resuming

/-! Exact reads, call by call. Each call asks for all that is missing, from where the bytes that are there end. An
exact read is over when nothing is missing, when the source has no more bytes, or with the first call that fails; so
what it comes to does not depend on the pieces that the bytes came in, and it makes no more calls than there are
bytes to read. -/

namespace DexArchive.Reader

open DexArchive.Action

variable {σ : Type} {r : Reader σ} {d : ByteArray} {offset length got : Nat} {calls : List Call}
  {result : Except Failure ByteArray}

/-- The call that is made when there are the first `got` bytes. -/
def restCall (offset length got : Nat) (failure : Option Failure) : Call :=
  .read .records (offset + got) (length - got) failure

/-- How reading `length` bytes of `d` goes on when there are the first `got` bytes: the calls that are made, and what it
comes to. -/
inductive Fills (d : ByteArray) (offset length : Nat) : Nat → List Call → Except Failure ByteArray → Prop
  | done : Fills d offset length length [] (.ok (slice d offset length))
  | piece {got n : Nat} {calls : List Call} {result : Except Failure ByteArray} (hlt : got < length) (hn : 0 < n)
    (hle : got + n ≤ length) (hend : offset + (got + n) ≤ d.size)
    (rest : Fills d offset length (got + n) calls result) :
    Fills d offset length got (restCall offset length got none :: calls) result
  | cutOff {got : Nat} (hlt : got < length) (hend : d.size ≤ offset + got) :
    Fills d offset length got [restCall offset length got none] (.error (.io (.shortRead offset length got)))
  | fails {got : Nat} (hlt : got < length) (f : Failure) :
    Fills d offset length got [restCall offset length got (some f)] (.error f)

/-- Reading goes on in one of these ways, and the calls are the ones that are written down. -/
theorem exists_fills (h : r.IsTruthful d) {bytes : ByteArray} (hbytes : bytes = slice d offset bytes.size)
    (hle : bytes.size ≤ length) (s : σ) (calls : List Call) :
    ∃ result s' new, r.readRest offset length bytes s = (result, s') ∧
      r.recorded.readRest offset length bytes (.during .records s calls) =
        (result, .during .records s' (calls ++ new)) ∧
      Fills d offset length bytes.size new result := by
  induction hrest : length - bytes.size using Nat.strongRecOn generalizing bytes s calls with
  | ind m ih =>
      unfold readRest
      by_cases hdone : length ≤ bytes.size
      · have hlength : bytes.size = length := Nat.le_antisymm hle hdone
        rw [if_pos hdone, if_pos hdone]
        refine ⟨.ok bytes, s, [], rfl, ?_, ?_⟩
        · rw [List.append_nil]
          rfl
        · rw [hlength] at hbytes ⊢
          rw [hbytes]
          exact .done
      · have hlt := Nat.lt_of_not_le hdone
        rw [if_neg hdone, if_neg hdone]
        cases hread : r.readAt (offset + bytes.size) (length - bytes.size) s with
        | mk result s' =>
            have hrecorded : r.recorded.readAt (offset + bytes.size) (length - bytes.size) (.during .records s calls) =
                (result, .during .records s' (calls ++ [restCall offset length bytes.size (failureIn? result)])) := by
              simp only [recorded, Recorded.during, hread]
              rfl
            cases result with
            | error f =>
                rw [bind_error hread, bind_error hrecorded]
                exact ⟨_, _, _, rfl, rfl, .fails hlt f⟩
            | ok b =>
                have hpiece := h _ _ _ _ _ hread
                rw [bind_ok hread, bind_ok hrecorded]
                by_cases hend : b.size = 0
                · rw [if_pos hend, if_pos hend]
                  have hstops := (hpiece.stops hend).resolve_left (by omega)
                  exact ⟨_, _, _, rfl, rfl, .cutOff hlt hstops⟩
                · have happend := ByteArray.size_append (a := bytes) (b := b)
                  have hwithin := hpiece.add_size_le hend
                  have hsize := hpiece.size_le
                  have hslice : bytes ++ b = slice d offset (bytes ++ b).size := by
                    rw [happend, ← slice_append_slice, ← hbytes, ← hpiece.eq_slice]
                  rw [if_neg hend, if_neg hend]
                  obtain ⟨result, s'', new, hplain, hnoted, hfills⟩ :=
                    ih (length - (bytes ++ b).size) (by omega) hslice (by omega) s'
                      (calls ++ [restCall offset length bytes.size none]) rfl
                  rw [happend] at hfills
                  refine ⟨result, s'', _, hplain, ?_, .piece hlt (by omega) (by omega) (by omega) hfills⟩
                  rw [List.append_assoc] at hnoted
                  exact hnoted

namespace Fills

/-- Each call leaves less to read for those after it. -/
theorem length_le (h : Fills d offset length got calls result) : got + calls.length ≤ length := by
  induction h with
  | done => exact Nat.le_refl length
  | piece hlt hn hle hend rest ih =>
      rw [List.length_cons]
      omega
  | cutOff hlt hend => exact hlt
  | fails hlt f => exact hlt

/-- A call is for what is missing, and no place beyond the bytes is asked for that the read did not begin at. -/
theorem exists_eq_restCall (h : Fills d offset length got calls result) {call : Call} (hcall : call ∈ calls) :
    ∃ k failure, k < length ∧ (k = got ∨ offset + k ≤ d.size) ∧ call = restCall offset length k failure := by
  induction h with
  | done => cases hcall
  | @piece got n calls result hlt hn hle hend rest ih =>
      cases hcall with
      | head => exact ⟨got, none, hlt, .inl rfl, rfl⟩
      | tail _ hcall =>
          obtain ⟨k, failure, hk, hplace, heq⟩ := ih hcall
          refine ⟨k, failure, hk, .inr ?_, heq⟩
          rcases hplace with rfl | hplace
          · exact hend
          · exact hplace
  | @cutOff got hlt hend => exact ⟨got, none, hlt, .inl rfl, List.mem_singleton.1 hcall⟩
  | @fails got hlt f => exact ⟨got, some f, hlt, .inl rfl, List.mem_singleton.1 hcall⟩

theorem eq_slice (h : Fills d offset length got calls result) {b : ByteArray} (hb : result = .ok b) :
    b = slice d offset length := by
  induction h with
  | done => exact (Except.ok.inj hb).symm
  | piece hlt hn hle hend rest ih => exact ih hb
  | cutOff hlt hend => cases hb
  | fails hlt f => cases hb

/-- Without a failure, reading comes to what the bytes say. -/
theorem eq_readExactly (h : Fills d offset length got calls result) (hgot : got = 0 ∨ offset + got ≤ d.size)
    (hcalm : ∀ call ∈ calls, call.fault? = none) : result = readExactly d offset length := by
  induction h with
  | done =>
      rw [readExactly, if_pos]
      omega
  | piece hlt hn hle hend rest ih =>
      exact ih (.inr hend) fun call hcall => hcalm call (List.mem_cons_of_mem _ hcall)
  | @cutOff got hlt hend =>
      have hrest : d.size - offset = got := by omega
      rw [readExactly, if_neg (by omega), hrest]
  | fails hlt f => cases hcalm _ List.mem_cons_self

end Fills

/-- What reading exactly `length` bytes of `d` from `offset` on comes to, and the calls that it makes. -/
structure IsExactRead (d : ByteArray) (offset length : Nat) (calls : List Call) (result : Except Failure ByteArray) :
    Prop where
  ok_iff : (∀ call ∈ calls, call.fault? = none) →
    ((∃ b, result = .ok b) ↔ length = 0 ∨ offset + length ≤ d.size)
  ok_eq : ∀ b, result = .ok b → b = slice d offset length ∧ b.size = length
  /-- Without a failing call, the text says how much there was, whatever pieces it came in. -/
  short : (∀ call ∈ calls, call.fault? = none) → ∀ f, result = .error f → ∃ e, f = .io e ∧
    e.kind = .unexpectedEof ∧
    e.message = s!"short read at offset {offset}: wanted {length} bytes, got {d.size - offset}"
  /-- A failing call is the last one, and its failure is passed on as it is. -/
  heeds : ∀ before call after f, calls = before ++ call :: after → call.fault? = some f →
    after = [] ∧ result = .error f
  length_le : calls.length ≤ length
  asks : ∀ call ∈ calls, ∃ k failure, k < length ∧ (k = 0 ∨ offset + k ≤ d.size) ∧
    call = .read .records (offset + k) (length - k) failure

/-- However a source splits reads and whichever of them it fails, an exact read gives all the bytes or says what was
missing, and a call that fails ends it. -/
theorem IsTruthful.isExactRead (h : r.IsTruthful d) (offset length : Nat) (s : σ) :
    ∃ result s' calls, r.readExact offset length s = (result, s') ∧
      r.recorded.readExact offset length (.during .records s []) = (result, .during .records s' calls) ∧
      IsExactRead d offset length calls result := by
  obtain ⟨result, s', calls, hplain, hrecorded, hfills⟩ :=
    exists_fills h (show ByteArray.empty = slice d offset ByteArray.empty.size by simp) (Nat.zero_le length) s []
  rw [List.nil_append] at hrecorded
  obtain ⟨calls', hnoted, haccounts⟩ := r.notes_readExact offset length s []
  have hsame : calls' = calls := by
    have heq := hnoted.symm.trans hrecorded
    exact congrArg (fun outcome => outcome.2.calls) heq
  rw [show r.readExact offset length s = (result, s') from hplain, hsame] at haccounts
  have hresult := hfills.eq_readExactly (.inl rfl)
  refine ⟨result, s', calls, hplain, hrecorded, ?_, ?_, ?_, haccounts.heeds, ?_, ?_⟩
  · intro hcalm
    rw [hresult hcalm, readExactly]
    split
    · rename_i hthere
      exact iff_of_true ⟨_, rfl⟩ hthere
    · rename_i hmissing
      refine iff_of_false ?_ hmissing
      rintro ⟨b, hb⟩
      cases hb
  · intro b hb
    exact ⟨hfills.eq_slice hb, haccounts.ok b hb⟩
  · intro hcalm f hf
    rw [hresult hcalm, readExactly] at hf
    split at hf
    · cases hf
    · cases hf
      exact ⟨_, rfl, rfl, rfl⟩
  · have hlength := hfills.length_le
    rwa [ByteArray.size_empty, Nat.zero_add] at hlength
  · intro call hcall
    exact hfills.exists_eq_restCall hcall

open FaultyMemory

/-- The bytes end before the read does in one case, and in the other one the second call fails. -/
theorem isExactRead_bare :
    bare.reader.IsTruthful bare.data ∧
      (∃ calls, IsExactRead bare.data 45 20 calls (.error (.io (.shortRead 45 20 7)))) ∧
      ∃ calls, IsExactRead bare.data 30 22 calls (.error (midway.failureAt 40)) := by
  have htrue : bare.reader.IsTruthful bare.data := isTruthful_reader (by decide)
  have hshort : (bare.reader.readExact 45 20 ⟨[], 0, 0⟩).1 = .error (.io (.shortRead 45 20 7)) := by
    have hpiece : bare.reader.readAt 45 20 ⟨[], 0, 0⟩ = (.ok (slice bare.data 45 10), ⟨[], 0, 0⟩) := rfl
    have hsize : (slice bare.data 45 10).size = 7 := by decide +kernel
    have hend : bare.reader.readAt 52 13 ⟨[], 0, 0⟩ = (.ok (slice bare.data 52 10), ⟨[], 0, 0⟩) := rfl
    rw [readExact, readRest, if_neg (by decide), ByteArray.size_empty, bind_ok hpiece, hsize, if_neg (by decide),
      ByteArray.empty_append, readRest, hsize, if_neg (by decide), bind_ok hend, if_pos (by decide +kernel)]
    rfl
  have hfails : (bare.reader.readExact 30 22 ⟨[midway], 0, 0⟩).1 = .error (midway.failureAt 40) := by
    have hpiece : bare.reader.readAt 30 22 ⟨[midway], 0, 0⟩ =
        (.ok (slice bare.data 30 10), ⟨[midway], 0, 0⟩) := rfl
    have hsize : (slice bare.data 30 10).size = 10 := by decide +kernel
    have hfault : bare.reader.readAt 40 12 ⟨[midway], 0, 0⟩ =
        (.error (midway.failureAt 40), ⟨[{ midway with left := 0 }], 0, 0⟩) := rfl
    rw [readExact, readRest, if_neg (by decide), ByteArray.size_empty, bind_ok hpiece, hsize, if_neg (by decide),
      ByteArray.empty_append, readRest, hsize, if_neg (by decide), bind_error hfault]
  refine ⟨htrue, ?_, ?_⟩
  · obtain ⟨result, s', calls, hread, -, hexact⟩ := IsTruthful.isExactRead htrue 45 20 ⟨[], 0, 0⟩
    rw [hread] at hshort
    exact ⟨calls, hshort ▸ hexact⟩
  · obtain ⟨result, s', calls, hread, -, hexact⟩ := IsTruthful.isExactRead htrue 30 22 ⟨[midway], 0, 0⟩
    rw [hread] at hfails
    exact ⟨calls, hfails ▸ hexact⟩

end DexArchive.Reader
