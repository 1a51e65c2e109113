import DexArchive.Proofs.Fetching
import DexArchive.Proofs.Words

/-! Asking a server for bytes with machine words. The last byte to ask for is reckoned from the end of the
buffer, which is cut to the length of the resource only afterwards. So a read whose buffer would end beyond
the largest address goes out of range, although the resource ends before it; every other read is exact. -/

namespace DexArchive.Http

open Halt Word

variable {σ : Type}

/-! ### Programs that look at their steps -/

/-- `lastByte`, looking at its steps. -/
def lastByteChecked (size offset length : Nat) : Option Nat := do
  let stop ← sum? offset length
  let last ← difference? stop 1
  return min last (← difference? size 1)

def expectedLengthChecked (last offset : Nat) : Option Nat := do
  sum? (← difference? last offset) 1

/-- `fetch`, looking at where each request begins and at what is missing. -/
def fetchChecked (server : Server σ) (attempts offset last expected failed : Nat) (received : ByteArray)
    (s : σ) : Except (Halt Failure) ByteArray × σ :=
  if expected ≤ received.size then (.ok received, s)
  else match sum? offset received.size with
    | none => (.error .outOfRange, s)
    | some first =>
      match server.get (.ofNat first) (.ofNat last) s with
      | (.error .noConnection, s) =>
        if attempts ≤ failed + 1 then (.error (.fails Problem.retriesExceeded.failure), s)
        else fetchChecked server attempts offset last expected (failed + 1) received s
      | (.error (.other text), s) => (.error (.fails (.plain text)), s)
      | (.ok answer, s) =>
        if answer.status ≠ partialContent then
          (.error (.fails (Problem.badStatus answer.status).failure), s)
        else if answer.body.size = 0 then
          (.error (.fails (Problem.emptyRange (.ofNat first) (.ofNat last)).failure), s)
        else match _hroom : difference? expected received.size with
          | none => (.error .outOfRange, s)
          | some room =>
            fetchChecked server attempts offset last expected failed (received ++ slice answer.body 0 room) s
termination_by (expected - received.size, attempts - failed)
decreasing_by
  · simp only [Prod.lex_def]
    exact .inr ⟨trivial, by omega⟩
  · have hroom := eq_sub_of_difference? _hroom
    simp only [Prod.lex_def, ByteArray.size_append, size_slice]
    exact .inl (by omega)

/-- `readAt`, looking at its steps. -/
def readAtChecked (server : Server σ) (attempts : Nat) (size : UInt64) (offset length : Nat) (s : σ) :
    Except (Halt Failure) ByteArray × σ :=
  if length = 0 ∨ size.toNat ≤ offset then (.ok .empty, s)
  else match lastByteChecked size.toNat offset length with
    | none => (.error .outOfRange, s)
    | some last =>
      match expectedLengthChecked last offset with
      | none => (.error .outOfRange, s)
      | some expected => fetchChecked server attempts offset last expected 0 .empty s

/-! ### Requests -/

section Request

variable {server : Server σ} {attempts : Nat} {offset last : UInt64} {expected failed : Nat} {got : ByteArray}
  {s : σ}

/-- Where all the bytes asked for have addresses, so has the place at which a request begins. -/
theorem fetchChecked_of_lt (hfit : offset.toNat + expected ≤ 2 ^ 64) (h : got.size < expected) :
    fetchChecked server attempts offset.toNat last.toNat expected failed got s =
      match server.get (offset + .ofNat got.size) last s with
      | (.error .noConnection, s) =>
        if attempts ≤ failed + 1 then (.error (.fails Problem.retriesExceeded.failure), s)
        else fetchChecked server attempts offset.toNat last.toNat expected (failed + 1) got s
      | (.error (.other text), s) => (.error (.fails (.plain text)), s)
      | (.ok answer, s) =>
        if answer.status ≠ partialContent then
          (.error (.fails (Problem.badStatus answer.status).failure), s)
        else if answer.body.size = 0 then
          (.error (.fails (Problem.emptyRange (offset + .ofNat got.size) last).failure), s)
        else
          fetchChecked server attempts offset.toNat last.toNat expected failed
            (got ++ slice answer.body 0 (expected - got.size)) s := by
  rw [fetchChecked, if_neg (Nat.not_le.2 h), sum?_of_lt (by omega)]
  simp only [UInt64.ofNat_add, UInt64.ofNat_toNat]
  cases server.get (offset + .ofNat got.size) last s with
  | mk outcome s' =>
      cases outcome with
      | error lapse => cases lapse <;> rfl
      | ok answer =>
          simp only
          split
          · rfl
          · split
            · rfl
            · split
              · rename_i hroom
                rw [difference?_of_le (Nat.le_of_lt h)] at hroom
                cases hroom
              · rename_i room hroom
                rw [eq_sub_of_difference? hroom]

theorem fetchChecked_eq (hfit : offset.toNat + expected ≤ 2 ^ 64) :
    fetchChecked server attempts offset.toNat last.toNat expected failed got s =
      ((fetch server attempts offset last expected failed got s).1.mapError .fails,
        (fetch server attempts offset last expected failed got s).2) := by
  fun_induction fetch server attempts offset last expected failed got s with
  | case1 failed got s hdone =>
      rw [fetchChecked, if_pos hdone]
      rfl
  | case2 failed got s hlt first s' hget hmost =>
      rw [fetchChecked_of_lt hfit (Nat.lt_of_not_le hlt), hget]
      exact if_pos hmost
  | case3 failed got s hlt first s' hget hmost ih =>
      rw [fetchChecked_of_lt hfit (Nat.lt_of_not_le hlt), hget]
      exact (if_neg hmost).trans ih
  | case4 failed got s hlt first text s' hget =>
      rw [fetchChecked_of_lt hfit (Nat.lt_of_not_le hlt), hget]
      rfl
  | case5 failed got s hlt first a s' hget hstatus =>
      rw [fetchChecked_of_lt hfit (Nat.lt_of_not_le hlt), hget]
      exact if_pos hstatus
  | case6 failed got s hlt first a s' hget hstatus hbody =>
      rw [fetchChecked_of_lt hfit (Nat.lt_of_not_le hlt), hget]
      exact (if_neg hstatus).trans (if_pos hbody)
  | case7 failed got s hlt first a s' hget hstatus hbody ih =>
      rw [fetchChecked_of_lt hfit (Nat.lt_of_not_le hlt), hget]
      exact ((if_neg hstatus).trans (if_neg hbody)).trans ih

end Request

/-! ### Reads -/

theorem expectedLengthChecked_of_le {last offset : Nat} (h : offset ≤ last) (hlast : last + 1 < 2 ^ 64) :
    expectedLengthChecked last offset = some (last - offset + 1) := by
  unfold expectedLengthChecked
  rw [difference?_of_le h]
  exact sum?_of_lt (by omega)

section Read

variable {size offset length : UInt64} (hlength : 0 < length.toNat) (hoffset : offset.toNat < size.toNat)

include hlength hoffset

theorem lastByteChecked_eq :
    lastByteChecked size.toNat offset.toNat length.toNat =
      if offset.toNat + length.toNat < 2 ^ 64 then
        some (min (offset.toNat + length.toNat) size.toNat - 1)
      else none := by
  unfold lastByteChecked
  split
  · rename_i hlt
    rw [sum?_of_lt hlt]
    simp only [Option.bind_eq_bind, Option.bind_some]
    rw [difference?_of_le (by omega), difference?_of_le (by omega)]
    simp only [Option.bind_some]
    exact congrArg some (by omega)
  · rename_i hge
    rw [sum?, if_neg hge]
    rfl

variable (server : Server σ) (attempts : Nat) (s : σ)

theorem readAtChecked_eq (hlt : offset.toNat + length.toNat < 2 ^ 64) :
    readAtChecked server attempts size offset.toNat length.toNat s =
      ((readAt server attempts size offset.toNat length.toNat s).1.mapError .fails,
        (readAt server attempts size offset.toNat length.toNat s).2) := by
  have hsize := size.toNat_lt
  have hlast := toNat_lastByte_eq hlength hoffset
  have hexpected := toNat_expectedLength_eq hlength hoffset
  rw [if_pos (Nat.le_of_lt hlt)] at hlast hexpected
  have hwords : expectedLengthChecked (lastByte size offset length).toNat offset.toNat =
      some (expectedLength size offset length).toNat := by
    rw [expectedLengthChecked_of_le (by omega) (by omega)]
    exact congrArg some (by omega)
  rw [readAtChecked, readAt, if_neg (by omega), if_neg (by omega), lastByteChecked_eq hlength hoffset,
    if_pos hlt, ← hlast]
  simp only [hwords, UInt64.ofNat_toNat]
  exact fetchChecked_eq (by omega)

theorem readAtChecked_of_le (hge : 2 ^ 64 ≤ offset.toNat + length.toNat) :
    readAtChecked server attempts size offset.toNat length.toNat s = (.error .outOfRange, s) := by
  rw [readAtChecked, if_neg (by omega), lastByteChecked_eq hlength hoffset, if_neg (Nat.not_lt.2 hge)]

end Read

theorem mapError_fails_ne_outOfRange {ε α : Type} (result : Except ε α) :
    result.mapError Halt.fails ≠ .error .outOfRange := by
  cases result with
  | ok a => exact nofun
  | error e => exact nofun

/-- A read stays within the numbers of 64 bits iff it has nothing to read or its buffer ends before the
largest address. The last byte and the length are then those of exact numbers; where the buffer ends beyond
the largest address, the last byte wraps, and the length is that of the whole buffer. -/
theorem readAt_inRange_iff (server : Server σ) (attempts : Nat) (size offset length : UInt64) (s : σ) :
    (readAtChecked server attempts size offset.toNat length.toNat s =
        ((readAt server attempts size offset.toNat length.toNat s).1.mapError .fails,
          (readAt server attempts size offset.toNat length.toNat s).2) ↔
      length = 0 ∨ size ≤ offset ∨ offset.toNat + length.toNat < 2 ^ 64) ∧
    (0 < length → offset < size →
      (lastByte size offset length).toNat =
        (if offset.toNat + length.toNat ≤ 2 ^ 64 then min (offset.toNat + length.toNat) size.toNat - 1
        else offset.toNat + length.toNat - 1 - 2 ^ 64) ∧
      (expectedLength size offset length).toNat =
        (if offset.toNat + length.toNat ≤ 2 ^ 64 then
          min (offset.toNat + length.toNat) size.toNat - offset.toNat
        else length.toNat) ∧
      expectedLength size offset length ≤ length) := by
  refine ⟨?_, fun hlength hoffset => ⟨?_, ?_, expectedLength_le size offset length hoffset hlength⟩⟩
  · rw [← UInt64.toNat_inj, UInt64.toNat_zero, UInt64.le_iff_toNat_le]
    by_cases hnone : length.toNat = 0 ∨ size.toNat ≤ offset.toNat
    · rw [readAt_of_nothing hnone, readAtChecked, if_pos hnone]
      exact ⟨fun _ => by omega, fun _ => rfl⟩
    · obtain ⟨hlength, hoffset⟩ : 0 < length.toNat ∧ offset.toNat < size.toNat := by omega
      constructor
      · intro heq
        by_cases hlt : offset.toNat + length.toNat < 2 ^ 64
        · exact .inr (.inr hlt)
        · rw [readAtChecked_of_le hlength hoffset server attempts s (Nat.le_of_not_lt hlt)] at heq
          exact absurd (congrArg Prod.fst heq).symm (mapError_fails_ne_outOfRange _)
      · intro hlt
        exact readAtChecked_eq hlength hoffset server attempts s (by omega)
  · exact toNat_lastByte_eq (UInt64.lt_iff_toNat_lt.1 hlength) (UInt64.lt_iff_toNat_lt.1 hoffset)
  · exact toNat_expectedLength_eq (UInt64.lt_iff_toNat_lt.1 hlength) (UInt64.lt_iff_toNat_lt.1 hoffset)

/-- One byte before the end of a resource that is nearly as long as can be, and a buffer of 100 bytes. -/
theorem lastByte_wraps :
    ¬∀ size offset length : UInt64, 0 < length → offset < size →
      (lastByte size offset length).toNat = min (offset.toNat + length.toNat) size.toNat - 1 := by
  intro h
  have hexact := h 18446744073709551600 18446744073709551599 100 (by decide) (by decide)
  exact absurd hexact (by decide)

end DexArchive.Http
