import DexArchive.Proofs.Recording
import DexArchive.Proofs.Zip.EndRecord

/-! What is asked of a source to open an archive. No read goes beyond the length that the source says it has,
whatever offsets, sizes and counts the records give; so bytes that are no archive are told apart from
bytes that cannot be read. -/

namespace DexArchive.Zip

open DexArchive.Action

variable {σ : Type} {reader : Reader σ} {d : ByteArray} {terms : Terms Error}

theorem notes_readBytes (reader : Reader σ) (offset length : Nat) :
    Notes (Recorded.during .records) ⟨Error.ofFailure, Call.Within (offset + length), fun _ => True⟩
      (fun b => b.size = length) (readBytes reader offset length) (readBytes reader.recorded offset length) :=
  (reader.notes_readExact offset length).mapError (fun _ => rfl) (fun _ => id) fun _ => id

theorem notes_malformed {α : Type} {post : α → Prop} (h : ∀ cause, terms.error (.notAnArchive none cause))
    (cause : Malformed) :
    Notes (Recorded.during .records) terms post (malformed cause : Action Error σ α)
      (malformed cause : Action Error (Recorded σ) α) :=
  .throw (h cause)

theorem notes_wellFormed {α : Type} (h : ∀ cause, terms.error (.notAnArchive none cause))
    (result : Except Malformed α) :
    Notes (Recorded.during .records) terms (fun _ => True) (wellFormed result : Action Error σ α)
      (wellFormed result : Action Error (Recorded σ) α) := by
  cases result with
  | error cause => exact .throw (h cause)
  | ok a => exact .pure trivial

section Opening

variable (hread : ∀ offset length, offset + length ≤ reader.size →
    Notes (Recorded.during .records) terms (fun b => b.size = length) (readBytes reader offset length)
      (readBytes reader.recorded offset length))
  (hmalformed : ∀ cause, terms.error (.notAnArchive none cause))

include hread hmalformed

/-- The end record that is found is within the bytes. -/
theorem notes_findEndRecord :
    Notes (Recorded.during .records) terms (fun found => found.2 + EndRecord.length ≤ reader.size)
      (findEndRecord reader) (findEndRecord reader.recorded) := by
  have hlength : EndRecord.length = 22 := rfl
  rw [findEndRecord, findEndRecord, Reader.size_recorded]
  by_cases hshort : reader.size < EndRecord.length
  · rw [if_pos hshort, if_pos hshort]
    exact notes_malformed hmalformed _
  · rw [if_neg hshort, if_neg hshort]
    refine (hread _ _ (by omega)).bind fun last hlast => ?_
    by_cases hstands : EndRecord.StandsAt last 0
    · rw [if_pos hstands, if_pos hstands]
      exact .pure (show reader.size - EndRecord.length + EndRecord.length ≤ reader.size by omega)
    · rw [if_neg hstands, if_neg hstands]
      refine (hread _ _ (by omega)).bind fun tail htail => ?_
      cases hplace : EndRecord.place? tail with
      | none => exact notes_malformed hmalformed _
      | some place =>
          have hle := (EndRecord.place?_eq_some_iff.1 hplace).le
          exact .pure (show reader.size - tailLength + place + EndRecord.length ≤ reader.size by omega)

theorem notes_readWideEndRecord {endOffset : Nat} (hend : endOffset + EndRecord.length ≤ reader.size) :
    Notes (Recorded.during .records) terms (fun _ => True) (readWideEndRecord reader endOffset)
      (readWideEndRecord reader.recorded endOffset) := by
  rw [readWideEndRecord, readWideEndRecord, Reader.size_recorded]
  by_cases hshort : endOffset < Locator.length
  · rw [if_pos hshort, if_pos hshort]
    exact notes_malformed hmalformed _
  · rw [if_neg hshort, if_neg hshort]
    refine (hread _ _ (by omega)).bind fun b _ => (notes_wellFormed hmalformed _).bind fun locator _ => ?_
    by_cases hout : reader.size < locator.offset.toNat + WideEndRecord.length
    · rw [if_pos hout, if_pos hout]
      exact notes_malformed hmalformed _
    · rw [if_neg hout, if_neg hout]
      exact (hread _ _ (by omega)).bind fun b _ => notes_wellFormed hmalformed _

theorem notes_findDirectory (record : EndRecord) {endOffset : Nat}
    (hend : endOffset + EndRecord.length ≤ reader.size) :
    Notes (Recorded.during .records) terms (fun _ => True) (findDirectory reader record endOffset)
      (findDirectory reader.recorded record endOffset) := by
  rw [findDirectory, findDirectory]
  by_cases hwide : record.IsWide
  · rw [if_pos hwide, if_pos hwide]
    exact (notes_readWideEndRecord hread hmalformed hend).bind fun wide _ => .pure trivial
  · rw [if_neg hwide, if_neg hwide]
    exact .pure trivial

/-- If all reads within the bytes are accounted for, opening the archive is. -/
theorem Archive.notes_readDirectory :
    Notes (Recorded.during .records) terms (fun _ => True) (readDirectory reader)
      (readDirectory reader.recorded) := by
  rw [readDirectory, readDirectory]
  refine (notes_findEndRecord hread hmalformed).bind ?_
  rintro ⟨record, endOffset⟩ hend
  refine (notes_findDirectory hread hmalformed record hend).bind fun extent _ => ?_
  by_cases hover : endOffset < extent.offset + extent.size
  · rw [if_pos hover, if_pos hover]
    exact notes_malformed hmalformed _
  · rw [if_neg hover, if_neg hover]
    have hend : endOffset + EndRecord.length ≤ reader.size := hend
    exact (hread _ _ (by omega)).bind fun directory _ => notes_wellFormed hmalformed _

end Opening

namespace Archive

def recorded (a : Archive σ) : Archive (Recorded σ) := ⟨a.reader.recorded, a.entries⟩

theorem ofReader_recorded {post : List Entry → Prop} {s : σ} {calls : List Call}
    (h : NotedIn (Recorded.during .records) terms post calls (readDirectory reader s)
      (readDirectory reader.recorded (.during .records s calls))) :
    ∃ new, ofReader reader.recorded (.during .records s calls) =
        ((ofReader reader s).1.map recorded, .during .records (ofReader reader s).2 (calls ++ new)) ∧
      Accounts terms post new (readDirectory reader s).1 := by
  obtain ⟨new, hrecorded, haccounts⟩ := h
  refine ⟨new, ?_, haccounts⟩
  rw [ofReader_of_readDirectory hrecorded, ofReader_of_readDirectory (Prod.eta _).symm]
  cases (readDirectory reader s).1 <;> rfl

/-- Opening an archive reads only within the bytes that there are, and if they can be read then whatever is
wrong with them makes them no archive. -/
theorem ofReader_of_holds (h : reader.Holds d) (s : σ) :
    ((∃ entries, (ofReader reader s).1 = .ok ⟨reader, entries⟩) ∨
        ∃ cause, (ofReader reader s).1 = .error (.notAnArchive none cause)) ∧
      ∃ calls, ofReader reader.recorded (.during .records s []) =
          ((ofReader reader s).1.map recorded, .during .records (ofReader reader s).2 calls) ∧
        ∀ call ∈ calls, call.Within d.size := by
  have hread : ∀ offset length, offset + length ≤ reader.size →
      Notes (Recorded.during .records)
        ⟨Error.ofFailure, Call.Within d.size, fun e => ∃ cause, e = .notAnArchive none cause⟩
        (fun b => b.size = length) (readBytes reader offset length)
        (readBytes reader.recorded offset length) := by
    intro offset length hle
    rw [h.size_eq] at hle
    refine (notes_readBytes reader offset length).mono rfl (fun _ hcall => hcall.mono hle) ?_ fun _ => id
    intro s e he
    obtain ⟨s', hok⟩ := readBytes_of_holds h hle s
    rw [hok] at he
    cases he
  obtain ⟨calls, hrecorded, haccounts⟩ :=
    ofReader_recorded (notes_readDirectory hread (fun cause => ⟨cause, rfl⟩) s [])
  refine ⟨?_, calls, hrecorded, haccounts.call⟩
  rw [ofReader_of_readDirectory (Prod.eta _).symm]
  cases hresult : (readDirectory reader s).1 with
  | ok entries => exact .inl ⟨entries, rfl⟩
  | error e =>
      obtain ⟨cause, rfl⟩ := haccounts.error e hresult
      exact .inr ⟨cause, rfl⟩

/-- A locator that points to the largest offset there is, and the end record that it belongs to. -/
def forgedLocator : ByteArray := Locator.bytes ⟨0xFFFFFFFFFFFFFFFF⟩ ⟨0, 0, 0, 0, 0, 0, .empty, 0, 0⟩

def forged : ByteArray :=
  forgedLocator ++ EndRecord.bytes ⟨0, 0, 0xFFFF, 0xFFFF, 0xFFFFFFFF, 0xFFFFFFFF, 0⟩

theorem readDirectory_forged :
    ∃ s, readDirectory (memoryReader Unit forged) () =
      (.error (.notAnArchive none .wideEndRecordOutOfBounds), s) := by
  have hholds := (Reader.serves_memoryReader Unit forged).holds
  have hlast : EndRecord.IsLast forged 20 := ⟨by decide +kernel, by decide +kernel, fun p hp hle => by
    have hsize : forged.size = 20 + EndRecord.length := by decide +kernel
    omega⟩
  have hwide : (EndRecord.ofBytesAt forged 20).IsWide := by decide +kernel
  have hlocator : Has forged 0 forgedLocator := (Has.refl forged).append_left
  obtain ⟨s₁, hfound⟩ := findEndRecord_of_isLast hholds hlast ()
  obtain ⟨s₂, hlook⟩ := readWideEndRecord_of_lt hholds hlocator (by decide +kernel) s₁
  refine ⟨s₂, ?_⟩
  rw [readDirectory, bind_ok hfound]
  refine bind_error ?_
  simp only [findDirectory, if_pos hwide]
  exact bind_error hlook

theorem ofReader_of_holds_forged :
    (memoryReader Unit forged).Holds forged ∧
      ∃ calls, ofReader (memoryReader Unit forged).recorded (.during .records () []) =
          (.error (.notAnArchive none .wideEndRecordOutOfBounds), .during .records () calls) ∧
        ∀ call ∈ calls, call.Within forged.size := by
  have hholds := (Reader.serves_memoryReader Unit forged).holds
  obtain ⟨s, hread⟩ := readDirectory_forged
  obtain ⟨-, calls, hrecorded, hwithin⟩ := ofReader_of_holds hholds ()
  rw [ofReader_of_readDirectory hread] at hrecorded
  exact ⟨hholds, calls, hrecorded, hwithin⟩

end Archive

end DexArchive.Zip
