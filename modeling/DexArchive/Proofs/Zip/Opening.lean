import DexArchive.Proofs.Matching
import DexArchive.Zip.Archive

/-! Opening an archive, and opening an entry in it. What comes of both is for the bytes of the archive and
its reported length to say: readers that give the same bytes lead to the same entries and contents. -/

namespace DexArchive

namespace Action

variable {ε ε' σ τ α : Type} {f : ε → ε'}

theorem mapError_ok {p : Action ε σ α} {s s' : σ} {a : α} (h : p s = (.ok a, s')) :
    p.mapError f s = (.ok a, s') := by
  rw [mapError, h]
  rfl

theorem mapError_error {p : Action ε σ α} {s s' : σ} {e : ε} (h : p s = (.error e, s')) :
    p.mapError f s = (.error (f e), s') := by
  rw [mapError, h]
  rfl

theorem exists_of_mapError_ok {p : Action ε σ α} {s s' : σ} {a : α} (h : p.mapError f s = (.ok a, s')) :
    p s = (.ok a, s') := by
  cases hp : p s with
  | mk result t =>
      cases result with
      | error e =>
          rw [mapError_error hp] at h
          cases h
      | ok b =>
          rw [mapError_ok hp] at h
          cases h
          rfl

theorem Matches.mapError {R : σ → τ → Prop} {p : Action ε σ α} {q : Action ε τ α} (h : Matches R p q) :
    Matches R (p.mapError f) (q.mapError f) := by
  intro s t hst
  obtain ⟨hresult, hstates⟩ := h s t hst
  exact ⟨congrArg (Except.mapError f) hresult, hstates⟩

end Action

namespace Zip

variable {σ τ : Type} {reader : Reader σ} {reader' : Reader τ} {d : ByteArray}

theorem agrees_readBytes (h : reader.Gives d) (h' : reader'.Gives d) (offset length : Nat) :
    Action.Agrees (readBytes reader offset length) (readBytes reader' offset length) :=
  (Reader.agrees_readExact h h' offset length).matches.mapError.agrees

theorem readBytes_of_holds (h : reader.Holds d) {offset length : Nat} (hle : offset + length ≤ d.size)
    (s : σ) : ∃ s', readBytes reader offset length s = (.ok (slice d offset length), s') := by
  obtain ⟨s', hread⟩ := h.readExact hle s
  exact ⟨s', Action.mapError_ok hread⟩

theorem wellFormed_ok {α : Type} (a : α) (s : σ) : wellFormed (.ok a) s = (.ok a, s) := rfl

variable {R : σ → τ → Prop}

theorem matches_wellFormed {α : Type} (result : Except Malformed α) :
    Action.Matches R (wellFormed result : Action Error σ α) (wellFormed result : Action Error τ α) :=
  Action.matches_ofExcept _

theorem matches_malformed {α : Type} (cause : Malformed) :
    Action.Matches R (malformed cause : Action Error σ α) (malformed cause : Action Error τ α) :=
  matches_wellFormed (.error cause)

/-! ### Archives -/

namespace Archive

/-- Opening an archive, for its entries only. -/
def readDirectory (reader : Reader σ) : Action Error σ (List Entry) := do
  let (record, endOffset) ← findEndRecord reader
  let extent ← findDirectory reader record endOffset
  if endOffset < extent.offset + extent.size then
    malformed (.directoryOverrun extent.size extent.offset endOffset)
  else
    let directory ← readBytes reader extent.offset extent.size
    wellFormed (parseDirectory directory extent.count)

end Archive

section Matching

variable (hread : ∀ offset length,
    Action.Matches R (readBytes reader offset length) (readBytes reader' offset length))
  (hsize : reader.size = reader'.size)

include hread hsize

theorem matches_findEndRecord : Action.Matches R (findEndRecord reader) (findEndRecord reader') := by
  rw [findEndRecord, findEndRecord, hsize]
  split
  · exact matches_malformed _
  · apply (hread _ _).bind
    intro last
    split
    · exact Action.matches_pure _
    · apply (hread _ _).bind
      intro tail
      split
      · exact Action.matches_pure _
      · exact matches_malformed _

theorem matches_readWideEndRecord (endOffset : Nat) :
    Action.Matches R (readWideEndRecord reader endOffset) (readWideEndRecord reader' endOffset) := by
  rw [readWideEndRecord, readWideEndRecord, hsize]
  split
  · exact matches_malformed _
  · refine (hread _ _).bind fun b => (matches_wellFormed _).bind fun locator => ?_
    split
    · exact matches_malformed _
    · exact (hread _ _).bind fun b => matches_wellFormed _

theorem matches_findDirectory (record : EndRecord) (endOffset : Nat) :
    Action.Matches R (findDirectory reader record endOffset) (findDirectory reader' record endOffset) := by
  rw [findDirectory, findDirectory]
  split
  · exact (matches_readWideEndRecord hread hsize endOffset).bind fun wide => Action.matches_pure _
  · exact Action.matches_pure _

theorem Archive.matches_readDirectory :
    Action.Matches R (readDirectory reader) (readDirectory reader') := by
  rw [readDirectory, readDirectory]
  apply (matches_findEndRecord hread hsize).bind
  rintro ⟨record, endOffset⟩
  apply (matches_findDirectory hread hsize record endOffset).bind
  intro extent
  split
  · exact matches_malformed _
  · exact (hread _ _).bind fun directory => matches_wellFormed _

end Matching

namespace Archive

theorem agrees_readDirectory (h : reader.Gives d) (h' : reader'.Gives d) (hsize : reader.size = reader'.size) :
    Action.Agrees (readDirectory reader) (readDirectory reader') :=
  (matches_readDirectory (fun offset length => (agrees_readBytes h h' offset length).matches) hsize).agrees

theorem ofReader_eq (reader : Reader σ) :
    ofReader reader = do return ⟨reader, ← readDirectory reader⟩ := by
  rw [ofReader, readDirectory]
  simp only [bind_assoc]
  refine bind_congr fun (record, endOffset) => bind_congr fun extent => ?_
  split
  · rfl
  · simp only [bind_assoc]

theorem ofReader_of_readDirectory {s s' : σ} {result : Except Error (List Entry)}
    (h : readDirectory reader s = (result, s')) :
    ofReader reader s = (result.map (Archive.mk reader), s') := by
  rw [ofReader_eq]
  cases result with
  | error e => exact Action.bind_error h
  | ok entries => exact Action.bind_ok h

theorem reader_of_ofReader_ok {reader : Reader σ} {a : Archive σ} {s s' : σ}
    (h : ofReader reader s = (.ok a, s')) : a.reader = reader := by
  rw [ofReader_eq] at h
  obtain ⟨entries, s'', -, h⟩ := Action.exists_of_bind_eq_ok h
  cases h
  rfl

/-- The entries of the archive that is in given bytes. -/
def entriesOf (d : ByteArray) : Except Error (List Entry) := (readDirectory (memoryReader Unit d) ()).1

theorem ofReader_of_serves (h : reader.Serves d) (s : σ) :
    ∃ s', ofReader reader s = ((entriesOf d).map (Archive.mk reader), s') := by
  have hmemory := Reader.serves_memoryReader Unit d
  have hagrees := agrees_readDirectory h.gives hmemory.gives (h.size_eq.trans hmemory.size_eq.symm) s ()
  exact ⟨(readDirectory reader s).2, ofReader_of_readDirectory (Prod.ext hagrees rfl)⟩

/-! ### Entries -/

theorem matches_content_of_readBytes {a : Archive σ} {b : Archive τ} {e : Entry}
    (h : Action.Matches R (readBytes a.reader e.headerOffset.toNat localHeaderLength)
      (readBytes b.reader e.headerOffset.toNat localHeaderLength)) :
    Action.Matches R (a.content e) (b.content e) := by
  unfold content
  cases e.unsupported? with
  | some cause => exact Action.matches_throw _
  | none =>
      refine h.bind fun header => ?_
      by_cases hsignature : numberAt header 0 4 ≠ localHeaderSignature
      · rw [if_pos hsignature, if_pos hsignature]
        exact Action.matches_throw _
      · rw [if_neg hsignature, if_neg hsignature]
        exact Action.matches_pure _

theorem agrees_content_of_gives {a : Archive σ} {b : Archive τ} (h : a.reader.Gives d)
    (h' : b.reader.Gives d) (e : Entry) : Action.Agrees (a.content e) (b.content e) :=
  (matches_content_of_readBytes (agrees_readBytes h h' _ _).matches).agrees

theorem agrees_content {a : Archive σ} {b : Archive τ} (h : a.reader.Serves d) (h' : b.reader.Serves d)
    (e : Entry) : Action.Agrees (a.content e) (b.content e) :=
  agrees_content_of_gives h.gives h'.gives e

/-- Where the data of an entry begin in an archive, as its local header says. -/
def dataStart (d : ByteArray) (e : Entry) : Nat :=
  e.headerOffset.toNat + localHeaderLength + numberAt d (e.headerOffset.toNat + 26) 2 +
    numberAt d (e.headerOffset.toNat + 28) 2

/-- The bytes in `d` that the content of an entry is written as. -/
def dataOf (d : ByteArray) (e : Entry) : ByteArray :=
  slice d (dataStart d e) (Range.ofLength (dataStart d e) e.compressedSize.toNat).remaining

theorem dataStart_eq_slice (d : ByteArray) (e : Entry) :
    e.headerOffset.toNat + localHeaderLength +
        numberAt (slice d e.headerOffset.toNat localHeaderLength) 26 2 +
        numberAt (slice d e.headerOffset.toNat localHeaderLength) 28 2 = dataStart d e := by
  rw [numberAt_slice d (show 26 + 2 ≤ localHeaderLength by decide),
    numberAt_slice d (show 28 + 2 ≤ localHeaderLength by decide), dataStart]

/-- A content that was opened is after a local header. -/
theorem exists_of_content_ok {a : Archive σ} {e : Entry} {s s' : σ} {c : Content}
    (hc : a.content e s = (.ok c, s')) :
    e.unsupported? = none ∧ ∃ header,
      a.reader.readExact e.headerOffset.toNat localHeaderLength s = (.ok header, s') ∧
      numberAt header 0 4 = localHeaderSignature ∧
      c = .ofEntry e (e.headerOffset.toNat + localHeaderLength + numberAt header 26 2 +
        numberAt header 28 2) := by
  unfold content at hc
  cases hu : e.unsupported? with
  | some cause =>
      rw [hu] at hc
      cases hc
  | none =>
      rw [hu] at hc
      obtain ⟨header, s'', hread, hc⟩ := Action.exists_of_bind_eq_ok hc
      by_cases hsignature : numberAt header 0 4 = localHeaderSignature
      · rw [if_neg fun hne => hne hsignature] at hc
        cases hc
        exact ⟨rfl, header, Action.exists_of_mapError_ok hread, hsignature, rfl⟩
      · rw [if_pos hsignature] at hc
        cases hc

theorem content_of_isTruthful {a : Archive σ} (h : a.reader.IsTruthful d) {e : Entry} {s s' : σ} {c : Content}
    (hc : a.content e s = (.ok c, s')) : e.unsupported? = none ∧ c = .ofEntry e (dataStart d e) := by
  obtain ⟨hu, header, hread, -, rfl⟩ := exists_of_content_ok hc
  refine ⟨hu, ?_⟩
  rw [h.readExact hread, dataStart_eq_slice]

theorem content_of_gives {a : Archive σ} (h : a.reader.Gives d) {e : Entry} {s s' : σ} {c : Content}
    (hc : a.content e s = (.ok c, s')) : e.unsupported? = none ∧ c = .ofEntry e (dataStart d e) :=
  content_of_isTruthful h.isTruthful hc

theorem content_of_ok {a : Archive σ} (h : a.reader.Serves d) {e : Entry} {s s' : σ} {c : Content}
    (hc : a.content e s = (.ok c, s')) : e.unsupported? = none ∧ c = .ofEntry e (dataStart d e) :=
  content_of_gives h.gives hc

/-- The content of an entry with a sound local header can be opened. -/
theorem content_of_holds {a : Archive σ} (h : a.reader.Holds d) {e : Entry} (hu : e.unsupported? = none)
    (hle : e.headerOffset.toNat + localHeaderLength ≤ d.size)
    (hsignature : numberAt d e.headerOffset.toNat 4 = localHeaderSignature) (s : σ) :
    ∃ s', a.content e s = (.ok (.ofEntry e (dataStart d e)), s') := by
  obtain ⟨s', hread⟩ := readBytes_of_holds h hle s
  refine ⟨s', ?_⟩
  have hsignature' : numberAt (slice d e.headerOffset.toNat localHeaderLength) 0 4 = localHeaderSignature := by
    rw [numberAt_slice d (show 0 + 4 ≤ localHeaderLength by decide), Nat.add_zero, hsignature]
  simp only [content, hu, Action.bind_ok hread]
  rw [if_neg fun hne => hne hsignature', dataStart_eq_slice]
  rfl

theorem readContent_ok {α : Type} {c : Content} {p : Action IoError (Content × σ) α} {s : σ} {a : α}
    {t : Content × σ} (h : p (c, s) = (.ok a, t)) : readContent c p s = (.ok a, t.2) := by
  rw [readContent, h]
  rfl

theorem readContent_error {α : Type} {c : Content} {p : Action IoError (Content × σ) α} {s : σ}
    {e : IoError} {t : Content × σ} (h : p (c, s) = (.error e, t)) :
    readContent c p s = (.error (.io e), t.2) := by
  rw [readContent, h]
  rfl

theorem exists_of_readContent_ok {α : Type} {c : Content} {p : Action IoError (Content × σ) α} {s s' : σ} {a : α}
    (h : readContent c p s = (.ok a, s')) : ∃ t, p (c, s) = (.ok a, t) ∧ t.2 = s' := by
  cases hp : p (c, s) with
  | mk result t =>
      cases result with
      | error e =>
          rw [readContent_error hp] at h
          cases h
      | ok x =>
          rw [readContent_ok hp] at h
          cases h
          exact ⟨t, rfl, rfl⟩

/-- A content that was read, if its length and checksum are those of the directory. -/
def verified (e : Entry) (b : ByteArray) : Except Error ByteArray :=
  if b.size ≠ e.uncompressedSize.toNat then
    .error (.io (.sizeMismatch e.name e.uncompressedSize.toNat b.size))
  else if crc32 b ≠ e.crc then .error (.io (.checksumMismatch e.name e.crc (crc32 b)))
  else .ok b

theorem eq_of_verified_ok {e : Entry} {b b' : ByteArray} (h : verified e b = .ok b') : b' = b := by
  unfold verified at h
  by_cases hsize : b.size ≠ e.uncompressedSize.toNat
  · rw [if_pos hsize] at h
    cases h
  · rw [if_neg hsize] at h
    by_cases hcrc : crc32 b ≠ e.crc
    · rw [if_pos hcrc] at h
      cases h
    · rw [if_neg hcrc] at h
      exact (Except.ok.inj h).symm

theorem readEntry_eq_bind (a : Archive σ) (e : Entry) :
    a.readEntry e = (do
      let c ← a.content e
      let b ← readContent c ((Content.stream a.reader).readToEnd e.uncompressedSize.toNat
        (min (e.uncompressedSize.toNat + 1) addressMax))
      MonadExcept.ofExcept (verified e b)) := by
  unfold readEntry readEntryBy verified
  refine bind_congr fun c => bind_congr fun b => ?_
  by_cases hsize : b.size ≠ e.uncompressedSize.toNat
  · rw [if_pos hsize, if_pos hsize]
    rfl
  · rw [if_neg hsize, if_neg hsize]
    by_cases hcrc : crc32 b ≠ e.crc
    · rw [if_pos hcrc, if_pos hcrc]
      rfl
    · rw [if_neg hcrc, if_neg hcrc]
      rfl

/-- The ways that reading an entry can go: its content cannot be opened or read, it is not what the
directory says, or all is well. -/
theorem readEntry_cases (a : Archive σ) (e : Entry) (s : σ) :
    (∃ error s', a.content e s = (.error error, s') ∧ (a.readEntry e s).1 = .error error) ∨
      ∃ c s', a.content e s = (.ok c, s') ∧
        ((∃ cause, (a.readEntry e s).1 = .error (.io cause)) ∨
          ∃ b t', (Content.stream a.reader).readToEnd e.uncompressedSize.toNat
              (min (e.uncompressedSize.toNat + 1) addressMax) (c, s') = (.ok b, t') ∧
            b.size = e.uncompressedSize.toNat ∧ crc32 b = e.crc ∧ (a.readEntry e s).1 = .ok b) := by
  unfold readEntry readEntryBy
  cases hcontent : a.content e s with
  | mk result s' =>
      cases result with
      | error error => exact .inl ⟨error, s', rfl, congrArg Prod.fst (Action.bind_error hcontent)⟩
      | ok c =>
          refine .inr ⟨c, s', rfl, ?_⟩
          rw [Action.bind_ok hcontent]
          cases hread : (Content.stream a.reader).readToEnd e.uncompressedSize.toNat
              (min (e.uncompressedSize.toNat + 1) addressMax) (c, s') with
          | mk result t' =>
              cases result with
              | error cause =>
                  exact .inl ⟨cause, congrArg Prod.fst (Action.bind_error (readContent_error hread))⟩
              | ok b =>
                  rw [Action.bind_ok (readContent_ok hread)]
                  by_cases hsize : b.size = e.uncompressedSize.toNat
                  · rw [if_neg fun hne => hne hsize]
                    by_cases hcrc : crc32 b = e.crc
                    · rw [if_neg fun hne => hne hcrc]
                      exact .inr ⟨b, t', rfl, hsize, hcrc, rfl⟩
                    · rw [if_pos hcrc]
                      exact .inl ⟨_, rfl⟩
                  · rw [if_pos hsize]
                    exact .inl ⟨_, rfl⟩

end Archive

end Zip

end DexArchive
