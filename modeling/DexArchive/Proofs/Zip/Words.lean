import DexArchive.Proofs.Deflate.Words
import DexArchive.Proofs.Zip.Locality
import DexArchive.Proofs.Zip.RecordWords

/-! Opening an archive and reading its entries with machine words. A source may report any length, and the
records of an archive may hold any numbers: a read that went well shows that its place is within the source, and
from there on every sum is small enough. -/

namespace DexArchive.Zip

open Halt Word DexArchive.Action

variable {σ : Type} {reader : Reader σ} {n : Nat}

/-! ### Reads and records -/

def readBytesChecked (reader : Reader σ) (offset length : Nat) : Action (Halt Error) σ ByteArray :=
  (reader.readExactChecked offset length).mapError (.map .ofFailure)

def wellFormedChecked {α : Type} (result : Except (Halt Malformed) α) : Action (Halt Error) σ α :=
  MonadExcept.ofExcept (result.mapError (.map (.notAnArchive none)))

def malformedChecked {α : Type} (cause : Malformed) : Action (Halt Error) σ α :=
  wellFormedChecked (.error (.fails cause))

theorem wellFormedChecked_mapError {α : Type} (result : Except Malformed α) :
    (wellFormedChecked (result.mapError .fails) : Action (Halt Error) σ α) =
      (wellFormed result).mapError .fails := by
  cases result <;> rfl

theorem wellFormedChecked_ok_bind {α β : Type} (a : α) (f : α → Action (Halt Error) σ β) :
    (wellFormedChecked (.ok a) >>= f) = f a := pure_bind a f

section Ends

variable (hends : reader.EndsBy n)

include hends

theorem size_of_readBytes_ok {offset length : Nat} {b : ByteArray} {s s' : σ}
    (h : readBytes reader offset length s = (.ok b, s')) :
    b.size = length ∧ (length = 0 ∨ offset + length ≤ n) :=
  hends.readExact (exists_of_mapError_ok h)

theorem readBytesChecked_eq (hn : n < 2 ^ 63) {offset length : Nat} (hoffset : offset < 2 ^ 64)
    (hlength : length < 2 ^ 63) :
    readBytesChecked reader offset length = (readBytes reader offset length).mapError .fails := by
  rw [readBytesChecked, readBytes, Reader.readExactChecked_eq hends hn hoffset hlength, mapError_mapError,
    mapError_mapError]
  rfl

/-- A read, and what is done with the bytes, of which it is known how many they are and that they are there. -/
theorem readBytesChecked_bind {α : Type} (hn : n < 2 ^ 63) {offset length : Nat} (hoffset : offset < 2 ^ 64)
    (hlength : length < 2 ^ 63) {f : ByteArray → Action (Halt Error) σ α} {g : ByteArray → Action Error σ α}
    (hfg : ∀ b, b.size = length → (length = 0 ∨ offset + length ≤ n) → f b = (g b).mapError .fails) :
    (readBytesChecked reader offset length >>= f) = (readBytes reader offset length >>= g).mapError .fails := by
  rw [readBytesChecked_eq hends hn hoffset hlength, mapError_bind]
  refine Action.bind_congr_of_ok fun b s s' hread => ?_
  obtain ⟨hsize, hwithin⟩ := size_of_readBytes_ok hends (exists_of_mapError_ok hread)
  exact hfg b hsize hwithin

end Ends

/-! ### From the end to the directory -/

/-- `findEndRecord`, looking at its steps. No buffer is to be longer than `most` bytes. -/
def findEndRecordChecked (most : Nat) (reader : Reader σ) : Action (Halt Error) σ (EndRecord × Nat) := do
  if reader.size < EndRecord.length then malformedChecked (.tooShort reader.size)
  else
    let offset ← demand (difference? reader.size EndRecord.length)
    let last ← readBytesChecked reader offset EndRecord.length
    let signature ← demand (number? last 0 4)
    let comment ← demand (number? last 20 2)
    if signature = EndRecord.signature ∧ comment = 0 then
      return (← wellFormedChecked (EndRecord.parseChecked last), offset)
    else
      let longest ← demand (sum? EndRecord.maxComment EndRecord.length)
      let width := min longest reader.size
      let start ← demand (difference? reader.size width)
      let _ ← demand (allocate? most width)
      let tail ← readBytesChecked reader start width
      match ← wellFormedChecked (EndRecord.placeChecked tail) with
      | none => malformedChecked .noEndRecord
      | some place =>
        let record ← wellFormedChecked (EndRecord.atChecked tail place)
        return (record, ← demand (sum? start place))

def readWideEndRecordChecked (reader : Reader σ) (endOffset : Nat) : Action (Halt Error) σ WideEndRecord :=
  match difference? endOffset Locator.length with
  | none => malformedChecked .noLocator
  | some place => do
    let locator ← wellFormedChecked (Locator.parseChecked (← readBytesChecked reader place Locator.length))
    match sum? locator.offset.toNat WideEndRecord.length with
    | none => malformedChecked .wideEndRecordOutOfBounds
    | some stop =>
      if reader.size < stop then malformedChecked .wideEndRecordOutOfBounds
      else wellFormedChecked (WideEndRecord.parseChecked
        (← readBytesChecked reader locator.offset.toNat WideEndRecord.length))

def findDirectoryChecked (reader : Reader σ) (record : EndRecord) (endOffset : Nat) :
    Action (Halt Error) σ Extent := do
  if record.IsWide then return (← readWideEndRecordChecked reader endOffset).extent
  else return record.extent

section Ends

variable (hends : reader.EndsBy n)

include hends

/-- The end record that was found is in the source, whatever length the source reports. -/
theorem le_of_findEndRecord_ok {record : EndRecord} {endOffset : Nat} {s s' : σ}
    (h : findEndRecord reader s = (.ok (record, endOffset), s')) : endOffset + EndRecord.length ≤ n := by
  have hlength : EndRecord.length = 22 := rfl
  have htail : tailLength = 65557 := rfl
  unfold findEndRecord at h
  by_cases hshort : reader.size < EndRecord.length
  · rw [if_pos hshort] at h
    cases h
  · rw [if_neg hshort] at h
    obtain ⟨last, s₁, hlast, h⟩ := exists_of_bind_eq_ok h
    obtain ⟨-, hwithin⟩ := size_of_readBytes_ok hends hlast
    by_cases hstands : EndRecord.StandsAt last 0
    · rw [if_pos hstands] at h
      cases h
      omega
    · rw [if_neg hstands] at h
      obtain ⟨tail, s₂, htail, h⟩ := exists_of_bind_eq_ok h
      obtain ⟨hsize, -⟩ := size_of_readBytes_ok hends htail
      cases hplace : EndRecord.place? tail with
      | none =>
          rw [hplace] at h
          cases h
      | some place =>
          rw [hplace] at h
          cases h
          have hle := (EndRecord.place?_eq_some_iff.1 hplace).le
          omega

variable (hn : n < 2 ^ 63) (hsize : reader.size < 2 ^ 64)

include hn hsize

theorem findEndRecordChecked_eq : findEndRecordChecked n reader = (findEndRecord reader).mapError .fails := by
  have hlength : EndRecord.length = 22 := rfl
  have htail : tailLength = 65557 := rfl
  have hcomment : EndRecord.maxComment = 65535 := rfl
  rw [findEndRecordChecked, findEndRecord]
  by_cases hshort : reader.size < EndRecord.length
  · rw [if_pos hshort, if_pos hshort]
    rfl
  · rw [if_neg hshort, if_neg hshort, demand_bind (difference?_of_le (Nat.le_of_not_lt hshort))]
    -- Once this read went well, the reported length is no more than the source has.
    refine readBytesChecked_bind hends hn (by omega) (by omega) fun last hlast hwithin => ?_
    have hstands : EndRecord.StandsAt last 0 ↔
        numberAt last 0 4 = EndRecord.signature ∧ numberAt last 20 2 = 0 := by
      rw [EndRecord.StandsAt, hlast, Nat.zero_add, Nat.sub_zero, Nat.sub_self]
    rw [demand_bind (number?_of_le (by omega)), demand_bind (number?_of_le (by omega))]
    by_cases hfound : EndRecord.StandsAt last 0
    · rw [if_pos hfound, if_pos (hstands.1 hfound), EndRecord.parseChecked_eq, EndRecord.parse,
        if_neg (not_or.2 ⟨by omega, not_not_intro hfound.1⟩)]
      rfl
    · rw [if_neg hfound, if_neg (mt hstands.2 hfound), demand_bind (sum?_of_lt (by omega)),
        demand_bind (difference?_of_le (Nat.min_le_right _ _)), demand_bind (allocate?_of_le (by omega)),
        show reader.size - min (EndRecord.maxComment + EndRecord.length) reader.size = reader.size - tailLength by
          omega,
        show EndRecord.maxComment + EndRecord.length = tailLength from Nat.add_comm _ _]
      refine readBytesChecked_bind hends hn (by omega) (by omega) fun tail hwidth _ => ?_
      rw [EndRecord.placeChecked_eq (by omega) (by omega), wellFormedChecked_ok_bind]
      cases hplace : EndRecord.place? tail with
      | none => rfl
      | some place =>
          have hlast := EndRecord.place?_eq_some_iff.1 hplace
          have hle := hlast.le
          simp only
          rw [EndRecord.atChecked_eq (by omega) hlast, wellFormedChecked_ok_bind,
            demand_bind (sum?_of_lt (by omega))]
          rfl

theorem readWideEndRecordChecked_eq {endOffset : Nat} (hend : endOffset < 2 ^ 63) :
    readWideEndRecordChecked reader endOffset = (readWideEndRecord reader endOffset).mapError .fails := by
  have hlocator : Locator.length = 20 := rfl
  have hwide : WideEndRecord.length = 56 := rfl
  rw [readWideEndRecordChecked, readWideEndRecord]
  by_cases hshort : endOffset < Locator.length
  · rw [if_pos hshort, difference?, if_neg (Nat.not_le.2 hshort)]
    rfl
  · rw [if_neg hshort, difference?_of_le (Nat.le_of_not_lt hshort)]
    refine readBytesChecked_bind hends hn (by omega) (by omega) fun b _ _ => ?_
    rw [Locator.parseChecked_eq, wellFormedChecked_mapError, mapError_bind]
    refine bind_congr fun locator => ?_
    have hlt := locator.offset.toNat_lt
    by_cases hsum : locator.offset.toNat + WideEndRecord.length < 2 ^ 64
    · rw [sum?_of_lt hsum]
      simp only
      by_cases hout : reader.size < locator.offset.toNat + WideEndRecord.length
      · rw [if_pos hout, if_pos hout]
        rfl
      · rw [if_neg hout, if_neg hout]
        refine readBytesChecked_bind hends hn (by omega) (by omega) fun b _ _ => ?_
        rw [WideEndRecord.parseChecked_eq, wellFormedChecked_mapError]
    · rw [sum?, if_neg hsum, if_pos (by omega)]
      rfl

theorem findDirectoryChecked_eq (record : EndRecord) {endOffset : Nat} (hend : endOffset < 2 ^ 63) :
    findDirectoryChecked reader record endOffset = (findDirectory reader record endOffset).mapError .fails := by
  rw [findDirectoryChecked, findDirectory]
  by_cases hwide : record.IsWide
  · rw [if_pos hwide, if_pos hwide, readWideEndRecordChecked_eq hends hn hsize hend, mapError_bind]
    rfl
  · rw [if_neg hwide, if_neg hwide]
    rfl

end Ends

/-! ### Content -/

namespace Content

/-- What of the content is still to be read is a sound range. -/
abbrev HasSoundRange (t : Content × σ) : Prop := t.1.range.IsSound

def readChecked (reader : Reader σ) (length : Nat) : Action (Halt IoError) (Content × σ) ByteArray
  | (.stored range, s) =>
    match Range.readChecked reader length (range, s) with
    | (result, range, s) => (result, .stored range, s)
  | (.deflate inflating, s) =>
    match Deflate.Inflating.readChecked reader length (inflating, s) with
    | (result, inflating, s) => (result, .deflate inflating, s)

theorem checks_read (reader : Reader σ) (length : Nat) :
    Checks HasSoundRange (readChecked reader length) (read reader length) := by
  rintro ⟨c, s⟩
  cases c with
  | stored range =>
      rcases Range.checks_read reader length (range, s) with ⟨hread, hsound⟩ | ⟨hout, hnot⟩
      · simp only [readChecked, hread]
        exact .inl ⟨rfl, hsound⟩
      · exact .inr ⟨hout, hnot⟩
  | deflate inflating =>
      rcases Deflate.Inflating.checks_read reader length (inflating, s) with
        ⟨hread, hsound⟩ | ⟨hout, hnot⟩
      · simp only [readChecked, hread]
        exact .inl ⟨rfl, hsound⟩
      · exact .inr ⟨hout, hnot⟩

theorem hasSoundRange_after (reader : Reader σ) {t : Content × σ} (h : HasSoundRange t) (lengths : List Nat) :
    HasSoundRange ((stream reader).after lengths t) := by
  induction lengths generalizing t with
  | nil => exact h
  | cons length lengths ih => exact ih ((checks_read reader length).keeps h)

end Content

/-! ### Archives -/

/-- `parseDirectory`, looking at its steps. -/
def parseDirectoryChecked (dir : ByteArray) (count : Nat) : Except (Halt Malformed) (List Entry) :=
  parseRecordsChecked dir count 0 0

namespace Archive

/-- `ofReader`, looking at its steps. Neither the directory nor the list of its entries is to take up more than
`most` at first. -/
def ofReaderChecked (most : Nat) (reader : Reader σ) : Action (Halt Error) σ (Archive σ) := do
  let (record, endOffset) ← findEndRecordChecked most reader
  let extent ← findDirectoryChecked reader record endOffset
  match sum? extent.offset extent.size with
  | none => malformedChecked (.directoryOverrun extent.size extent.offset endOffset)
  | some stop =>
    if endOffset < stop then malformedChecked (.directoryOverrun extent.size extent.offset endOffset)
    else
      let _ ← demand (allocate? most extent.size)
      let directory ← readBytesChecked reader extent.offset extent.size
      let _ ← demand (allocate? most (min extent.count (extent.size / Entry.recordLength)))
      return ⟨reader, ← wellFormedChecked (parseDirectoryChecked directory extent.count)⟩

def contentChecked (a : Archive σ) (e : Entry) : Action (Halt Error) σ Content := do
  match e.unsupported? with
  | some cause => throw (.fails (.unsupportedEntry e.name cause))
  | none =>
    let offset := e.headerOffset.toNat
    let header ← readBytesChecked a.reader offset localHeaderLength
    let signature ← demand (number? header 0 4)
    if signature ≠ localHeaderSignature then throw (.fails (.io (.badLocalHeader e.name)))
    else
      let nameLength ← demand (number? header 26 2)
      let extraLength ← demand (number? header 28 2)
      let nameStart ← demand (sum? offset localHeaderLength)
      let extraStart ← demand (sum? nameStart nameLength)
      return .ofEntry e (← demand (sum? extraStart extraLength))

/-- The content as a stream whose reads look at their steps. -/
def watchedStream (reader : Reader σ) : Stream (Option (Content × σ)) :=
  (Content.stream reader).watched (Content.readChecked reader) (Content.checks_read reader)

theorem matches_watchedStream (length : Nat) : Matches (Stream.IsWatched Content.HasSoundRange)
    ((Content.stream reader).read length) ((watchedStream reader).read length) :=
  Stream.matches_watched (Content.checks_read reader) length

def readContentChecked {α : Type} (c : Content) (p : Action IoError (Option (Content × σ)) α) :
    Action (Halt Error) σ α :=
  fun s => match p (some (c, s)) with
    | (_, none) => (.error .outOfRange, s)
    | (result, some (_, s)) => (result.mapError fun e => .fails (.io e), s)

def readEntryChecked (a : Archive σ) (e : Entry) : Action (Halt Error) σ ByteArray := do
  let length := e.uncompressedSize.toNat
  let c ← a.contentChecked e
  let b ← readContentChecked c ((watchedStream a.reader).readToEnd length (min (length + 1) addressMax))
  MonadExcept.ofExcept ((verified e b).mapError .fails)

section Ends

variable (hends : reader.EndsBy n) (hn : n < 2 ^ 63)

include hends hn

theorem ofReaderChecked_eq (hsize : reader.size < 2 ^ 64) :
    ofReaderChecked n reader = (ofReader reader).mapError .fails := by
  rw [ofReaderChecked, ofReader, findEndRecordChecked_eq hends hn hsize, mapError_bind]
  refine Action.bind_congr_of_ok fun found s s' hfound => ?_
  obtain ⟨record, endOffset⟩ := found
  have hend := le_of_findEndRecord_ok hends (exists_of_mapError_ok hfound)
  have hlength : EndRecord.length = 22 := rfl
  simp only
  rw [findDirectoryChecked_eq hends hn hsize record (by omega), mapError_bind]
  refine bind_congr fun extent => ?_
  by_cases hover : endOffset < extent.offset + extent.size
  · rw [if_pos hover]
    by_cases hsum : extent.offset + extent.size < 2 ^ 64
    · rw [sum?_of_lt hsum]
      simp only
      rw [if_pos hover]
      rfl
    · rw [sum?, if_neg hsum]
      rfl
  · rw [if_neg hover, sum?_of_lt (by omega)]
    simp only
    rw [if_neg hover, demand_bind (allocate?_of_le (by omega))]
    refine readBytesChecked_bind hends hn (by omega) (by omega) fun directory hdirectory _ => ?_
    have hcapacity : min extent.count (extent.size / Entry.recordLength) ≤ n :=
      Nat.le_trans (Nat.min_le_right _ _) (Nat.le_trans (Nat.div_le_self _ _) (by omega))
    rw [demand_bind (allocate?_of_le hcapacity), parseDirectoryChecked,
      parseRecordsChecked_eq (by omega) _ _ (Nat.zero_le _), wellFormedChecked_mapError, mapError_bind]
    rfl

theorem contentChecked_eq {a : Archive σ} (ha : a.reader = reader) (e : Entry) :
    a.contentChecked e = (a.content e).mapError .fails := by
  subst ha
  unfold contentChecked content
  cases e.unsupported? with
  | some cause => rfl
  | none =>
      have hoffset := e.headerOffset.toNat_lt
      have hheader : localHeaderLength = 30 := rfl
      -- The offset may be any number, but the header was read there.
      refine readBytesChecked_bind hends hn hoffset (by omega) fun header hlength hwithin => ?_
      have hname := numberAt_lt header 26 2
      have hextra := numberAt_lt header 28 2
      rw [demand_bind (number?_of_le (by omega))]
      by_cases hsignature : numberAt header 0 4 ≠ localHeaderSignature
      · rw [if_pos hsignature, if_pos hsignature]
        rfl
      · rw [if_neg hsignature, if_neg hsignature, demand_bind (number?_of_le (by omega)),
          demand_bind (number?_of_le (by omega)), demand_bind (sum?_of_lt (by omega)),
          demand_bind (sum?_of_lt (by omega)), demand_bind (sum?_of_lt (by omega))]
        rfl

theorem isSound_of_content_ok {a : Archive σ} (ha : a.reader = reader) {e : Entry} {c : Content} {s s' : σ}
    (hc : a.content e s = (.ok c, s')) : c.range.IsSound := by
  subst ha
  obtain ⟨-, header, hread, -, rfl⟩ := exists_of_content_ok hc
  have hwithin := (hends.readExact hread).2
  have hheader : localHeaderLength = 30 := rfl
  have hname := numberAt_lt header 26 2
  have hextra := numberAt_lt header 28 2
  have hmax : addressMax = 2 ^ 64 - 1 := rfl
  rw [Content.range_ofEntry]
  exact Range.isSound_ofLength (by omega) _

end Ends

theorem readContentChecked_eq {α : Type} {c : Content} (hc : c.range.IsSound)
    {p : Action IoError (Content × σ) α} {q : Action IoError (Option (Content × σ)) α}
    (h : Matches (Stream.IsWatched Content.HasSoundRange) p q) :
    readContentChecked c q = (readContent c p).mapError .fails := by
  funext s
  cases hp : p (c, s) with
  | mk result t =>
      obtain ⟨x, hq, rfl, -⟩ := h.exists_eq (t := some (c, s)) ⟨rfl, hc⟩ hp
      simp only [readContentChecked, readContent, Action.mapError, hp, hq]
      cases result <;> rfl

theorem readEntryChecked_eq (hends : reader.EndsBy n) (hn : n < 2 ^ 63) {a : Archive σ} (ha : a.reader = reader)
    (e : Entry) : a.readEntryChecked e = (a.readEntry e).mapError .fails := by
  rw [readEntryChecked, readEntry_eq_bind, contentChecked_eq hends hn ha, mapError_bind]
  refine Action.bind_congr_of_ok fun c s s' hc => ?_
  have hsound := isSound_of_content_ok hends hn ha (exists_of_mapError_ok hc)
  rw [readContentChecked_eq hsound (Stream.matches_readToEnd matches_watchedStream _ _), mapError_bind]
  refine bind_congr fun b => ?_
  cases verified e b <;> rfl

/-- No step ever goes out of range: whatever length the source reports, whatever numbers its records hold and
whichever entries are asked for, the programs that look at their steps come to what the others come to. The
directory is never larger than the source, and a stream is never beyond its end. -/
theorem never_out_of_range (hn : n < 2 ^ 63) (hends : reader.EndsBy n) (hsize : reader.size < 2 ^ 64) :
    (∀ offset length, offset < 2 ^ 64 → length < 2 ^ 63 →
      reader.readExactChecked offset length = (reader.readExact offset length).mapError .fails) ∧
    ofReaderChecked n reader = (ofReader reader).mapError .fails ∧
    ∀ a : Archive σ, a.reader = reader → ∀ e : Entry,
      a.contentChecked e = (a.content e).mapError .fails ∧
      a.readEntryChecked e = (a.readEntry e).mapError .fails ∧
      ∀ c s s', a.content e s = (.ok c, s') → ∀ lengths : List Nat,
        let t := (Content.stream reader).after lengths (c, s')
        t.1.range.pos ≤ t.1.range.stop ∧ t.1.range.stop ≤ addressMax ∧
          ∀ length, Content.readChecked reader length t = (Content.read reader length).mapError .fails t := by
  refine ⟨fun offset length hoffset hlength => Reader.readExactChecked_eq hends hn hoffset hlength,
    ofReaderChecked_eq hends hn hsize, fun a ha e => ?_⟩
  refine ⟨contentChecked_eq hends hn ha e, readEntryChecked_eq hends hn ha e, fun c s s' hc lengths => ?_⟩
  have hsound := Content.hasSoundRange_after reader (t := (c, s'))
    (isSound_of_content_ok hends hn ha hc) lengths
  exact ⟨hsound.pos_le, hsound.stop_le, fun length => (Content.checks_read reader length).eq hsound⟩

section Lying

/-- A file in memory that reports the largest length there is. -/
def lyingReader : Reader Unit := { memoryReader Unit Container.smallNote.bytes with size := 2 ^ 64 - 1 }

/-- The entry of the file, as a caller may have changed it. -/
def endlessEntry : Entry :=
  { Container.smallNote.entry 0 with
    compressedSize := 0xFFFFFFFFFFFFFFFF
    uncompressedSize := 0xFFFFFFFFFFFFFFFF }

theorem gives_lyingReader : lyingReader.Gives Container.smallNote.bytes :=
  (Reader.serves_memoryReader Unit Container.smallNote.bytes).answers

theorem ofReader_lyingReader :
    (ofReader lyingReader ()).1 = .error (.io (.shortRead 0xFFFFFFFFFFFFFFE9 22 0)) := by
  obtain ⟨s, hread⟩ := gives_lyingReader.readExact 0xFFFFFFFFFFFFFFE9 22 ()
  have hsize : Container.smallNote.bytes.size = 36 := by decide +kernel
  rw [readExactly, if_neg (by omega), hsize] at hread
  have hlast : readBytes lyingReader (lyingReader.size - EndRecord.length) EndRecord.length () =
      (.error (.io (.shortRead 0xFFFFFFFFFFFFFFE9 22 0)), s) := mapError_error hread
  have hlong : ¬ lyingReader.size < EndRecord.length := by decide
  rw [ofReader, findEndRecord, if_neg hlong, bind_error (bind_error hlast)]

theorem content_endlessEntry :
    (content ⟨lyingReader, []⟩ endlessEntry ()).1 = .ok (.deflate (.ofRange ⟨30, addressMax⟩)) := by
  have hmemory := Reader.serves_memoryReader Unit Container.smallNote.bytes
  obtain ⟨s, hcontent⟩ := content_of_holds (a := inMemory Container.smallNote.bytes) (e := endlessEntry)
    hmemory.holds (by decide +kernel) (by decide +kernel) (by decide +kernel) ()
  have hstart : dataStart Container.smallNote.bytes endlessEntry = 30 := by decide +kernel
  have hagrees := agrees_content_of_gives (a := ⟨lyingReader, []⟩) gives_lyingReader
    (gives_inMemory Container.smallNote.bytes) endlessEntry
  rw [hagrees () (), hcontent, hstart]
  rfl

/-- The file cannot be opened, and its changed entry, which would run up to the largest address, is read as
far as the file goes; neither is out of range. -/
theorem never_out_of_range_lying :
    lyingReader.size = 2 ^ 64 - 1 ∧
      (ofReaderChecked 36 lyingReader ()).1 = .error (.fails (.io (.shortRead 0xFFFFFFFFFFFFFFE9 22 0))) ∧
      (contentChecked ⟨lyingReader, []⟩ endlessEntry ()).1 = .ok (.deflate (.ofRange ⟨30, addressMax⟩)) ∧
      ∀ s lengths, let t := (Content.stream lyingReader).after lengths (.deflate (.ofRange ⟨30, addressMax⟩), s)
        t.1.range.pos ≤ t.1.range.stop ∧ t.1.range.stop ≤ addressMax := by
  have hends : lyingReader.EndsBy 36 := gives_lyingReader.isTruthful.endsBy
  obtain ⟨-, hopen, hentry⟩ := never_out_of_range (by decide) hends (by decide)
  have hcontent := content_endlessEntry
  obtain ⟨hchecked, -, hstream⟩ := hentry ⟨lyingReader, []⟩ rfl endlessEntry
  refine ⟨rfl, ?_, ?_, fun s' lengths => ?_⟩
  · rw [hopen]
    exact congrArg (Except.mapError Halt.fails) ofReader_lyingReader
  · rw [hchecked]
    exact congrArg (Except.mapError Halt.fails) hcontent
  · obtain ⟨hpos, hstop, -⟩ := hstream _ () s' (Prod.ext hcontent rfl) lengths
    exact ⟨hpos, hstop⟩

end Lying

end Archive

end DexArchive.Zip
