import DexArchive.Proofs.Deflate.Matching
import DexArchive.Proofs.Packing
import DexArchive.Proofs.Recording
import DexArchive.Proofs.Zip.EndRecord
import DexArchive.Proofs.Zip.Splitting

/-! Which bytes matter. The entries of an archive are a function of the end of its bytes, of the records that
the end record refers to, and of the directory that these name; what is read of an entry is one of its local
header and of its data. Bytes elsewhere are never seen, and while content is read they are not asked for. -/

namespace DexArchive

open DexArchive.Action

/-! ### The entries -/

namespace Zip

/-- The wide end record of an end record at `endOffset`. -/
def wideEndRecordIn (d : ByteArray) (endOffset : Nat) : Except Malformed WideEndRecord :=
  if endOffset < Locator.length then .error .noLocator
  else do
    let locator ← Locator.parse (slice d (endOffset - Locator.length) Locator.length)
    if d.size < locator.offset.toNat + WideEndRecord.length then .error .wideEndRecordOutOfBounds
    else WideEndRecord.parse (slice d locator.offset.toNat WideEndRecord.length)

/-- Where the directory of an end record at `endOffset` is. -/
def extentIn (d : ByteArray) (record : EndRecord) (endOffset : Nat) : Except Malformed Extent :=
  if record.IsWide then do return (← wideEndRecordIn d endOffset).extent else .ok record.extent

/-- The entries that an end record at `endOffset` leads to. -/
def entriesAt (d : ByteArray) (record : EndRecord) (endOffset : Nat) : Except Malformed (List Entry) := do
  let extent ← extentIn d record endOffset
  if endOffset < extent.offset + extent.size then
    .error (.directoryOverrun extent.size extent.offset endOffset)
  else parseDirectory (slice d extent.offset extent.size) extent.count

/-- The entries of the archive in given bytes. -/
def entriesIn (d : ByteArray) : Except Malformed (List Entry) := do
  let (record, endOffset) ← EndRecord.search d
  entriesAt d record endOffset

theorem bind_congr_of_ok {ε α β : Type} {x : Except ε α} {f g : α → Except ε β}
    (h : ∀ a, x = .ok a → f a = g a) : (x >>= f) = (x >>= g) := by
  cases x with
  | error e => rfl
  | ok a => exact h a rfl

/-- The computation comes to `x`, whatever state it begins in. -/
def Computes {σ α : Type} (p : Action Error σ α) (x : Except Malformed α) : Prop :=
  ∀ s, ∃ s', p s = (x.mapError (.notAnArchive none), s')

section Computes

variable {σ α β : Type} {reader : Reader σ} {d : ByteArray}

theorem Computes.bind {p : Action Error σ α} {x : Except Malformed α} {f : α → Action Error σ β}
    {g : α → Except Malformed β} (hp : Computes p x) (hfg : ∀ a, x = .ok a → Computes (f a) (g a)) :
    Computes (p >>= f) (x >>= g) := by
  intro s
  obtain ⟨s', hps⟩ := hp s
  cases x with
  | error cause => exact ⟨s', bind_error hps⟩
  | ok a =>
      obtain ⟨s'', hfs⟩ := hfg a rfl s'
      exact ⟨s'', (bind_ok hps).trans hfs⟩

theorem computes_pure (a : α) : Computes (pure a : Action Error σ α) (.ok a) := fun s => ⟨s, rfl⟩

theorem computes_wellFormed (x : Except Malformed α) : Computes (wellFormed x : Action Error σ α) x := by
  intro s
  cases x <;> exact ⟨s, rfl⟩

theorem computes_readBytes_bind (h : reader.Holds d) {offset length : Nat} (hle : offset + length ≤ d.size)
    {f : ByteArray → Action Error σ β} {x : Except Malformed β} (hf : Computes (f (slice d offset length)) x) :
    Computes (readBytes reader offset length >>= f) x := by
  intro s
  obtain ⟨s', hread⟩ := readBytes_of_holds h hle s
  rw [bind_ok hread]
  exact hf s'

theorem computes_readWideEndRecord (h : reader.Holds d) {endOffset : Nat} (hend : endOffset ≤ d.size) :
    Computes (readWideEndRecord reader endOffset) (wideEndRecordIn d endOffset) := by
  rw [readWideEndRecord, wideEndRecordIn, h.size_eq]
  by_cases hshort : endOffset < Locator.length
  · rw [if_pos hshort, if_pos hshort]
    exact computes_wellFormed _
  · rw [if_neg hshort, if_neg hshort]
    refine computes_readBytes_bind h (by omega) ((computes_wellFormed _).bind fun locator _ => ?_)
    by_cases hout : d.size < locator.offset.toNat + WideEndRecord.length
    · rw [if_pos hout, if_pos hout]
      exact computes_wellFormed _
    · rw [if_neg hout, if_neg hout]
      exact computes_readBytes_bind h (by omega) (computes_wellFormed _)

theorem computes_findDirectory (h : reader.Holds d) (record : EndRecord) {endOffset : Nat}
    (hend : endOffset ≤ d.size) :
    Computes (findDirectory reader record endOffset) (extentIn d record endOffset) := by
  rw [findDirectory, extentIn]
  by_cases hwide : record.IsWide
  · rw [if_pos hwide, if_pos hwide]
    exact (computes_readWideEndRecord h hend).bind fun wide _ => computes_pure _
  · rw [if_neg hwide, if_neg hwide]
    exact computes_pure _

/-- Opening an archive gives the entries that are in its bytes, or tells why they are none. -/
theorem computes_readDirectory (h : reader.Holds d) :
    Computes (Archive.readDirectory reader) (entriesIn d) := by
  rw [Archive.readDirectory, entriesIn]
  refine Computes.bind (findEndRecord_of_holds h) ?_
  rintro ⟨record, endOffset⟩ hsearch
  have hle := (EndRecord.search_eq_ok_iff.1 hsearch).1.le
  refine (computes_findDirectory h record (by omega)).bind fun extent _ => ?_
  by_cases hover : endOffset < extent.offset + extent.size
  · rw [if_pos hover, if_pos hover]
    exact computes_wellFormed _
  · rw [if_neg hover, if_neg hover]
    exact computes_readBytes_bind h (by omega) (computes_wellFormed _)

end Computes

/-- The same bytes at the end, in the records that the end record refers to, and in the directory that these
name. -/
structure SameEnd (d d' : ByteArray) : Prop where
  size_eq : d.size = d'.size
  tail_eq : slice d (d.size - tailLength) (min tailLength d.size) =
    slice d' (d'.size - tailLength) (min tailLength d'.size)
  locator_eq : ∀ record endOffset, EndRecord.search d = .ok (record, endOffset) → record.IsWide →
    Locator.length ≤ endOffset →
      slice d (endOffset - Locator.length) Locator.length = slice d' (endOffset - Locator.length) Locator.length
  wide_eq : ∀ record endOffset locator, EndRecord.search d = .ok (record, endOffset) → record.IsWide →
    Locator.length ≤ endOffset →
    Locator.parse (slice d (endOffset - Locator.length) Locator.length) = .ok locator →
    locator.offset.toNat + WideEndRecord.length ≤ d.size →
      slice d locator.offset.toNat WideEndRecord.length = slice d' locator.offset.toNat WideEndRecord.length
  directory_eq : ∀ record endOffset extent, EndRecord.search d = .ok (record, endOffset) →
    extentIn d record endOffset = .ok extent → extent.offset + extent.size ≤ endOffset →
      slice d extent.offset extent.size = slice d' extent.offset extent.size

namespace SameEnd

variable {d d' : ByteArray}

/-- The end record that counts is in the last bytes, with all that there is of it. -/
theorem search_eq (h : SameEnd d d') : EndRecord.search d = EndRecord.search d' := by
  have htail := h.tail_eq
  have hwidth : d.size - (d.size - tailLength) = min tailLength d.size := by omega
  have hplace := EndRecord.place?_eq_map_place?_slice d
  have hplace' := EndRecord.place?_eq_map_place?_slice d'
  rw [hwidth] at hplace
  rw [← h.size_eq] at hplace' htail
  rw [hwidth, ← htail] at hplace'
  unfold EndRecord.search
  rw [hplace, hplace', h.size_eq]
  cases hfound : EndRecord.place? (slice d (d'.size - tailLength) (min tailLength d'.size)) with
  | none => rfl
  | some place =>
      -- The place is the same; so is the record, which ends before the last bytes do.
      have hle := (EndRecord.place?_eq_some_iff.1 hfound).le
      rw [size_slice] at hle
      have hbound : place + EndRecord.length ≤ min tailLength d'.size := by omega
      have hrecord : EndRecord.ofBytesAt (slice d (d'.size - tailLength) (min tailLength d'.size)) place =
          EndRecord.ofBytesAt (slice d' (d'.size - tailLength) (min tailLength d'.size)) place := by
        rw [← h.size_eq, htail]
      rw [EndRecord.ofBytesAt_slice hbound, EndRecord.ofBytesAt_slice hbound] at hrecord
      simp only [Option.map_some, hrecord]

section Found

variable {record : EndRecord} {endOffset : Nat} (h : SameEnd d d')
  (hsearch : EndRecord.search d = .ok (record, endOffset))

include h hsearch

theorem wideEndRecordIn_eq (hwide : record.IsWide) :
    wideEndRecordIn d endOffset = wideEndRecordIn d' endOffset := by
  unfold wideEndRecordIn
  by_cases hshort : endOffset < Locator.length
  · rw [if_pos hshort, if_pos hshort]
  · rw [if_neg hshort, if_neg hshort]
    have hlocator := h.locator_eq record endOffset hsearch hwide (Nat.le_of_not_lt hshort)
    rw [← hlocator, ← h.size_eq]
    refine bind_congr_of_ok fun locator hparse => ?_
    by_cases hout : d.size < locator.offset.toNat + WideEndRecord.length
    · rw [if_pos hout, if_pos hout]
    · rw [if_neg hout, if_neg hout, h.wide_eq record endOffset locator hsearch hwide (Nat.le_of_not_lt hshort)
        hparse (Nat.le_of_not_lt hout)]

theorem extentIn_eq : extentIn d record endOffset = extentIn d' record endOffset := by
  unfold extentIn
  by_cases hwide : record.IsWide
  · rw [if_pos hwide, if_pos hwide, h.wideEndRecordIn_eq hsearch hwide]
  · rw [if_neg hwide, if_neg hwide]

theorem entriesAt_eq : entriesAt d record endOffset = entriesAt d' record endOffset := by
  unfold entriesAt
  rw [← h.extentIn_eq hsearch]
  refine bind_congr_of_ok fun extent hextent => ?_
  by_cases hover : endOffset < extent.offset + extent.size
  · rw [if_pos hover, if_pos hover]
  · rw [if_neg hover, if_neg hover,
      h.directory_eq record endOffset extent hsearch hextent (Nat.le_of_not_lt hover)]

end Found

theorem entriesIn_eq (h : SameEnd d d') : entriesIn d = entriesIn d' := by
  unfold entriesIn
  rw [← h.search_eq]
  refine bind_congr_of_ok ?_
  rintro ⟨record, endOffset⟩ hsearch
  exact h.entriesAt_eq hsearch

end SameEnd

variable {σ τ : Type} {d d' : ByteArray}

/-- Archives that are the same where their entries come from have the same entries. -/
theorem ofReader_of_sameEnd {reader : Reader σ} {reader' : Reader τ} (h : reader.Holds d)
    (h' : reader'.Holds d') (hsame : SameEnd d d') (s : σ) (t : τ) :
    (Archive.ofReader reader s).1.map Archive.entries =
      (Archive.ofReader reader' t).1.map Archive.entries := by
  obtain ⟨s', hread⟩ := computes_readDirectory h s
  obtain ⟨t', hread'⟩ := computes_readDirectory h' t
  rw [← hsame.entriesIn_eq] at hread'
  rw [Archive.ofReader_of_readDirectory hread, Archive.ofReader_of_readDirectory hread']
  cases entriesIn d <;> rfl

/-! ### What is read of an entry -/

namespace Content

/-- The part of the archive's bytes that is still to be read. -/
def range : Content → Range
  | stored range => range
  | deflate inflating => inflating.range

theorem range_ofEntry (e : Entry) (start : Nat) :
    (ofEntry e start).range = Range.ofLength start e.compressedSize.toNat := by
  unfold ofEntry
  cases e.method <;> rfl

theorem inside_ofEntry (e : Entry) (start : Nat) :
    (ofEntry e start).range.Inside start (start + e.compressedSize.toNat) := by
  rw [range_ofEntry]
  exact ⟨Nat.le_refl _, Nat.min_le_left _ _⟩

variable {R : σ → τ → Prop} {start stop : Nat} {reader : Reader σ} {reader' : Reader τ}

/-- States of the same content, all of it from `start` to `stop`. -/
abbrev Paired (start stop : Nat) (R : σ → τ → Prop) : Content × σ → Content × τ → Prop :=
  Beside (fun c => c.range.Inside start stop) R

theorem matches_read (h : reader.MatchesOn R reader' start stop) (length : Nat) :
    Matches (Paired start stop R) (read reader length) (read reader' length) := by
  rintro ⟨c, s⟩ ⟨c', t⟩ ⟨heq, hinside, hst⟩
  obtain rfl : c = c' := heq
  cases c with
  | stored range =>
      cases hread : Range.read reader length (range, s) with
      | mk result x =>
          obtain ⟨⟨range', t'⟩, hread', hrange, hinside', hst'⟩ :=
            (Range.matches_read h length).exists_eq (t := (range, t)) ⟨rfl, hinside, hst⟩ hread
          obtain rfl : x.1 = range' := hrange
          simp only [read, hread, hread']
          exact ⟨trivial, rfl, hinside', hst'⟩
  | deflate z =>
      cases hread : Deflate.Inflating.read reader length (z, s) with
      | mk result x =>
          obtain ⟨⟨z', t'⟩, hread', hz, hinside', hst'⟩ :=
            (Deflate.Inflating.matches_read h length).exists_eq (t := (z, t)) ⟨rfl, hinside, hst⟩ hread
          obtain rfl : x.1 = z' := hz
          simp only [read, hread, hread']
          exact ⟨trivial, rfl, hinside', hst'⟩

end Content

namespace Archive

/-- The same bytes in the local header of an entry and in its data. -/
structure SameEntry (d d' : ByteArray) (e : Entry) : Prop where
  size_eq : d.size = d'.size
  header_eq : slice d e.headerOffset.toNat localHeaderLength = slice d' e.headerOffset.toNat localHeaderLength
  data_eq : slice d (dataStart d e) e.compressedSize.toNat = slice d' (dataStart d e) e.compressedSize.toNat

namespace SameEntry

variable {e : Entry} (h : SameEntry d d' e)

include h

theorem dataStart_eq : dataStart d e = dataStart d' e := by
  rw [← dataStart_eq_slice, h.header_eq, dataStart_eq_slice]

theorem dataOf_eq : dataOf d e = dataOf d' e := by
  have hle : dataStart d e + (Range.ofLength (dataStart d e) e.compressedSize.toNat).remaining ≤
      dataStart d e + e.compressedSize.toNat := by
    have hstop : (Range.ofLength (dataStart d e) e.compressedSize.toNat).stop ≤
        dataStart d e + e.compressedSize.toNat := Nat.min_le_left _ _
    have hpos : (Range.ofLength (dataStart d e) e.compressedSize.toNat).pos = dataStart d e := rfl
    unfold Range.remaining
    omega
  rw [dataOf, dataOf, ← h.dataStart_eq]
  exact slice_eq_of_slice_eq h.data_eq (Nat.le_refl _) hle

theorem isCutAtEnd_iff : IsCutAtEnd d e ↔ IsCutAtEnd d' e := by
  rw [IsCutAtEnd, IsCutAtEnd, IsCutOff, IsCutOff, h.dataOf_eq, h.dataStart_eq, h.size_eq]

end SameEntry

/-! ### Sources that are alike -/

section Alike

variable {R : σ → τ → Prop} {a : Archive σ} {a' : Archive τ} {e : Entry} {start stop : Nat}

theorem matches_content (h : a.reader.MatchesOn R a'.reader e.headerOffset.toNat
    (e.headerOffset.toNat + localHeaderLength)) : Matches R (a.content e) (a'.content e) :=
  matches_content_of_readBytes (h.readExact (Nat.le_refl _) (Nat.le_refl _)).mapError

theorem matches_readContent {α : Type} {c : Content} (hc : c.range.Inside start stop)
    {p : Action IoError (Content × σ) α} {q : Action IoError (Content × τ) α}
    (h : Matches (Content.Paired start stop R) p q) : Matches R (readContent c p) (readContent c q) := by
  intro s t hst
  cases hp : p (c, s) with
  | mk result x =>
      obtain ⟨y, hq, -, -, hxy⟩ := h.exists_eq (t := (c, t)) ⟨rfl, hc, hst⟩ hp
      simp only [readContent, hp, hq]
      exact ⟨trivial, hxy⟩

/-- The content that is opened is all from `start` to `stop`. -/
def OpensInside (a : Archive σ) (e : Entry) (start stop : Nat) : Prop :=
  ∀ c s s', a.content e s = (.ok c, s') → c.range.Inside start stop

theorem opensInside_of_isTruthful (h : a.reader.IsTruthful d) (e : Entry) :
    a.OpensInside e (dataStart d e) (dataStart d e + e.compressedSize.toNat) := by
  intro c s s' hc
  obtain ⟨-, rfl⟩ := content_of_isTruthful h hc
  exact Content.inside_ofEntry e (dataStart d e)

variable (hcontent : Matches R (a.content e) (a'.content e)) (hinside : a.OpensInside e start stop)
  (h : a.reader.MatchesOn R a'.reader start stop)

include hcontent hinside h

theorem matches_sniff : Matches R (a.sniff e) (a'.sniff e) := by
  unfold sniff
  exact hcontent.bind_of fun c s s' hc =>
    matches_readContent (hinside c s s' hc) (Stream.matches_sniff (Content.matches_read h))

theorem matches_readEntry : Matches R (a.readEntry e) (a'.readEntry e) := by
  rw [readEntry_eq_bind, readEntry_eq_bind]
  exact hcontent.bind_of fun c s s' hc => (matches_readContent (hinside c s s' hc)
    (Stream.matches_readToEnd (Content.matches_read h) _ _)).bind fun b => matches_ofExcept _

end Alike

/-! ### Sources that hand over in pieces of their own -/

section Pieces

variable {a : Archive σ} {a' : Archive τ} {e : Entry}

/-- An archive that is read from memory. -/
def inMemory (d : ByteArray) : Archive Unit := ⟨memoryReader Unit d, []⟩

theorem gives_inMemory (d : ByteArray) : (inMemory d).reader.Gives d :=
  (Reader.serves_memoryReader Unit d).gives

theorem matches_content_of_sameEntry {R : σ → τ → Prop} (h : a.reader.Alike R d a'.reader d')
    (hsame : SameEntry d d' e) : Matches R (a.content e) (a'.content e) :=
  matches_content (h.matchesOn hsame.header_eq)

theorem matches_sniff_of_sameEntry {R : σ → τ → Prop} (h : a.reader.Alike R d a'.reader d')
    (htrue : a.reader.IsTruthful d) (hsame : SameEntry d d' e) : Matches R (a.sniff e) (a'.sniff e) :=
  matches_sniff (matches_content_of_sameEntry h hsame) (opensInside_of_isTruthful htrue e)
    (h.matchesOn hsame.data_eq)

theorem matches_readEntry_of_sameEntry {R : σ → τ → Prop} (h : a.reader.Alike R d a'.reader d')
    (htrue : a.reader.IsTruthful d) (hsame : SameEntry d d' e) : Matches R (a.readEntry e) (a'.readEntry e) :=
  matches_readEntry (matches_content_of_sameEntry h hsame) (opensInside_of_isTruthful htrue e)
    (h.matchesOn hsame.data_eq)

/-- Between two archives in pieces of their own stand the two in memory, which are alike. -/
theorem readsAlike_of_sameEntry (h : a.reader.Gives d) (h' : a'.reader.Gives d') (hsame : SameEntry d d' e) :
    ReadsAlike d a a' e := by
  have hmemory := Reader.alike_memoryReader Unit Unit d d'
  have htrue := (gives_inMemory d).isTruthful
  have hcontent : Agrees ((inMemory d).content e) ((inMemory d').content e) :=
    (matches_content_of_sameEntry hmemory hsame).agrees
  have hsniff : Agrees ((inMemory d).sniff e) ((inMemory d').sniff e) :=
    (matches_sniff_of_sameEntry hmemory htrue hsame).agrees
  have hread : Agrees ((inMemory d).readEntry e) ((inMemory d').readEntry e) :=
    (matches_readEntry_of_sameEntry hmemory htrue hsame).agrees
  have hleft := reads_alike h (gives_inMemory d) e
  have hright := reads_alike (gives_inMemory d') h' e
  exact {
    content := hleft.content.trans (hcontent.trans hright.content ()) ()
    readEntry := fun hm => (hleft.readEntry hm).trans (hread.trans (hright.readEntry hm) ()) ()
    sniff := fun hm => (hleft.sniff hm).trans (hsniff.trans (hright.sniff hm) ()) ()
    readEntry_ok_iff := by
      intro hm hcut b hmax s t
      have hcut' : ¬ IsCutAtEnd d' e := fun hcutAtEnd => hcut (hsame.isCutAtEnd_iff.2 hcutAtEnd)
      rw [hleft.readEntry_ok_iff hm hcut b hmax s (), hread () (), hright.readEntry_ok_iff hm hcut' b hmax () t]
    sniff_of_readEntry_ok := by
      intro hm hcut b hmax s hok s' t'
      have hcut' : ¬ IsCutAtEnd d' e := fun hcutAtEnd => hcut (hsame.isCutAtEnd_iff.2 hcutAtEnd)
      have hok' := (hleft.readEntry_ok_iff hm hcut b hmax s ()).1 hok
      rw [hread () ()] at hok'
      exact ⟨(hleft.sniff_of_readEntry_ok hm hcut b hmax s hok s' ()).1,
        (hright.sniff_of_readEntry_ok hm hcut' b hmax () hok' () t').2⟩
    eq_of_readEntry_ok := fun s t b b' => readEntry_ok_eq h h' hsame.dataOf_eq
    eq_of_sniff_ok := fun s t v v' => sniff_ok_eq h h' hsame.dataOf_eq }

end Pieces

end Archive

end Zip

/-! ### Where content is read -/

/-- A state of a recorded source beside that of the source, with all its calls from `start` to `stop`. -/
def Recorded.IsInside {σ : Type} (start stop : Nat) (s : σ) (t : Recorded σ) : Prop :=
  t.state = s ∧ ∀ call ∈ t.calls, call.Inside start stop

theorem Reader.matchesOn_recorded {σ : Type} (r : Reader σ) (start stop : Nat) :
    r.MatchesOn (Recorded.IsInside start stop) r.recorded start stop := by
  rintro offset length hstart hstop s t ⟨rfl, hcalls⟩
  refine ⟨rfl, rfl, fun call hmem => ?_⟩
  rcases List.mem_append.1 hmem with hold | hnew
  · exact hcalls call hold
  · rw [List.mem_singleton.1 hnew]
    exact ⟨hstart, hstop⟩

namespace Stream

variable {σ τ : Type} {R : σ → τ → Prop} {st : Stream σ} {st' : Stream τ}

/-- The state after reads of the given lengths, whatever came of them. -/
def after (st : Stream τ) (lengths : List Nat) (t : τ) : τ :=
  lengths.foldl (fun t length => (st.read length t).2) t

theorem after_of_matches (h : ∀ length, Matches R (st.read length) (st'.read length)) (lengths : List Nat)
    {s : σ} {t : τ} (hst : R s t) : R (st.after lengths s) (st'.after lengths t) := by
  induction lengths generalizing s t with
  | nil => exact hst
  | cons length lengths ih => exact ih (h length s t hst).2

end Stream

namespace Zip.Archive

variable {σ : Type} {a : Archive σ} {e : Entry} {start stop : Nat}

/-- However the content of an entry is read, with single reads of any lengths or in one of the ways there
are, all that is asked of the source is from `start` to `stop`. -/
structure ReadsInside (a : Archive σ) (e : Entry) (start stop : Nat) : Prop where
  reads : ∀ c s s', a.content e s = (.ok c, s') → ∀ lengths, ∀ call ∈
    ((Content.stream a.reader.recorded).after lengths (c, .during .content s' [])).2.calls,
      call.Inside start stop
  sniff : ∀ c s s', a.content e s = (.ok c, s') → ∀ call ∈
    (Dex.sniff (Content.stream a.reader.recorded) (c, .during .content s' [])).2.2.calls,
      call.Inside start stop
  readToEnd : ∀ c s s', a.content e s = (.ok c, s') → ∀ length limit, ∀ call ∈
    ((Content.stream a.reader.recorded).readToEnd length limit (c, .during .content s' [])).2.2.calls,
      call.Inside start stop

theorem readsInside_of_opensInside (h : a.OpensInside e start stop) : a.ReadsInside e start stop := by
  have hread : ∀ length, Matches (Content.Paired start stop (Recorded.IsInside start stop))
      ((Content.stream a.reader).read length) ((Content.stream a.reader.recorded).read length) :=
    Content.matches_read (a.reader.matchesOn_recorded start stop)
  have hbefore : ∀ c s s', a.content e s = (.ok c, s') →
      Content.Paired start stop (Recorded.IsInside start stop) (c, s') (c, .during .content s' []) :=
    fun c s s' hc => ⟨rfl, h c s s' hc, rfl, nofun⟩
  exact {
    reads := fun c s s' hc lengths =>
      (Stream.after_of_matches hread lengths (hbefore c s s' hc)).2.2.2
    sniff := fun c s s' hc =>
      (Stream.matches_sniff hread _ _ (hbefore c s s' hc)).2.2.2.2
    readToEnd := fun c s s' hc length limit =>
      (Stream.matches_readToEnd hread length limit _ _ (hbefore c s s' hc)).2.2.2.2 }

/-- Bytes that are neither of an entry nor of what leads to the entries do not matter. Archives that are the
same at the end and in the records that count have the same entries. What is read of an entry is read from its
local header and its data. In archives that are the same there, it is the same for sources that split alike
what they hand over. Sources that split it as they like still open the same, and read the same of what is not
compressed. A compressed content that one can read the other can read as well, unless it is cut at its end, and
neither contents nor verdicts are ever different ones. -/
theorem depends_only_on_parts {d d' : ByteArray} :
    (SameEnd d d' → ∀ {σ τ : Type} {reader : Reader σ} {reader' : Reader τ}, reader.Holds d → reader'.Holds d' →
      ∀ s t, (ofReader reader s).1.map Archive.entries = (ofReader reader' t).1.map Archive.entries) ∧
    ∀ {σ τ : Type} {a : Archive σ} {a' : Archive τ} {e : Entry}, SameEntry d d' e → a.reader.IsTruthful d →
      (∀ R, a.reader.Alike R d a'.reader d' → Matches R (a.content e) (a'.content e) ∧
        Matches R (a.sniff e) (a'.sniff e) ∧ Matches R (a.readEntry e) (a'.readEntry e)) ∧
      (a.reader.Gives d → a'.reader.Gives d' → ReadsAlike d a a' e) ∧
      a.ReadsInside e (dataStart d e) (dataStart d e + e.compressedSize.toNat) := by
  refine ⟨fun hsame σ τ reader reader' h h' => ofReader_of_sameEnd h h' hsame, ?_⟩
  intro σ τ a a' e hsame htrue
  refine ⟨fun R halike => ?_, fun h h' => readsAlike_of_sameEntry h h' hsame,
    readsInside_of_opensInside (opensInside_of_isTruthful htrue e)⟩
  exact ⟨matches_content_of_sameEntry halike hsame, matches_sniff_of_sameEntry halike htrue hsame,
    matches_readEntry_of_sameEntry halike htrue hsame⟩

section Marked

/-- A file after a byte that belongs to nothing. -/
def markedNote (mark : UInt8) : Member := { Container.smallNote with lead := pack [(1, mark.toNat)] }

/-- An archive that begins with that byte, with so much between its directory and its end that the search for
the end record does not come to it. -/
def markedParts (mark : UInt8) : Parts where
  front := Member.bytesOfAll [markedNote mark]
  records := Member.records [markedNote 0] 0
  gap := (List.replicate 0x10000 0).toByteArray
  wide := none
  last := .ofExtent ⟨37, 54, 1⟩ 0
  comment := .empty

theorem bytesOfAll_markedNote (mark : UInt8) :
    Member.bytesOfAll [markedNote mark] = pack [(1, mark.toNat)] ++ Container.smallNote.bytes := by
  have hnote : Container.smallNote.bytes = Container.smallNote.header.bytes ++ Container.smallNote.data :=
    ByteArray.empty_append
  rw [hnote, Member.bytesOfAll_cons]
  exact ByteArray.append_empty

theorem size_front_markedParts (mark : UInt8) : (markedParts mark).front.size = 37 := by
  have hnote : Container.smallNote.bytes.size = 36 := by decide +kernel
  rw [markedParts, bytesOfAll_markedNote, ByteArray.size_append, size_pack, hnote]
  rfl

theorem size_directory_markedParts (mark : UInt8) : (markedParts mark).directory.size = 54 := by
  have hrecords : (DirectoryRecord.bytesOfAll (Member.records [markedNote 0] 0)).size = 54 := by decide +kernel
  exact hrecords

theorem endOffset_markedParts (mark : UInt8) : (markedParts mark).endOffset = 91 + 0x10000 := by
  rw [Parts.endOffset, size_front_markedParts, size_directory_markedParts]
  simp only [markedParts, Parts.wideBytes, List.size_toByteArray, List.length_replicate, ByteArray.size_empty]

theorem size_markedParts (mark : UInt8) : (markedParts mark).bytes.size = 113 + 0x10000 := by
  have hcomment : (markedParts mark).comment.size = 0 := ByteArray.size_empty
  have hlength : EndRecord.length = 22 := rfl
  rw [Parts.size_bytes, endOffset_markedParts]
  omega

/-- The archive is one of the file. -/
def markedPackage (mark : UInt8) : Package where
  toParts := markedParts mark
  size_le := by
    rw [size_markedParts]
    decide
  comment_eq := rfl
  narrow _ := by
    have hextent : (markedParts mark).extent = ⟨37, 54, 1⟩ := by
      rw [Parts.extent, size_front_markedParts, size_directory_markedParts]
      rfl
    rw [hextent]
    exact EndRecord.extent_ofExtent (by decide) (by decide) (by decide) 0
  saturated h := absurd rfl h
  members := [markedNote mark]
  block := .empty
  front_eq := ByteArray.append_empty.symm
  records_eq := rfl
  comment_eq_empty := rfl

theorem bytes_markedParts (mark : UInt8) :
    (markedParts mark).bytes = pack [(1, mark.toNat)] ++ (Container.smallNote.bytes ++
      ((markedParts 0).directory ++ ((markedParts 0).gap ++ ((markedParts 0).wideBytes ++
        ((markedParts 0).last.bytes ++ (markedParts 0).comment))))) := by
  rw [← ByteArray.append_assoc, ← bytesOfAll_markedNote]
  rfl

theorem byteAt_markedParts (mark : UInt8) : byteAt (markedParts mark).bytes 0 = mark := by
  rw [bytes_markedParts, byteAt_mark_append]

theorem slice_markedParts (mark mark' : UInt8) {offset : Nat} (h : 1 ≤ offset) (length : Nat) :
    slice (markedParts mark).bytes offset length = slice (markedParts mark').bytes offset length := by
  rw [bytes_markedParts mark, bytes_markedParts mark', slice_mark_append_eq mark mark' _ h]

theorem search_markedParts (mark : UInt8) :
    EndRecord.search (markedParts mark).bytes = .ok (.ofExtent ⟨37, 54, 1⟩ 0, 91 + 0x10000) := by
  have hlast := (markedPackage mark).toLayout.isLast_of_comment_eq_empty rfl
  have hrecord := EndRecord.ofBytesAt_of_has (markedPackage mark).toLayout.has_last
  have hoffset : (markedPackage mark).endOffset = 91 + 0x10000 := endOffset_markedParts mark
  rw [hoffset] at hlast hrecord
  exact EndRecord.search_eq_ok_iff.2 ⟨hlast, hrecord.symm⟩

theorem sameEnd_markedParts (mark mark' : UInt8) :
    SameEnd (markedParts mark).bytes (markedParts mark').bytes := by
  have hnarrow := EndRecord.extent_ofExtent (x := ⟨37, 54, 1⟩) (by decide) (by decide) (by decide) 0
  have htail : tailLength = 22 + 65535 := rfl
  exact {
    size_eq := (size_markedParts mark).trans (size_markedParts mark').symm
    tail_eq := by
      rw [size_markedParts, size_markedParts]
      exact slice_markedParts mark mark' (by omega) _
    locator_eq := by
      intro record endOffset hsearch hwide
      cases (search_markedParts mark).symm.trans hsearch
      exact absurd hwide hnarrow.1
    wide_eq := by
      intro record endOffset locator hsearch hwide
      cases (search_markedParts mark).symm.trans hsearch
      exact absurd hwide hnarrow.1
    directory_eq := by
      intro record endOffset extent hsearch hextent hinside
      cases (search_markedParts mark).symm.trans hsearch
      rw [extentIn, if_neg hnarrow.1, hnarrow.2] at hextent
      cases hextent
      exact slice_markedParts mark mark' (by decide) _ }

/-- The entry of the file; it begins after the byte. -/
def markedEntry : Entry := (markedNote 0).entry 0

theorem sameEntry_markedParts (mark mark' : UInt8) :
    SameEntry (markedParts mark).bytes (markedParts mark').bytes markedEntry where
  size_eq := (size_markedParts mark).trans (size_markedParts mark').symm
  header_eq := by
    have hoffset : markedEntry.headerOffset = 1 := rfl
    rw [hoffset]
    exact slice_markedParts mark mark' (by decide) _
  data_eq := by
    refine slice_markedParts mark mark' ?_ _
    unfold dataStart
    have hlength : localHeaderLength = 30 := rfl
    omega

/-- The first byte shows neither in the entries nor in the content of the file. -/
theorem depends_only_on_parts_marked :
    byteAt (markedParts 1).bytes 0 = 1 ∧ byteAt (markedParts 2).bytes 0 = 2 ∧
      (ofReader (inMemory (markedParts 1).bytes).reader ()).1.map Archive.entries = .ok [markedEntry] ∧
      (ofReader (inMemory (markedParts 2).bytes).reader ()).1.map Archive.entries = .ok [markedEntry] ∧
      ((inMemory (markedParts 1).bytes).readEntry markedEntry ()).1 = .ok (pack [(1, 0x68)]) ∧
      ((inMemory (markedParts 2).bytes).readEntry markedEntry ()).1 = .ok (pack [(1, 0x68)]) := by
  have hserves := Reader.serves_memoryReader Unit (markedParts 1).bytes
  have hserves' := Reader.serves_memoryReader Unit (markedParts 2).bytes
  obtain ⟨hentries, hentry⟩ := @depends_only_on_parts (markedParts 1).bytes (markedParts 2).bytes
  have hsame := hentries (sameEnd_markedParts 1 2) hserves.holds hserves'.holds () ()
  obtain ⟨halike, -, -⟩ := @hentry _ _ (inMemory (markedParts 1).bytes) (inMemory (markedParts 2).bytes) _
    (sameEntry_markedParts 1 2) hserves.gives.isTruthful
  obtain ⟨-, -, hread⟩ := halike _ (Reader.alike_memoryReader Unit Unit _ _)
  obtain ⟨s, hopen⟩ := (markedPackage 1).ofReader_eq hserves.holds ()
  have hopened : (ofReader (inMemory (markedParts 1).bytes).reader ()).1.map Archive.entries =
      .ok [markedEntry] := by
    rw [show ofReader (inMemory (markedParts 1).bytes).reader () = _ from hopen]
    rfl
  obtain ⟨hin, -⟩ := List.forall₂_cons.1 (markedPackage 1).isIn_entries
  obtain ⟨s', hok⟩ := hin.hasEntry.readEntry (a := inMemory (markedParts 1).bytes)
    (markedPackage 1).size_le hserves.holds ()
  have hok := congrArg Prod.fst hok
  have hok' := (hread () () trivial).1.symm.trans hok
  exact ⟨byteAt_markedParts 1, byteAt_markedParts 2, hopened, hsame.symm.trans hopened, hok, hok'⟩

end Marked

/-! ### What portions tell -/

section Telling

open Deflate Inflating

/-- Bytes in memory that are handed over in portions. How large these are is the first of the bytes. -/
def tellingReader (d : ByteArray) : Reader Unit := portionReader Unit (byteAt d 0).toNat d

/-- Two archives that are opened in this way, and have the same file. They differ in their first byte. -/
structure DifferInMark (a : Annex) (mark mark' : UInt8) : Prop where
  byteAt_eq : byteAt (a.bytes mark) 0 = mark ∧ byteAt (a.bytes mark') 0 = mark'
  sameEntry : SameEntry (a.bytes mark) (a.bytes mark') a.record.entry
  serves : (tellingReader (a.bytes mark)).Serves (a.bytes mark)
  serves' : (tellingReader (a.bytes mark')).Serves (a.bytes mark')
  ofReader_eq : ofReader (tellingReader (a.bytes mark)) () = (.ok (a.archive (tellingReader (a.bytes mark))), ())
  ofReader_eq' : ofReader (tellingReader (a.bytes mark')) () = (.ok (a.archive (tellingReader (a.bytes mark'))), ())

section OfAnnex

variable (a : Annex) {mark mark' : UInt8}

theorem tellingReader_bytes (mark : UInt8) :
    tellingReader (a.bytes mark) = portionReader Unit mark.toNat (a.bytes mark) := by
  rw [tellingReader, a.byteAt_bytes_zero]

theorem serves_tellingReader (h : 0 < mark.toNat) : (tellingReader (a.bytes mark)).Serves (a.bytes mark) := by
  rw [tellingReader_bytes]
  exact Reader.serves_portionReader Unit h _

theorem readAt_tellingReader (mark : UInt8) (offset length : Nat) :
    (tellingReader (a.bytes mark)).readAt offset length () =
      (.ok (slice (a.bytes mark) offset (min mark.toNat length)), ()) := by
  rw [tellingReader_bytes]
  rfl

theorem differInMark (h : 0 < mark.toNat) (h' : 0 < mark'.toNat) : DifferInMark a mark mark' where
  byteAt_eq := ⟨a.byteAt_bytes_zero mark, a.byteAt_bytes_zero mark'⟩
  sameEntry := by
    have hoffset : 1 ≤ a.record.entry.headerOffset.toNat := by
      rw [a.headerOffset_eq]
      omega
    have hstart : 1 ≤ dataStart (a.bytes mark) a.record.entry := by
      unfold dataStart
      omega
    exact {
      size_eq := by rw [a.size_bytes_eq_start, a.size_bytes_eq_start]
      header_eq := a.slice_bytes_eq mark mark' hoffset _
      data_eq := a.slice_bytes_eq mark mark' hstart _ }
  serves := serves_tellingReader a h
  serves' := serves_tellingReader a h'
  ofReader_eq := by
    obtain ⟨s, hopen⟩ := a.ofReader_eq mark (serves_tellingReader a h).holds ()
    exact hopen
  ofReader_eq' := by
    obtain ⟨s, hopen⟩ := a.ofReader_eq mark' (serves_tellingReader a h').holds ()
    exact hopen

end OfAnnex

/-- A dex file in a stored block that is not the last one. -/
def spoiltStart : ByteArray := pack [(1, 0), (2, 44), (2, 0xFFD3)] ++ Dex.shortDex

/-- What follows the block is none. -/
def spoiltData : ByteArray := spoiltStart ++ pack [(1, 7)]

theorem size_shortDex : Dex.shortDex.size = 44 := size_pack _

theorem size_spoiltStart : spoiltStart.size = 49 := by
  rw [spoiltStart, ByteArray.size_append, size_pack, size_shortDex]
  rfl

theorem size_spoiltData : spoiltData.size = 50 := by
  rw [spoiltData, ByteArray.size_append, size_spoiltStart, size_pack]
  rfl

/-- By the directory the content is empty. -/
def spoiltEntry : Entry := ⟨"spoilt", .deflate, 50, 0, 0, 75, 0⟩

def spoiltAnnex : Annex where
  record := .bare spoiltEntry rfl (by decide +kernel) (by decide +kernel)
  data := spoiltData
  record_lt := by decide +kernel
  comment_lt := by decide +kernel
  headerOffset_eq := by decide +kernel
  isLast := by decide +kernel

theorem start_spoiltAnnex : spoiltAnnex.start = 105 := rfl

/-- The inflater with the block. -/
def afterDex : Inflater := ⟨spoiltStart, 392, .header, false, Dex.shortDex, by simp [size_spoiltStart]⟩

theorem size_shortDex_lt : Dex.shortDex.size < window := size_shortDex ▸ by decide

theorem leads_afterDex : Decoding.Leads spoiltStart .initial afterDex.decoding := by
  have hslice : slice spoiltStart 5 44 = slice Dex.shortDex 0 44 := slice_append_right (pack _) Dex.shortDex 0 44
  have hblock : .empty ++ slice spoiltStart 5 44 = Dex.shortDex := by
    rw [ByteArray.empty_append, hslice, slice_of_size_le (Nat.le_of_eq size_shortDex)]
  have hle : 5 + 44 ≤ spoiltStart.size := Nat.le_of_eq size_spoiltStart.symm
  have hleads := Decoding.leads_stored hle (by decide) false .empty
  rw [hblock] at hleads
  refine .head (b := ⟨40, .stored 44, false, .empty⟩) rfl ?_
  exact hleads

section Spoilt

variable {reader : Reader Unit} {mark : UInt8}

/-- Without what follows it, the block is handed over. -/
theorem read_spoiltStart (h : reader.readAt 105 50 () = (.ok spoiltStart, ())) (length : Nat) :
    ∃ z, Inflating.read reader length (.ofRange ⟨105, 155⟩, ()) = (.ok (slice Dex.shortDex 0 length), z, ()) := by
  have hsupply : supply reader (.ofRange ⟨105, 155⟩, ()) =
      (.ok 49, ⟨⟨154, 155⟩, .feed .initial spoiltStart, 49, 0, none⟩, ()) :=
    supply_of_readAt_ok (z := .ofRange ⟨105, 155⟩) rfl (by decide) h (by simp [size_spoiltStart])
  have hmore : afterDex.decoding.next? (afterDex.input ++ pack [(1, 1), (2, 0), (2, 0xFFFF)]) =
      some ⟨432, .ended, true, Dex.shortDex⟩ := rfl
  have hinflate : Inflating.inflate false (0 + length) ⟨⟨154, 155⟩, .feed .initial spoiltStart, 49, 0, none⟩ =
      (.starved, ⟨⟨154, 155⟩, afterDex, 0, 0, none⟩) :=
    inflate_eq_of_starved (z := ⟨⟨154, 155⟩, .feed .initial spoiltStart, 49, 0, none⟩) (f := afterDex)
      ByteArray.empty_append leads_afterDex rfl (hmore ▸ Option.some_ne_none _) size_shortDex_lt false _
  have hready : Inflating.ready ⟨⟨154, 155⟩, afterDex, 0, 0, none⟩ ≠ 0 := by
    simp [Inflating.ready, afterDex, size_shortDex]
  refine ⟨⟨⟨154, 155⟩, afterDex, 0, 0 + (slice Dex.shortDex 0 length).size, none⟩, ?_⟩
  rw [read_of_inflate hsupply rfl rfl (by decide) hinflate (.inr ⟨rfl, hready⟩)]
  rfl

/-- What follows the block spoils it. -/
theorem read_spoiltData (h : reader.readAt 105 50 () = (.ok spoiltData, ())) (length : Nat) :
    ∃ z, Inflating.read reader length (.ofRange ⟨105, 155⟩, ()) = (.error .corruptDeflate, z, ()) := by
  have hsupply : supply reader (.ofRange ⟨105, 155⟩, ()) =
      (.ok 50, ⟨⟨155, 155⟩, .feed .initial spoiltData, 50, 0, none⟩, ()) :=
    supply_of_readAt_ok (z := .ofRange ⟨105, 155⟩) rfl (by decide) h (by simp [size_spoiltData])
  refine read_of_corrupt hsupply rfl rfl (by decide) ?_
  exact inflate_eq_of_corrupt (z := ⟨⟨155, 155⟩, .feed .initial spoiltData, 50, 0, none⟩)
    (f := afterDex.feed (pack [(1, 7)])) ByteArray.empty_append (leads_afterDex.append (pack [(1, 7)])) rfl rfl
    size_shortDex_lt false _

theorem readAt_spoiltAnnex {b : ByteArray} (h : slice spoiltData 0 (min mark.toNat 50) = b) :
    (tellingReader (spoiltAnnex.bytes mark)).readAt 105 50 () = (.ok b, ()) := by
  have hslice := spoiltAnnex.slice_bytes_start mark 0 (min mark.toNat 50)
  rw [start_spoiltAnnex] at hslice
  rw [readAt_tellingReader, hslice]
  exact congrArg (fun b => (Except.ok b, ())) h

section Opened

variable (hholds : reader.Holds (spoiltAnnex.bytes mark))

include hholds

theorem content_spoiltEntry :
    (spoiltAnnex.archive reader).content spoiltEntry () = (.ok (.deflate (.ofRange ⟨105, 155⟩)), ()) := by
  obtain ⟨s, hcontent⟩ := spoiltAnnex.content_eq (e := spoiltEntry) rfl hholds (by decide) ()
  rw [start_spoiltAnnex] at hcontent
  exact hcontent

theorem readEntry_spoiltStart (h : reader.readAt 105 50 () = (.ok spoiltStart, ())) :
    (spoiltAnnex.archive reader).readEntry spoiltEntry () = (.error (.io (.sizeMismatch "spoilt" 0 1)), ()) := by
  have hfirst : (slice Dex.shortDex 0 1).size = 1 := by
    rw [size_slice, size_shortDex]
    rfl
  obtain ⟨z, hread⟩ := read_spoiltStart h 1
  have htoEnd : (Content.stream reader).readToEnd 0 1 (.deflate (.ofRange ⟨105, 155⟩), ()) =
      (.ok (.empty ++ slice Dex.shortDex 0 1), .deflate z, ()) := by
    refine (Stream.readRest_of_ok (n := 1) rfl (by decide) (Content.read_stream_deflate hread)
      (hfirst ▸ Nat.one_ne_zero)).trans ?_
    rw [Stream.readRest, ByteArray.empty_append, hfirst]
    exact congrFun (if_pos (Nat.min_zero _)) _
  have hverified : verified spoiltEntry (.empty ++ slice Dex.shortDex 0 1) =
      .error (.io (.sizeMismatch "spoilt" 0 1)) := by
    rw [ByteArray.empty_append, verified, hfirst]
    rfl
  exact (readEntry_of_readToEnd (content_spoiltEntry hholds) htoEnd).trans
    (congrArg (fun checked => (checked, ())) hverified)

theorem sniff_spoiltStart (h : reader.readAt 105 50 () = (.ok spoiltStart, ())) :
    (spoiltAnnex.archive reader).sniff spoiltEntry () = (.ok (.ok 35), ()) := by
  have hempty : ByteArray.empty.size < Dex.sniffLength := by decide
  have hall : slice Dex.shortDex 0 (Dex.sniffLength - ByteArray.empty.size) = Dex.shortDex :=
    slice_of_size_le (Nat.le_of_eq size_shortDex)
  obtain ⟨z, hread⟩ := read_spoiltStart h (Dex.sniffLength - ByteArray.empty.size)
  have hfill : (Content.stream reader).fill Dex.sniffLength (.deflate (.ofRange ⟨105, 155⟩), ()) =
      (.ok Dex.shortDex, .deflate z, ()) := by
    rw [hall] at hread
    refine (Stream.fillFrom_of_ok hempty (Content.read_stream_deflate hread) (by simp [size_shortDex])).trans ?_
    have hdone : Dex.sniffLength ≤ Dex.shortDex.size := Nat.le_of_eq size_shortDex.symm
    rw [ByteArray.empty_append, Stream.fillFrom, if_pos hdone]
    rfl
  rw [sniff_of_content_ok (content_spoiltEntry hholds)]
  exact readContent_ok (Dex.sniff_of_fill_ok hfill)

theorem readEntry_spoiltData (h : reader.readAt 105 50 () = (.ok spoiltData, ())) :
    (spoiltAnnex.archive reader).readEntry spoiltEntry () = (.error (.io .corruptDeflate), ()) := by
  obtain ⟨z, hread⟩ := read_spoiltData h 1
  have htoEnd : (Content.stream reader).readToEnd 0 1 (.deflate (.ofRange ⟨105, 155⟩), ()) =
      (.error .corruptDeflate, .deflate z, ()) :=
    Stream.readRest_of_error (n := 1) rfl (by decide) (Content.read_stream_deflate hread) (by decide)
  exact readEntry_of_readToEnd (content_spoiltEntry hholds) htoEnd

theorem sniff_spoiltData (h : reader.readAt 105 50 () = (.ok spoiltData, ())) :
    (spoiltAnnex.archive reader).sniff spoiltEntry () = (.error (.io .corruptDeflate), ()) := by
  obtain ⟨z, hread⟩ := read_spoiltData h (Dex.sniffLength - ByteArray.empty.size)
  have hfill : (Content.stream reader).fill Dex.sniffLength (.deflate (.ofRange ⟨105, 155⟩), ()) =
      (.error .corruptDeflate, .deflate z, ()) :=
    Stream.fillFrom_of_error (by decide) (Content.read_stream_deflate hread) (by decide)
  rw [sniff_of_content_ok (content_spoiltEntry hholds)]
  exact readContent_error (Dex.sniff_of_fill hfill)

end Opened

end Spoilt

/-- What is read can depend on a byte that is not of the entry, if the portions do. With one first byte the
letter is read, with another its end is not found. With one the spoilt content is sniffed, with another it
shows before that it is spoilt. -/
theorem portions_tell_first_byte :
    DifferInMark letterAnnex 6 255 ∧
      (letterAnnex.archive (tellingReader (letterAnnex.bytes 6))).readEntry (letterEntry 12) () =
        (.ok letter, ()) ∧
      (letterAnnex.archive (tellingReader (letterAnnex.bytes 255))).readEntry (letterEntry 12) () =
        (.error (.io (.truncatedEntry 116)), ()) ∧
      DifferInMark spoiltAnnex 49 255 ∧ ¬ IsCutOff (spoiltAnnex.bytes 49) spoiltEntry ∧
      (spoiltAnnex.archive (tellingReader (spoiltAnnex.bytes 49))).readEntry spoiltEntry () =
        (.error (.io (.sizeMismatch "spoilt" 0 1)), ()) ∧
      (spoiltAnnex.archive (tellingReader (spoiltAnnex.bytes 255))).readEntry spoiltEntry () =
        (.error (.io .corruptDeflate), ()) ∧
      (spoiltAnnex.archive (tellingReader (spoiltAnnex.bytes 49))).sniff spoiltEntry () = (.ok (.ok 35), ()) ∧
      (spoiltAnnex.archive (tellingReader (spoiltAnnex.bytes 255))).sniff spoiltEntry () =
        (.error (.io .corruptDeflate), ()) := by
  have hletter : DifferInMark letterAnnex 6 255 := differInMark letterAnnex (by decide) (by decide)
  have hspoilt : DifferInMark spoiltAnnex 49 255 := differInMark spoiltAnnex (by decide) (by decide)
  have hread : (letterAnnex.archive (tellingReader (letterAnnex.bytes 6))).readEntry (letterEntry 12) () =
      (.ok letter, ()) := by
    rw [tellingReader_bytes]
    exact readEntry_letter_portions 6
  have hread' : (letterAnnex.archive (tellingReader (letterAnnex.bytes 255))).readEntry (letterEntry 12) () =
      (.error (.io (.truncatedEntry 116)), ()) := by
    refine readEntry_letter_atOnce hletter.serves'.holds fun offset length hle => ?_
    rw [readAt_tellingReader, Nat.min_eq_right (Nat.le_trans hle (by decide))]
  have hstart : (tellingReader (spoiltAnnex.bytes 49)).readAt 105 50 () = (.ok spoiltStart, ()) := by
    have hslice : slice spoiltData 0 49 = slice spoiltStart 0 49 :=
      slice_append_left _ (Nat.le_of_eq size_spoiltStart.symm)
    exact readAt_spoiltAnnex (hslice.trans (slice_of_size_le (Nat.le_of_eq size_spoiltStart)))
  have hdata : (tellingReader (spoiltAnnex.bytes 255)).readAt 105 50 () = (.ok spoiltData, ()) :=
    readAt_spoiltAnnex (slice_of_size_le (Nat.le_of_eq size_spoiltData))
  have hcut : ¬ IsCutOff (spoiltAnnex.bytes 49) spoiltEntry := by
    rw [isCutOff_bytes_iff spoiltAnnex 49 (e := spoiltEntry) rfl]
    exact fun hcut => Nat.ne_of_lt hcut size_spoiltData
  exact ⟨hletter, hread, hread', hspoilt, hcut, readEntry_spoiltStart hspoilt.serves.holds hstart,
    readEntry_spoiltData hspoilt.serves'.holds hdata, sniff_spoiltStart hspoilt.serves.holds hstart,
    sniff_spoiltData hspoilt.serves'.holds hdata⟩

end Telling

end Zip.Archive

end DexArchive
