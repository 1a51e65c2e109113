import DexArchive.Checksum
import DexArchive.Error
import DexArchive.Zip.Content
import DexArchive.Zip.Directory
import DexArchive.Zip.EndRecord

/-! Zip archives: opening one from its end, and reading the entries that its directory names. -/

namespace DexArchive

/-- The computation with its failures turned into those of another sort. -/
def Action.mapError {ε ε' σ α : Type} (f : ε → ε') (p : Action ε σ α) : Action ε' σ α := fun s =>
  match p s with
  | (result, s) => (result.mapError f, s)

namespace Zip

variable {σ : Type}

/-- Reads exactly `length` bytes of an archive. -/
def readBytes (reader : Reader σ) (offset length : Nat) : Action Error σ ByteArray :=
  (reader.readExact offset length).mapError .ofFailure

/-- The answer of a reader of records. -/
def wellFormed {α : Type} (result : Except Malformed α) : Action Error σ α :=
  MonadExcept.ofExcept (result.mapError (.notAnArchive none))

def malformed {α : Type} (cause : Malformed) : Action Error σ α := wellFormed (.error cause)

/-! ### From the end to the directory -/

/-- The longest end of an archive in which its end record can begin. -/
def tailLength : Nat := EndRecord.length + EndRecord.maxComment

/-- Finds the end record; gives it with its place. An end record without a comment is found by reading
only the bytes in which it would be. -/
def findEndRecord (reader : Reader σ) : Action Error σ (EndRecord × Nat) := do
  if reader.size < EndRecord.length then malformed (.tooShort reader.size)
  else
    let offset := reader.size - EndRecord.length
    let last ← readBytes reader offset EndRecord.length
    if EndRecord.StandsAt last 0 then return (.ofBytesAt last 0, offset)
    else
      let start := reader.size - tailLength
      let tail ← readBytes reader start (min tailLength reader.size)
      match EndRecord.place? tail with
      | some place => return (.ofBytesAt tail place, start + place)
      | none => malformed .noEndRecord

/-- Reads the wide end record that belongs to an end record at `endOffset`. -/
def readWideEndRecord (reader : Reader σ) (endOffset : Nat) : Action Error σ WideEndRecord := do
  if endOffset < Locator.length then malformed .noLocator
  else
    let locator ← wellFormed (Locator.parse
      (← readBytes reader (endOffset - Locator.length) Locator.length))
    if reader.size < locator.offset.toNat + WideEndRecord.length then
      malformed .wideEndRecordOutOfBounds
    else wellFormed (WideEndRecord.parse
      (← readBytes reader locator.offset.toNat WideEndRecord.length))

/-- Where the directory is that belongs to an end record. -/
def findDirectory (reader : Reader σ) (record : EndRecord) (endOffset : Nat) :
    Action Error σ Extent := do
  if record.IsWide then return (← readWideEndRecord reader endOffset).extent
  else return record.extent

/-- An archive that was opened: where its bytes are, and its entries in the order of its directory. -/
structure Archive (σ : Type) where
  reader : Reader σ
  entries : List Entry

namespace Archive

/-- Opens the archive in the bytes of a reader. -/
def ofReader (reader : Reader σ) : Action Error σ (Archive σ) := do
  let (record, endOffset) ← findEndRecord reader
  let extent ← findDirectory reader record endOffset
  if endOffset < extent.offset + extent.size then
    malformed (.directoryOverrun extent.size extent.offset endOffset)
  else
    let directory ← readBytes reader extent.offset extent.size
    return ⟨reader, ← wellFormed (parseDirectory directory extent.count)⟩

/-- The first entry of a name. -/
def find? (a : Archive σ) (name : String) : Option Entry := a.entries.find? fun e => e.name = name

/-! ### Entries -/

/-- The length of the fixed fields of the local header that stands before an entry's data. -/
def localHeaderLength : Nat := 30

def localHeaderSignature : Nat := 0x04034B50

/-- Opens the content of an entry. The local header says where the data begin: the lengths of its name
and extra field need not be those of the directory. -/
def content (a : Archive σ) (e : Entry) : Action Error σ Content := do
  match e.unsupported? with
  | some cause => throw (.unsupportedEntry e.name cause)
  | none =>
    let offset := e.headerOffset.toNat
    let header ← readBytes a.reader offset localHeaderLength
    if numberAt header 0 4 ≠ localHeaderSignature then throw (.io (.badLocalHeader e.name))
    else
      return .ofEntry e (offset + localHeaderLength + numberAt header 26 2 + numberAt header 28 2)

/-- Reads from the content of an entry. -/
def readContent {α : Type} (c : Content) (p : Action IoError (Content × σ) α) : Action Error σ α :=
  fun s => match p (c, s) with
    | (result, _, s) => (result.mapError .io, s)

/-- Reads the whole content of an entry, in the given manner. Not more than one byte beyond the length that
the directory gives is read; length and checksum must be those of the directory. -/
def readEntryBy (manner : {α : Type} → Action Error σ α → Action Error σ α) (a : Archive σ) (e : Entry) :
    Action Error σ ByteArray := do
  let length := e.uncompressedSize.toNat
  let c ← a.content e
  let b ← manner
    (readContent c ((Content.stream a.reader).readToEnd length (min (length + 1) addressMax)))
  if b.size ≠ length then throw (.io (.sizeMismatch e.name length b.size))
  else if crc32 b ≠ e.crc then throw (.io (.checksumMismatch e.name e.crc (crc32 b)))
  else return b

/-- Reads the whole content of an entry. -/
def readEntry (a : Archive σ) (e : Entry) : Action Error σ ByteArray := a.readEntryBy (fun p => p) e

end Archive

end Zip
end DexArchive
