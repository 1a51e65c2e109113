import DexArchive.Dex.Opcodes
import DexArchive.Dex.Sniff
import DexArchive.Event
import DexArchive.Source
import DexArchive.Text.Quoted
import DexArchive.Zip.Archive

/-! Containers: archives that hold dex files. A container only knows where its archive is; every operation
opens it, does its work, and closes it again. -/

namespace DexArchive

/-- Tells containers apart. -/
structure ContainerId where
  value : UInt64
  deriving DecidableEq, Repr

/-- The state of a source, and what was reported. -/
structure Session (σ : Type) where
  source : σ
  events : Array Event

namespace Session

variable {ε σ α : Type}

/-- A computation on the source alone. -/
def onSource (p : Action ε σ α) : Action ε (Session σ) α := fun t =>
  match p t.source with
  | (result, s) => (result, { t with source := s })

def report (event : Event) : Action ε (Session σ) Unit := fun t =>
  (.ok (), { t with events := t.events.push event })

end Session

structure Container (σ : Type) where
  id : ContainerId
  source : Source σ
  opcodes : Dex.Opcodes
  maxEntrySize : Option Nat

/-- The id for the next container. -/
structure Registry where
  next : ContainerId

/-- No container was made yet. -/
def Registry.initial : Registry := ⟨⟨1⟩⟩

/-- A dex file out of a container. -/
structure DexFile where
  entry : String
  bytes : ByteArray
  opcodes : Dex.Opcodes
  container : ContainerId

namespace DexFile

def header (f : DexFile) : Except Dex.HeaderError Dex.Header := Dex.Header.parse f.bytes

/-- The file in short, with the given text for its container. -/
def describe (f : DexFile) (container : String) : String :=
  "ZipDexFile \x7b entry_name: " ++ Text.quote f.entry ++ ", len: " ++ Text.decimal 1 f.bytes.size ++
    ", api: " ++ Text.decimal 1 f.opcodes.api.toNat ++ ", container: " ++ container ++ " \x7d"

end DexFile

namespace Container

open Session

variable {σ : Type}

/-- Makes a container. Ids rise, and begin again after the last number of 64 bits. -/
def create (source : Source σ) (opcodes : Dex.Opcodes) (maxEntrySize : Option Nat) :
    StateM Registry (Container σ) := fun r =>
  (⟨r.next, source, opcodes, maxEntrySize⟩, ⟨⟨r.next.value + 1⟩⟩)

/-- Opens the archive in the bytes of a reader. -/
def openArchive (c : Container σ) (reader : Reader σ) : Action Error (Session σ) (Zip.Archive σ) := do
  let archive ← (onSource (Zip.Archive.ofReader reader)).mapError (.locate c.source.location)
  report (.parsedDirectory archive.entries.length)
  report (.opened c.source.location archive.entries.length)
  return archive

/-- Works on the archive, which is open meanwhile and closed afterwards, however the work ends. -/
def withArchive {α : Type} (c : Container σ) (work : Zip.Archive σ → Action Error (Session σ) α) :
    Action Error (Session σ) α := fun t =>
  match onSource c.source.acquire t with
  | (.error failure, t) => (.error (.ofFailure failure), t)
  | (.ok reader, t) =>
    match (c.openArchive reader >>= work) t with
    | (result, t) => (result, { t with source := c.source.release t.source })

/-- Whether the source can be opened and holds a zip archive. -/
def isZip (c : Container σ) : StateM (Session σ) Bool := fun t =>
  match c.withArchive (fun _ => pure ()) t with
  | (.ok (), t) => (true, t)
  | (.error e, t) => (false, { t with events := t.events.push (.unusable c.source.location e) })

/-- What was read of an entry, if it is a dex file. -/
def accept (c : Container σ) (e : Zip.Entry) (bytes : ByteArray) : Action Error (Session σ) DexFile :=
  match Dex.verify bytes with
  | .error reason => throw (.notADexFile e.name reason)
  | .ok _ => do
    report (.loaded e.name bytes.size)
    return ⟨e.name, bytes, c.opcodes, c.id⟩

/-! ### Listing and loading, with content read in a given manner -/

section Manner

variable (manner : {α : Type} → Action Error σ α → Action Error σ α)

/-- Whether an entry begins as a dex file does. Only a failure to read it is an error. -/
def isDexBy (archive : Zip.Archive σ) (e : Zip.Entry) : Action Error (Session σ) Bool := do
  if e.isDirectory then
    report (.skippedDirectory e.name)
    return false
  else
    report (.sniffing e.name)
    let content ← onSource (archive.content e)
    let verdict ← onSource (manner (Zip.Archive.readContent content
      (Dex.sniff (Zip.Content.stream archive.reader))))
    match verdict with
    | .ok _ => return true
    | .error reason =>
      report (.skipped e.name reason)
      return false

/-- The names of those entries that begin as a dex file does, in their order. -/
def dexNamesBy (archive : Zip.Archive σ) : List Zip.Entry → Action Error (Session σ) (List String)
  | [] => return []
  | e :: rest => do
    let found ← isDexBy @manner archive e
    let names ← dexNamesBy archive rest
    return if found then e.name :: names else names

/-- The names of the entries that hold dex files, in the order of the directory. -/
def dexEntryNamesBy (c : Container σ) : Action Error (Session σ) (List String) :=
  c.withArchive fun archive => dexNamesBy @manner archive archive.entries

/-- Loads an entry that must be a dex file. A limit holds for the length that the directory gives. -/
def loadBy (c : Container σ) (archive : Zip.Archive σ) (e : Zip.Entry) :
    Action Error (Session σ) DexFile := do
  if let some limit := c.maxEntrySize then
    if limit < e.uncompressedSize.toNat then
      throw (.entryTooLarge e.name e.uncompressedSize.toNat limit)
  c.accept e (← onSource (archive.readEntryBy @manner e))

/-- Loads the first entry of a name, if there is one, out of an archive that is open. -/
def lookUpBy (c : Container σ) (name : String) (archive : Zip.Archive σ) :
    Action Error (Session σ) (Option DexFile) :=
  match archive.find? name with
  | none => return none
  | some e => return some (← c.loadBy @manner archive e)

/-- Loads the first entry of a name, if there is one. -/
def entryBy (c : Container σ) (name : String) : Action Error (Session σ) (Option DexFile) :=
  c.withArchive (c.lookUpBy @manner name)

end Manner

/-! ### Listing and loading -/

def isDex (archive : Zip.Archive σ) (e : Zip.Entry) : Action Error (Session σ) Bool :=
  isDexBy (fun p => p) archive e

def dexNames (archive : Zip.Archive σ) (entries : List Zip.Entry) :
    Action Error (Session σ) (List String) := dexNamesBy (fun p => p) archive entries

def dexEntryNames (c : Container σ) : Action Error (Session σ) (List String) :=
  c.dexEntryNamesBy fun p => p

def load (c : Container σ) (archive : Zip.Archive σ) (e : Zip.Entry) :
    Action Error (Session σ) DexFile := c.loadBy (fun p => p) archive e

def lookUp (c : Container σ) (name : String) (archive : Zip.Archive σ) :
    Action Error (Session σ) (Option DexFile) := c.lookUpBy (fun p => p) name archive

def entry (c : Container σ) (name : String) : Action Error (Session σ) (Option DexFile) :=
  c.entryBy (fun p => p) name

end Container

end DexArchive
