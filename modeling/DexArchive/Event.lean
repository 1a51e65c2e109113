import DexArchive.Error

/-! What operations on a container report while they go on. -/

namespace DexArchive

inductive Event where
  | parsedDirectory (count : Nat)
  | opened (location : String) (count : Nat)
  | unusable (location : String) (error : Error)
  | skippedDirectory (entry : String)
  | sniffing (entry : String)
  | skipped (entry : String) (reason : Dex.HeaderError)
  | loaded (entry : String) (size : Nat)
  deriving DecidableEq, Repr

/-- How much an event matters. -/
inductive Event.Level where
  | debug
  | trace
  deriving DecidableEq, Repr

namespace Event

def level : Event → Level
  | sniffing _ => .trace
  | _ => .debug

def message : Event → String
  | parsedDirectory count => s!"Parsed central directory: {count} entries"
  | opened location count => s!"Opened {location} ({count} entries)"
  | unusable location error => s!"{location} is not a usable zip: " ++ error.message
  | skippedDirectory entry => s!"Skipping directory {entry}"
  | sniffing entry => s!"Sniffing {entry}"
  | skipped entry reason => s!"Skipping {entry}: " ++ reason.message
  | loaded entry size => s!"Loaded {entry} ({size} bytes)"

end Event
end DexArchive
