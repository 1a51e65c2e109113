import DexArchive.Dex.Header
import DexArchive.IoError
import DexArchive.Zip.Entry
import DexArchive.Zip.Malformed

/-! What an operation on an archive can fail with. -/

namespace DexArchive

/-- A failure of an operation. Bytes that are no archive are told apart from bytes that cannot be read;
the former are named by their location where it is known. -/
inductive Error where
  | notAnArchive (location : Option String) (cause : Zip.Malformed)
  | io (cause : IoError)
  | notADexFile (entry : String) (cause : Dex.HeaderError)
  | unsupportedEntry (entry : String) (cause : Zip.Unsupported)
  | entryTooLarge (entry : String) (size limit : Nat)
  deriving DecidableEq, Repr

namespace Error

def ofFailure (f : Failure) : Error := .io f.toIoError

def isNotAnArchive : Error → Bool
  | notAnArchive .. => true
  | _ => false

/-- Names the location of bytes that are no archive. -/
def locate (location : String) : Error → Error
  | notAnArchive none cause => .notAnArchive (some location) cause
  | e => e

def message : Error → String
  | notAnArchive none cause => "not a zip archive: " ++ cause.message
  | notAnArchive (some location) cause => "not a zip archive: " ++ location ++ ": " ++ cause.message
  | io cause => "I/O error: " ++ cause.message
  | notADexFile entry cause => s!"entry {entry} is not a dex file: " ++ cause.message
  | unsupportedEntry entry cause => s!"unsupported entry {entry}: " ++ cause.message
  | entryTooLarge entry size limit => s!"entry {entry} is {size} bytes, exceeds limit of {limit}"

end Error
end DexArchive
