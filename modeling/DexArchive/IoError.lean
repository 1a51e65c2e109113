import DexArchive.Text.Numeral

/-! Failures to get at the bytes of a source, and failures to get an entry's content out of them. -/

namespace DexArchive

/-- What sort of failure a caller can tell apart. The sorts that nothing here gives or asks about go by
their names. -/
inductive ErrorKind where
  | notFound
  | permissionDenied
  | unexpectedEof
  | invalidData
  | invalidInput
  | interrupted
  | timedOut
  | brokenPipe
  | other
  | further (name : String)
  deriving DecidableEq, Repr

/-- A failure of reading. Those of a source itself (`external`) carry their own kind and text. -/
inductive IoError where
  | shortRead (offset wanted got : Nat)
  | truncatedEntry (offset : Nat)
  | corruptDeflate
  | incompleteDeflate
  | badLocalHeader (entry : String)
  | sizeMismatch (entry : String) (expected got : Nat)
  | checksumMismatch (entry : String) (expected got : UInt32)
  | noSuchFile
  | unaddressable
  | external (kind : ErrorKind) (text : String)
  deriving DecidableEq, Repr

namespace IoError

def kind : IoError → ErrorKind
  | shortRead .. | truncatedEntry _ | incompleteDeflate => .unexpectedEof
  | badLocalHeader _ | sizeMismatch .. | checksumMismatch .. => .invalidData
  | corruptDeflate | unaddressable => .invalidInput
  | noSuchFile => .notFound
  | external kind _ => kind

def message : IoError → String
  | shortRead offset wanted got =>
    s!"short read at offset {offset}: wanted {wanted} bytes, got {got}"
  | truncatedEntry offset => s!"entry data truncated at offset {offset}"
  | corruptDeflate => "corrupt deflate stream"
  | incompleteDeflate => "incomplete deflate stream"
  | badLocalHeader entry => s!"{entry}: invalid local file header"
  | sizeMismatch entry expected got =>
    s!"{entry}: size mismatch, expected {expected} bytes, got {got}"
  | checksumMismatch entry expected got =>
    entry ++ ": CRC-32 mismatch, expected " ++ Text.hexadecimal 8 expected.toNat ++
      ", got " ++ Text.hexadecimal 8 got.toNat
  | noSuchFile => "No such file or directory (os error 2)"
  | unaddressable => "Invalid argument (os error 22)"
  | external _ text => text

/-- An interrupted read failed for no reason of its own and can be tried again. -/
def IsInterruption (e : IoError) : Prop := e.kind = .interrupted

instance : DecidablePred IsInterruption := fun e => inferInstanceAs (Decidable (e.kind = .interrupted))

end IoError

/-- What a source reports: a failure of reading, a failure of any other sort, or one of them with a
note put in front. -/
inductive Failure where
  | io (error : IoError)
  | plain (text : String)
  | noted (note : String) (cause : Failure)
  deriving DecidableEq, Repr

namespace Failure

/-- The failure of reading below all notes. -/
def root? : Failure → Option IoError
  | io e => some e
  | plain _ => none
  | noted _ cause => cause.root?

/-- What is shown of a failure: of a noted one only the note. -/
def text : Failure → String
  | io e => e.message
  | plain text => text
  | noted note _ => note

/-- A failure as a failure of reading. Notes are dropped from one; any other keeps its text. -/
def toIoError (f : Failure) : IoError := f.root?.getD (.external .other f.text)

end Failure
end DexArchive
