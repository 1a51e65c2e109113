/-! Why bytes are no zip archive. -/

namespace DexArchive.Zip

/-- What is wrong with a record of the central directory. -/
inductive RecordFault where
  | truncated
  | badSignature
  | overrun
  deriving DecidableEq, Repr

/-- What is wrong with the records that an archive is read by. -/
inductive Malformed where
  | tooShort (size : Nat)
  | noEndRecord
  | badEndRecord
  | noLocator
  | badLocator
  | wideEndRecordOutOfBounds
  | badWideEndRecord
  | directoryOverrun (size offset endOffset : Nat)
  | badRecord (index : Nat) (fault : RecordFault)
  deriving DecidableEq, Repr

def RecordFault.message : RecordFault → String
  | truncated => "failed to fill whole buffer"
  | badSignature => "bad signature"
  | overrun => "header runs past the central directory"

def Malformed.message : Malformed → String
  | tooShort size => s!"file is too short ({size} bytes)"
  | noEndRecord => "end of central directory record not found"
  | badEndRecord => "invalid end of central directory"
  | noLocator => "missing ZIP64 locator"
  | badLocator => "invalid ZIP64 locator"
  | wideEndRecordOutOfBounds => "ZIP64 end of central directory out of bounds"
  | badWideEndRecord => "invalid ZIP64 end of central directory"
  | directoryOverrun size offset endOffset =>
    s!"central directory ({size} bytes at {offset}) runs past the end record at {endOffset}"
  | badRecord index fault => s!"central directory entry {index}: " ++ fault.message

end DexArchive.Zip
