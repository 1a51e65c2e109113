/-! Entries of an archive, as its central directory describes them. -/

namespace DexArchive.Zip

/-- How the content of an entry is written. -/
inductive Method where
  | stored
  | deflate
  | unknown (id : UInt16)
  deriving DecidableEq, Repr

namespace Method

def ofId (id : UInt16) : Method :=
  if id = 0 then .stored else if id = 8 then .deflate else .unknown id

def id : Method → UInt16
  | stored => 0
  | deflate => 8
  | unknown id => id

end Method

/-- An entry: its name, and how and where its content is written. -/
structure Entry where
  name : String
  method : Method
  compressedSize : UInt64
  uncompressedSize : UInt64
  crc : UInt32
  headerOffset : UInt64
  flags : UInt16
  deriving DecidableEq, Repr

namespace Entry

/-- The name of a directory ends in a slash. -/
def isDirectory (e : Entry) : Bool := e.name.toList.getLast? = some '/'

def isEncrypted (e : Entry) : Bool := e.flags &&& 1 ≠ 0

end Entry

/-- Why the content of an entry cannot be decoded. -/
inductive Unsupported where
  | encrypted
  | method (id : UInt16)
  deriving DecidableEq, Repr

def Unsupported.message : Unsupported → String
  | encrypted => "encrypted entries are not supported"
  | method id => s!"unsupported compression method: {id}"

/-- What stands against opening an entry. -/
def Entry.unsupported? (e : Entry) : Option Unsupported :=
  if e.isEncrypted then some .encrypted
  else match e.method with
    | .unknown id => some (.method id)
    | _ => none

end DexArchive.Zip
