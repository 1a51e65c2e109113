import DexArchive.Bytes
import DexArchive.Text.Numeral

/-! The header of a dex file. Its first 44 bytes (magic, checksum, signature, file size, header size
and endian tag) decide whether a byte string is a dex file that can be read; all of it is 112 bytes. -/

namespace DexArchive.Dex

/-- The length of the part of the header that decides. -/
def sniffLength : Nat := 44

/-- The length of the whole header. -/
def headerLength : Nat := 112

/-- Why a byte string is not taken for a dex file. -/
inductive HeaderError where
  | tooShort
  | badMagic (magic : List UInt8)
  | unsupportedVersion (version : UInt32)
  | bigEndian
  | badEndianTag (tag : UInt32)
  | truncated (length : Nat)
  deriving DecidableEq, Repr

/-- The three answers that a rejection can give. -/
inductive Rejection where
  | notDex
  | invalid
  | unsupported
  deriving DecidableEq, Repr

namespace HeaderError

def rejection : HeaderError → Rejection
  | tooShort | badMagic _ => .notDex
  | unsupportedVersion _ | bigEndian => .unsupported
  | badEndianTag _ | truncated _ => .invalid

def reason : HeaderError → String
  | tooShort => "file is too short"
  | badMagic magic => "not a valid dex magic value: " ++ " ".intercalate (Text.hexBytes magic)
  | unsupportedVersion version =>
    "dex version " ++ Text.decimal 3 version.toNat ++ " is not supported"
  | bigEndian => "big endian dex files are not supported"
  | badEndianTag tag => "invalid endian tag: 0x" ++ Text.hexadecimal 1 tag.toNat
  | truncated length => s!"header item truncated: {length} of {headerLength} bytes"

def message (e : HeaderError) : String :=
  let answer := match e.rejection with
    | .notDex => "not a dex file: "
    | .invalid => "invalid dex file: "
    | .unsupported => "unsupported dex file: "
  answer ++ e.reason

end HeaderError

def isDigit (b : UInt8) : Bool := 0x30 ≤ b && b ≤ 0x39

/-- The value of decimal digits. -/
def digitsValue (digits : List UInt8) : UInt32 :=
  digits.foldl (fun n d => 10 * n + (d - 0x30).toUInt32) 0

/-- The version in a magic number: `dex`, a line feed, three digits and a zero byte. -/
def magicVersion? (b : ByteArray) : Option UInt32 :=
  if b.size < 8 then none
  else if numberAt b 0 4 ≠ 0x0A786564 ∨ byteAt b 7 ≠ 0 then none
  else
    let digits := [byteAt b 4, byteAt b 5, byteAt b 6]
    if digits.all isDigit then some (digitsValue digits) else none

/-- The versions of the format that can be read. -/
def supportedVersions : List UInt32 := [35, 37, 38, 39]

def isSupported (version : UInt32) : Bool := supportedVersions.contains version

def littleEndianTag : UInt32 := 0x12345678

def bigEndianTag : UInt32 := 0x78563412

/-- The verdict on a byte string: the version of a dex file that can be read. -/
def verify (b : ByteArray) : Except HeaderError UInt32 :=
  if b.size < sniffLength then .error .tooShort
  else match magicVersion? b with
    | none => .error (.badMagic ((List.range 8).map (byteAt b)))
    | some version =>
      if !isSupported version then .error (.unsupportedVersion version)
      else
        let tag := u32At b 40
        if tag = littleEndianTag then .ok version
        else if tag = bigEndianTag then .error .bigEndian
        else .error (.badEndianTag tag)

/-- The fields of a dex header. -/
structure Header where
  version : UInt32
  checksum : UInt32
  signature : Vector UInt8 20
  fileSize : UInt32
  headerSize : UInt32
  endianTag : UInt32
  linkSize : UInt32
  linkOff : UInt32
  mapOff : UInt32
  stringIdsSize : UInt32
  stringIdsOff : UInt32
  typeIdsSize : UInt32
  typeIdsOff : UInt32
  protoIdsSize : UInt32
  protoIdsOff : UInt32
  fieldIdsSize : UInt32
  fieldIdsOff : UInt32
  methodIdsSize : UInt32
  methodIdsOff : UInt32
  classDefsSize : UInt32
  classDefsOff : UInt32
  dataSize : UInt32
  dataOff : UInt32
  deriving DecidableEq, Repr

/-- The header of a dex file of the given version, each field at its place. -/
def Header.ofFields (version : UInt32) (b : ByteArray) : Header where
  version := version
  checksum := u32At b 8
  signature := Vector.ofFn fun i => byteAt b (12 + i)
  fileSize := u32At b 32
  headerSize := u32At b 36
  endianTag := u32At b 40
  linkSize := u32At b 44
  linkOff := u32At b 48
  mapOff := u32At b 52
  stringIdsSize := u32At b 56
  stringIdsOff := u32At b 60
  typeIdsSize := u32At b 64
  typeIdsOff := u32At b 68
  protoIdsSize := u32At b 72
  protoIdsOff := u32At b 76
  fieldIdsSize := u32At b 80
  fieldIdsOff := u32At b 84
  methodIdsSize := u32At b 88
  methodIdsOff := u32At b 92
  classDefsSize := u32At b 96
  classDefsOff := u32At b 100
  dataSize := u32At b 104
  dataOff := u32At b 108

/-- Reads the header from the start of a dex file. -/
def Header.parse (b : ByteArray) : Except HeaderError Header :=
  match verify b with
  | .error e => .error e
  | .ok version =>
    if b.size < headerLength then .error (.truncated b.size) else .ok (.ofFields version b)

end DexArchive.Dex
