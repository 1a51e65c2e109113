/-! Reading UTF-8 that may be broken: every maximal run of bytes that starts a well-formed sequence but
does not finish it, and every byte that starts none, becomes one replacement character. -/

namespace DexArchive.Text

/-- What a byte says about the sequence it begins: how many bytes follow, between which bounds the
first of these lies, and the bits that the byte adds to the code point. -/
structure Lead where
  more : Nat
  low : UInt8
  high : UInt8
  bits : Nat

/-- The well-formed sequences of UTF-8 by their first byte. The bounds on the second byte leave out
overlong forms, surrogates and code points that do not exist. -/
def Lead.ofByte? (b : UInt8) : Option Lead :=
  if b < 0x80 then some ⟨0, 0x80, 0xBF, b.toNat⟩
  else if b < 0xC2 then none
  else if b < 0xE0 then some ⟨1, 0x80, 0xBF, b.toNat - 0xC0⟩
  else if b = 0xE0 then some ⟨2, 0xA0, 0xBF, 0⟩
  else if b = 0xED then some ⟨2, 0x80, 0x9F, 0xD⟩
  else if b < 0xF0 then some ⟨2, 0x80, 0xBF, b.toNat - 0xE0⟩
  else if b = 0xF0 then some ⟨3, 0x90, 0xBF, 0⟩
  else if b < 0xF4 then some ⟨3, 0x80, 0xBF, b.toNat - 0xF0⟩
  else if b = 0xF4 then some ⟨3, 0x80, 0x8F, 4⟩
  else none

/-- Reads the rest of a sequence; gives the code point if it is complete, and what follows it or
follows its last good byte. -/
def continuation : Nat → UInt8 → UInt8 → Nat → List UInt8 → Option Nat × List UInt8
  | 0, _, _, bits, rest => (some bits, rest)
  | _ + 1, _, _, _, [] => (none, [])
  | more + 1, low, high, bits, b :: rest =>
    if low ≤ b ∧ b ≤ high then continuation more 0x80 0xBF (64 * bits + b.toNat % 64) rest
    else (none, b :: rest)

theorem length_continuation_le (more : Nat) (low high : UInt8) (bits : Nat) (s : List UInt8) :
    (continuation more low high bits s).2.length ≤ s.length := by
  fun_induction continuation more low high bits s with
  | case3 => simp only [List.length_cons]; omega
  | _ => simp

def replacement : Char := '\uFFFD'

/-- The characters of a byte string. -/
def decodeUtf8 : List UInt8 → List Char
  | [] => []
  | b :: rest =>
    match Lead.ofByte? b with
    | none => replacement :: decodeUtf8 rest
    | some lead =>
      let result := continuation lead.more lead.low lead.high lead.bits rest
      (result.1.map Char.ofNat).getD replacement :: decodeUtf8 result.2
termination_by s => s.length
decreasing_by
  · simp
  · have := length_continuation_le lead.more lead.low lead.high lead.bits rest
    simp only [List.length_cons]
    omega

/-- The text in a byte string, broken parts replaced. -/
def ofUtf8 (b : ByteArray) : String := String.ofList (decodeUtf8 b.data.toList)

end DexArchive.Text
