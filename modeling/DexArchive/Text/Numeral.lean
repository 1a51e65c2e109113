/-! Numbers as text: hexadecimal in lower case and decimal, both with leading zeros to a width. -/

namespace DexArchive.Text

/-- The digits of a number in a base up to sixteen, with zeros in front up to `width` digits. -/
def numeral (base width n : Nat) : String :=
  let digits := Nat.toDigits base n
  String.ofList (List.replicate (width - digits.length) '0' ++ digits)

def hexadecimal (width n : Nat) : String := numeral 16 width n

def decimal (width n : Nat) : String := numeral 10 width n

/-- Two hexadecimal digits for each byte. -/
def hexBytes (b : List UInt8) : List String := b.map fun x => hexadecimal 2 x.toNat

end DexArchive.Text
