import DexArchive.Text.Numeral

/-! Lengths of time as text. -/

namespace DexArchive.Text

/-- The thousandths after the decimal point, without zeros at the end; nothing for a whole number. -/
def thousandths (n : Nat) : String :=
  if n = 0 then ""
  else if n % 100 = 0 then "." ++ decimal 1 (n / 100)
  else if n % 10 = 0 then "." ++ decimal 2 (n / 10)
  else "." ++ decimal 3 n

/-- A length of time given in milliseconds, in the largest unit of which it holds at least one. -/
def duration (milliseconds : Nat) : String :=
  if 1000 ≤ milliseconds then
    decimal 1 (milliseconds / 1000) ++ thousandths (milliseconds % 1000) ++ "s"
  else if 0 < milliseconds then decimal 1 milliseconds ++ "ms"
  else "0ns"

end DexArchive.Text
