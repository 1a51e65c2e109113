import DexArchive.Text.Numeral
import DexArchive.Text.Visible

/-! Quoted text: between double quotes, with the quote, the backslash and characters that do not show
written as escapes. -/

namespace DexArchive.Text

/-- How a character stands between quotes. -/
def escape (c : Char) : List Char :=
  if c = '"' then ['\\', '"']
  else if c = '\\' then ['\\', '\\']
  else if c = '\t' then ['\\', 't']
  else if c = '\n' then ['\\', 'n']
  else if c = '\r' then ['\\', 'r']
  else if c.toNat = 0 then ['\\', '0']
  else if isVisible c then [c]
  else ['\\', 'u', '\x7b'] ++ (hexadecimal 1 c.toNat).toList ++ ['\x7d']

def quote (s : String) : String :=
  String.ofList ('"' :: s.toList.flatMap escape ++ ['"'])

end DexArchive.Text
