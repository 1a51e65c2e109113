import DexArchive.Dex.Header
import DexArchive.Stream

/-! Recognising a dex file by the start of a stream. -/

namespace DexArchive.Dex

/-- The verdict on the first bytes of a stream; a failure to read them is no verdict. -/
def sniff {τ : Type} (st : Stream τ) : Action IoError τ (Except HeaderError UInt32) := do
  return verify (← st.fill sniffLength)

end DexArchive.Dex
