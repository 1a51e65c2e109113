import DexArchive.Text.Numeral

/-! Instruction sets: which version of the dex format each API level writes. -/

namespace DexArchive.Dex

/-- The dex version that an API level writes. -/
def versionOfApi (api : UInt32) : UInt32 :=
  if api ≤ 23 then 35
  else if api ≤ 25 then 37
  else if api ≤ 27 then 38
  else 39

/-- The newest API level that writes a dex version. -/
def apiOfVersion? (version : UInt32) : Option UInt32 :=
  if version = 35 then some 23
  else if version = 37 then some 25
  else if version = 38 then some 27
  else if version = 39 then some 28
  else none

/-- The instruction set of one API level. -/
structure Opcodes where
  api : UInt32
  deriving DecidableEq, Repr

namespace Opcodes

/-- The instruction set assumed where none is chosen. -/
def default : Opcodes := ⟨20⟩

instance : Inhabited Opcodes := ⟨default⟩

def forVersion? (version : UInt32) : Option Opcodes := (apiOfVersion? version).map Opcodes.mk

def version (o : Opcodes) : UInt32 := versionOfApi o.api

def describe (o : Opcodes) : String :=
  "Opcodes \x7b api: " ++ Text.decimal 1 o.api.toNat ++ " \x7d"

end Opcodes
end DexArchive.Dex
