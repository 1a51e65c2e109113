import DexArchive.Deflate.Code

/-! The blocks of a deflate stream: their headers with the codes that they define, and what the codes
stand for. -/

namespace DexArchive.Deflate

/-- The contents of a block: bytes as they are, or literal bytes and copies under two codes. -/
inductive Block where
  | stored (length : Nat)
  | coded (literals distances : Code)

/-- What a coded block says next. -/
inductive Item where
  | literal (byte : UInt8)
  | copy (length distance : Nat)
  | endOfBlock

/-! ### Lengths and distances -/

/-- The shortest length of each length symbol from 257 on, and the number of bits added to it. -/
def lengthTable : Array (Nat × Nat) := #[
  (3, 0), (4, 0), (5, 0), (6, 0), (7, 0), (8, 0), (9, 0), (10, 0), (11, 1), (13, 1), (15, 1), (17, 1),
  (19, 2), (23, 2), (27, 2), (31, 2), (35, 3), (43, 3), (51, 3), (59, 3), (67, 4), (83, 4), (99, 4),
  (115, 4), (131, 5), (163, 5), (195, 5), (227, 5), (258, 0)]

/-- The shortest distance of each distance symbol, and the number of bits added to it. -/
def distanceTable : Array (Nat × Nat) := #[
  (1, 0), (2, 0), (3, 0), (4, 0), (5, 1), (7, 1), (9, 2), (13, 2), (17, 3), (25, 3), (33, 4), (49, 4),
  (65, 5), (97, 5), (129, 6), (193, 6), (257, 7), (385, 7), (513, 8), (769, 8), (1025, 9), (1537, 9),
  (2049, 10), (3073, 10), (4097, 11), (6145, 11), (8193, 12), (12289, 12), (16385, 13), (24577, 13)]

/-- The number that a symbol of a table stands for. -/
def extended (table : Array (Nat × Nat)) (symbol : Nat) : Scan Nat :=
  match table[symbol]? with
  | none => corrupt
  | some (base, extra) => do return base + (← bits extra)

/-- The next item of a coded block. -/
def item (literals distances : Code) : Scan Item := do
  let symbol ← literals.scan
  if symbol < 256 then return .literal (.ofNat symbol)
  else if symbol = 256 then return .endOfBlock
  else
    let length ← extended lengthTable (symbol - 257)
    let distance ← extended distanceTable (← distances.scan)
    return .copy length distance

/-! ### Codes -/

/-- The code for literals and lengths of a block that brings none. -/
def fixedLiterals : Code :=
  (Code.full? (List.replicate 144 8 ++ List.replicate 112 9 ++ List.replicate 24 7 ++
    List.replicate 8 8)).getD ⟨.gap, .gap⟩

/-- The code for distances of a block that brings none. -/
def fixedDistances : Code := (Code.full? (List.replicate 32 5)).getD ⟨.gap, .gap⟩

/-- The order in which the lengths of the code for code lengths are given. -/
def lengthOrder : List Nat := [16, 17, 18, 0, 8, 7, 9, 6, 10, 5, 11, 4, 12, 3, 13, 2, 14, 1, 15]

/-- `n` numbers of three bits. -/
def triples : Nat → Scan (List Nat)
  | 0 => pure []
  | n + 1 => do
    let first ← bits 3
    let rest ← triples n
    return first :: rest

/-- Code lengths, until there are `total`: a length as it is, 16 for the last one again, 17 and 18 for
zeros. -/
def codeLengths (code : Code) (total : Nat) (got : Array Nat) : Scan (Array Nat) :=
  if got.size < total then do
    let symbol ← code.scan
    if symbol = 16 then
      match got.back? with
      | none => corrupt
      | some last =>
        let more ← bits 2
        codeLengths code total (got ++ Array.replicate (3 + more) last)
    else if symbol = 17 then
      let more ← bits 3
      codeLengths code total (got ++ Array.replicate (3 + more) 0)
    else if symbol = 18 then
      let more ← bits 7
      codeLengths code total (got ++ Array.replicate (11 + more) 0)
    else codeLengths code total (got.push symbol)
  else if got.size = total then pure got
  else corrupt
termination_by total - got.size
decreasing_by
  all_goals
    simp only [Array.size_append, Array.size_replicate, Array.size_push]
    omega

/-- The scan stops unless there is such a code. -/
def orCorrupt (code : Option Code) : Scan Code :=
  match code with
  | none => corrupt
  | some code => pure code

/-- The codes that a block brings. -/
def dynamicCodes : Scan Block := do
  let literalCount := 257 + (← bits 5)
  let distanceCount := 1 + (← bits 5)
  let lengthCount := 4 + (← bits 4)
  if 286 < literalCount ∨ 30 < distanceCount then corrupt
  else
    let given := lengthOrder.zip (← triples lengthCount)
    let code ← orCorrupt (Code.full? ((List.range 19).map fun symbol => (given.lookup symbol).getD 0))
    let lengths := (← codeLengths code (literalCount + distanceCount) #[]).toList
    let literals ← orCorrupt (Code.fullOrShort? (lengths.take literalCount))
    let distances ← orCorrupt (Code.fullOrShort? (lengths.drop literalCount))
    return .coded literals distances

/-- The length of a stored block, written twice, the second time with every bit turned over. -/
def storedLength : Scan Block := do
  align
  let length ← bits 16
  let check ← bits 16
  if length + check = 0xFFFF then return .stored length else corrupt

/-- The contents of a block of the given kind. -/
def blockOfKind (kind : Nat) : Scan Block :=
  match kind with
  | 0 => storedLength
  | 1 => pure (.coded fixedLiterals fixedDistances)
  | 2 => dynamicCodes
  | _ => corrupt

/-- The header of a block: whether it is the last one, and its contents. -/
def blockHeader : Scan (Bool × Block) := do
  let last ← bit
  let block ← blockOfKind (← bits 2)
  return (last = 1, block)

namespace Scan

theorem advances_extended (table : Array (Nat × Nat)) (symbol : Nat) :
    Advances 0 (extended table symbol) := by
  simp only [extended]
  split
  · exact advances_corrupt 0
  · exact ((advances_bits _).bind fun _ => advances_pure _).mono (Nat.zero_le _)

theorem advances_item (literals distances : Code) : Advances 1 (item literals distances) := by
  refine ((advances_code literals).bind (n := 0) fun symbol => ?_).mono (Nat.le_refl 1)
  split
  · exact advances_pure _
  · split
    · exact advances_pure _
    · exact ((advances_extended _ _).bind fun _ => (advances_code distances).bind fun _ =>
        (advances_extended _ _).bind fun _ => advances_pure _).mono (Nat.zero_le _)

theorem advances_triples (n : Nat) : Advances 0 (triples n) := by
  induction n with
  | zero => exact advances_pure []
  | succ n ih =>
    exact ((advances_bits 3).bind fun _ => ih.bind fun _ => advances_pure _).mono (Nat.zero_le _)

theorem advances_codeLengths (code : Code) (total : Nat) (got : Array Nat) :
    Advances 0 (codeLengths code total got) := by
  fun_induction codeLengths code total got with
  | case1 got h ih16 ih17 ih18 ih =>
    refine ((advances_code code).bind (n := 0) fun symbol => ?_).mono (Nat.zero_le _)
    split
    · split
      · exact advances_corrupt 0
      · rename_i last _
        exact ((advances_bits 2).bind fun more => ih16 last more).mono (Nat.zero_le _)
    · split
      · exact ((advances_bits 3).bind fun more => ih17 more).mono (Nat.zero_le _)
      · split
        · exact ((advances_bits 7).bind fun more => ih18 more).mono (Nat.zero_le _)
        · exact ih symbol
  | case2 => exact advances_pure _
  | case3 => exact advances_corrupt 0

theorem advances_orCorrupt (code : Option Code) : Advances 0 (orCorrupt code) := by
  cases code with
  | none => exact advances_corrupt 0
  | some code => exact advances_pure code

theorem advances_dynamicCodes : Advances 0 dynamicCodes := by
  refine ((advances_bits 5).bind (n := 0) fun literalCount => ?_).mono (Nat.zero_le _)
  refine ((advances_bits 5).bind (n := 0) fun distanceCount => ?_).mono (Nat.zero_le _)
  refine ((advances_bits 4).bind (n := 0) fun lengthCount => ?_).mono (Nat.zero_le _)
  split
  · exact advances_corrupt 0
  · exact (advances_triples _).bind fun _ => (advances_orCorrupt _).bind fun _ =>
      (advances_codeLengths _ _ _).bind fun _ => (advances_orCorrupt _).bind fun _ =>
      (advances_orCorrupt _).bind fun _ => advances_pure _

theorem advances_storedLength : Advances 0 storedLength := by
  refine (advances_align.bind (n := 0) fun _ => ?_).mono (Nat.zero_le _)
  refine ((advances_bits 16).bind (n := 0) fun length => ?_).mono (Nat.zero_le _)
  refine ((advances_bits 16).bind (n := 0) fun check => ?_).mono (Nat.zero_le _)
  split
  · exact advances_pure _
  · exact advances_corrupt 0

theorem advances_blockOfKind (kind : Nat) : Advances 0 (blockOfKind kind) := by
  simp only [blockOfKind]
  split
  · exact advances_storedLength
  · exact advances_pure _
  · exact advances_dynamicCodes
  · exact advances_corrupt 0

theorem advances_blockHeader : Advances 1 blockHeader :=
  advances_bit.bind fun _ => ((advances_bits 2).bind fun kind =>
    (advances_blockOfKind kind).bind fun _ => advances_pure _).mono (Nat.zero_le _)

end Scan

end DexArchive.Deflate
