import DexArchive.Deflate.Bits

/-! Prefix codes given by the lengths of their code words: of two words the shorter comes first, of two
of one length the one of the smaller symbol. -/

namespace DexArchive.Deflate

/-- A binary tree of symbols; a `gap` is where no code word leads. -/
inductive Tree where
  | gap
  | leaf (symbol : Nat)
  | fork (zero one : Tree)
  deriving DecidableEq, Repr

namespace Tree

/-- Follows bits down to a symbol. -/
def scan : Tree → Scan Nat
  | gap => corrupt
  | leaf symbol => pure symbol
  | fork zero one => do if (← bit) = 0 then zero.scan else one.scan

def IsFull : Tree → Bool
  | gap => false
  | leaf _ => true
  | fork zero one => zero.IsFull && one.IsFull

/-- Places symbols, given with their lengths and the shortest first, under the node at `depth`, from the
left to the right; gives those that find no room. -/
def grow : (levels depth : Nat) → List (Nat × Nat) → Tree × List (Nat × Nat)
  | _, _, [] => (gap, [])
  | levels, depth, (length, symbol) :: rest =>
    if length = depth then (leaf symbol, rest)
    else match levels with
      | 0 => (gap, (length, symbol) :: rest)
      | levels + 1 =>
        let (zero, rest') := grow levels (depth + 1) ((length, symbol) :: rest)
        let (one, rest'') := grow levels (depth + 1) rest'
        (fork zero one, rest'')

end Tree

/-- A prefix code, by the two halves of its tree; every code word has a bit at least. -/
structure Code where
  zero : Tree
  one : Tree
  deriving DecidableEq, Repr

namespace Code

/-- No code word is longer. -/
def maxLength : Nat := 15

/-- Reads one symbol. A bit that no code word goes on with is an error as soon as it is read. -/
def scan (c : Code) : Scan Nat := do if (← bit) = 0 then c.zero.scan else c.one.scan

/-- Every sequence of bits begins with a code word. -/
def IsFull (c : Code) : Bool := c.zero.IsFull && c.one.IsFull

/-- The symbols that have a code word, with its length, the shortest words first. -/
def ranked (lengths : List Nat) : List (Nat × Nat) :=
  (List.range' 1 maxLength).flatMap fun length => lengths.zipIdx.filter fun p => p.1 = length

/-- The code with words of the given lengths, zero for a symbol without one; none if there are too many
words for their lengths. -/
def ofLengths? (lengths : List Nat) : Option Code :=
  let (zero, rest) := Tree.grow (maxLength - 1) 1 (ranked lengths)
  let (one, rest') := Tree.grow (maxLength - 1) 1 rest
  if rest'.isEmpty then some ⟨zero, one⟩ else none

/-- The code with words of the given lengths, if it is full. -/
def full? (lengths : List Nat) : Option Code := (ofLengths? lengths).filter IsFull

/-- The code with words of the given lengths, if it is full or none of its words is longer than a bit. -/
def fullOrShort? (lengths : List Nat) : Option Code :=
  (ofLengths? lengths).filter fun c => c.IsFull || lengths.all (· ≤ 1)

end Code

namespace Scan

theorem advances_tree (t : Tree) : Advances 0 t.scan := by
  induction t with
  | gap => exact advances_corrupt 0
  | leaf symbol => exact advances_pure symbol
  | fork zero one ihz iho =>
    refine (advances_bit.bind (n := 0) fun b => ?_).mono (by omega)
    split
    · exact ihz
    · exact iho

theorem advances_code (c : Code) : Advances 1 c.scan := by
  refine advances_bit.bind (n := 0) fun b => ?_
  split
  · exact advances_tree c.zero
  · exact advances_tree c.one

end Scan

end DexArchive.Deflate
