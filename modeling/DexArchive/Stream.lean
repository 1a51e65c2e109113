import DexArchive.Reader

/-! Sequential streams, and the ways to read them: a single read that sits out interruptions, a read
up to a length, and a read of everything into a buffer that grows. -/

namespace DexArchive

/-- A source of bytes in order. `read length` gives at most `length` bytes, and none only at the end. A
stream can interrupt only so many reads: `interruptions` bounds how many are still to come. -/
structure Stream (τ : Type) where
  read : Nat → τ → Except IoError ByteArray × τ
  interruptions : τ → Nat
  size_read_le : ∀ length t b, (read length t).1 = .ok b → b.size ≤ length
  interruptions_read_lt : ∀ length t e, (read length t).1 = .error e → e.IsInterruption →
    interruptions (read length t).2 < interruptions t

namespace Stream

variable {τ : Type}

/-- Reads once, again after each interruption. -/
def readThrough (st : Stream τ) (length : Nat) (t : τ) : Except IoError ByteArray × τ :=
  match _h : st.read length t with
  | (.ok b, t') => (.ok b, t')
  | (.error e, t') => if e.IsInterruption then st.readThrough length t' else (.error e, t')
termination_by st.interruptions t
decreasing_by
  rename_i hi
  have := st.interruptions_read_lt length t e (by rw [_h]) hi
  rwa [_h] at this

/-- Goes on reading until `got` holds `length` bytes or the stream ends. -/
def fillFrom (st : Stream τ) (length : Nat) (got : ByteArray) : Action IoError τ ByteArray :=
  if length ≤ got.size then pure got
  else do
    let chunk ← st.readThrough (length - got.size)
    if chunk.size = 0 then pure got else st.fillFrom length (got ++ chunk)
termination_by length - got.size
decreasing_by
  simp only [ByteArray.size_append]
  omega

/-- Reads until there are `length` bytes or the stream ends; each read asks for what is missing. -/
def fill (st : Stream τ) (length : Nat) : Action IoError τ ByteArray := st.fillFrom length .empty

/-- A buffer that grows: the capacity it began with, the one it has, the most that is asked for at once,
and what the last read left free of the room that it was given. -/
structure Growth where
  start : Nat
  capacity : Nat
  most : Nat
  leftover : Nat

namespace Growth

/-- How much is read aside, before the buffer is made larger. -/
def probe : Nat := 32

/-- A buffer made for a content of the given length, though never larger than 64 MiB. -/
def forLength (length : Nat) : Growth :=
  let start := min length (64 * 1024 * 1024)
  ⟨start, start, 8 * 1024, 0⟩

/-- The capacity that holds `needed` bytes: twice as large as it was, if that is enough. -/
def enlarge (g : Growth) (needed : Nat) : Nat := max (2 * g.capacity) (max needed 8)

/-- Whether the next bytes are read aside: a buffer almost full at the capacity it began with is not made
larger before there is something to hold. -/
def Probes (g : Growth) (filled : Nat) : Prop := g.capacity - filled < probe ∧ g.capacity = g.start

instance (g : Growth) (filled : Nat) : Decidable (g.Probes filled) :=
  inferInstanceAs (Decidable (_ ∧ _))

/-- The buffer that the next bytes are read into; room is made if it is full. -/
def withRoom (g : Growth) (filled : Nat) : Growth :=
  if filled < g.capacity then g
  else { g with capacity := g.enlarge (filled + probe), leftover := 0 }

/-- The room that a read is given: what the last one left, if it left some. -/
def room (g : Growth) (filled : Nat) : Nat :=
  min (g.capacity - filled) (if g.leftover = 0 then g.most else g.leftover)

/-- How much the next read asks for. -/
def request (g : Growth) (filled : Nat) : Nat :=
  if g.Probes filled then probe else (g.withRoom filled).room filled

/-- The buffer after a read of `got` bytes. The most that is asked for doubles each time that it was
asked for and came. -/
def next (g : Growth) (filled got : Nat) : Growth :=
  if g.Probes filled then
    { g with
      capacity := if filled + got ≤ g.capacity then g.capacity else g.enlarge (filled + got)
      leftover := 0 }
  else
    { g.withRoom filled with
      most := if g.most ≤ got then 2 * g.most else g.most
      leftover := (g.withRoom filled).room filled - got }

end Growth

/-- Goes on reading until the stream ends or `got` holds `limit` bytes. -/
def readRest (st : Stream τ) (limit : Nat) (g : Growth) (got : ByteArray) :
    Action IoError τ ByteArray :=
  let length := min (g.request got.size) (limit - got.size)
  if length = 0 then pure got
  else do
    let chunk ← st.readThrough length
    if chunk.size = 0 then pure got
    else st.readRest limit (g.next got.size chunk.size) (got ++ chunk)
termination_by limit - got.size
decreasing_by
  simp only [ByteArray.size_append]
  omega

/-- Reads the stream to its end, or up to `limit` bytes, into a buffer made for `length` bytes. -/
def readToEnd (st : Stream τ) (length limit : Nat) : Action IoError τ ByteArray :=
  st.readRest limit (.forLength length) .empty

end Stream

end DexArchive
