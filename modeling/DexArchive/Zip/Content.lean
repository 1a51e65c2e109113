import DexArchive.Deflate.Inflating
import DexArchive.Stream
import DexArchive.Zip.Entry

/-! The content of an entry as a stream: a range of the archive's bytes, as they are or decompressed. -/

namespace DexArchive.Zip

/-- What of an entry's content is still to be read. -/
inductive Content where
  | stored (range : Range)
  | deflate (inflating : Deflate.Inflating)

namespace Content

variable {σ : Type}

/-- The content of an entry whose data begin at `start`. -/
def ofEntry (e : Entry) (start : Nat) : Content :=
  let range := Range.ofLength start e.compressedSize.toNat
  match e.method with
  | .deflate => .deflate (.ofRange range)
  | .stored | .unknown _ => .stored range

/-- Reads at most `length` bytes of content. -/
def read (reader : Reader σ) (length : Nat) : Action IoError (Content × σ) ByteArray
  | (.stored range, s) =>
    match Range.read reader length (range, s) with
    | (result, range, s) => (result, .stored range, s)
  | (.deflate inflating, s) =>
    match Deflate.Inflating.read reader length (inflating, s) with
    | (result, inflating, s) => (result, .deflate inflating, s)

theorem size_read_le (reader : Reader σ) (length : Nat) (t : Content × σ) (b : ByteArray)
    (h : (read reader length t).1 = .ok b) : b.size ≤ length := by
  match t with
  | (.stored range, s) => exact Range.size_read_le reader length (range, s) b h
  | (.deflate inflating, s) => exact Deflate.Inflating.size_read_le reader length (inflating, s) b h

theorem within_read (reader : Reader σ) (length : Nat) :
    Action.Within (fun t => reader.interruptions t.2) (read reader length)
  | (.stored range, s) => Range.within_read reader length (range, s)
  | (.deflate inflating, s) => Deflate.Inflating.within_read reader length (inflating, s)

theorem interruptions_read_lt (reader : Reader σ) (length : Nat) (t : Content × σ) (e : IoError)
    (h : (read reader length t).1 = .error e) (he : e.IsInterruption) :
    reader.interruptions (read reader length t).2.2 < reader.interruptions t.2 := by
  have := within_read reader length t
  simp only [h, interruptionsIn, he, if_true] at this
  omega

/-- The content as a stream over the state of the archive's reader. -/
def stream (reader : Reader σ) : Stream (Content × σ) where
  read := read reader
  interruptions t := reader.interruptions t.2
  size_read_le := size_read_le reader
  interruptions_read_lt := interruptions_read_lt reader

end Content

end DexArchive.Zip
