import DexArchive.Reader

/-! Sources of archives. A source is opened anew for each use, and what was opened is closed after it. -/

namespace DexArchive

/-- Where an archive is and how to open it. What the source remembers between uses is its state. -/
structure Source (σ : Type) where
  location : String
  acquire : Action Failure σ (Reader σ)
  release : σ → σ

namespace Source

/-- A local file, with its bytes if there is such a file. -/
def file (σ : Type) (path : String) (content : Option ByteArray) : Source σ where
  location := path
  acquire :=
    match content with
    | none => throw (.io .noSuchFile)
    | some data => pure (fileReader σ data)
  release s := s

end Source

end DexArchive
