import DexArchive.Http.Reader
import DexArchive.Source
import DexArchive.Text.Duration
import DexArchive.Text.Quoted

/-! Archives on a server. -/

namespace DexArchive.Http

/-- A resource on a server, how long a request may take in milliseconds, and how often a request without
a connection is made. -/
structure Remote where
  url : String
  timeout : Nat
  attempts : Nat
  deriving DecidableEq, Repr

namespace Remote

def ofUrl (url : String) : Remote := ⟨url, 30000, 10⟩

def withTimeout (r : Remote) (milliseconds : Nat) : Remote := { r with timeout := milliseconds }

/-- A request is made at least once. -/
def withAttempts (r : Remote) (attempts : Nat) : Remote := { r with attempts := max attempts 1 }

def describe (r : Remote) : String :=
  "HttpSource \x7b url: " ++ Text.quote r.url ++ ", timeout: " ++ Text.duration r.timeout ++
    ", max_retry: " ++ Text.decimal 1 r.attempts ++ " \x7d"

/-- The resource as a source. The head of the resource is asked for when it is opened. -/
def source {σ : Type} (r : Remote) (server : Server σ) : Source σ where
  location := r.url
  acquire s :=
    match server.head s with
    | (none, s) => (.error (Problem.unreachable r.url).failure, s)
    | (some head, s) =>
      match head.length with
      | .error problem => (.error problem.failure, s)
      | .ok size => (.ok (reader server r.attempts size), s)
  release s := s

end Remote

end DexArchive.Http
