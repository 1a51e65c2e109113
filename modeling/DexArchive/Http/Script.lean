import DexArchive.Http.Reader

/-! Servers that follow a script. -/

namespace DexArchive.Http

/-- A request that reached a server. -/
inductive Request where
  | head
  | get (first last : UInt64)
  deriving DecidableEq, Repr

def Request.text : Request → String
  | head => "HEAD"
  | get first last => "GET " ++ rangeText first last

/-- What a server is to answer: to a request for the head always the same, to the first requests for
bytes the given answers, and to the others what the data say, at most `maxChunk` bytes at a time. After
`closeAfter` answers there is no connection any more. -/
structure Script where
  head : Head
  gets : List Answer
  data : ByteArray
  maxChunk : Option Nat
  closeAfter : Option Nat

/-- The answers still to be given, and the requests so far. -/
structure Script.State where
  gets : List Answer
  requests : Array Request

namespace Script

def start (script : Script) : State := ⟨script.gets, #[]⟩

def IsClosed (script : Script) (s : State) : Prop := ∃ n ∈ script.closeAfter, n ≤ s.requests.size

instance (script : Script) (s : State) : Decidable (script.IsClosed s) :=
  match h : script.closeAfter with
  | none => .isFalse (by simp [IsClosed, h])
  | some n => decidable_of_iff (n ≤ s.requests.size) (by simp [IsClosed, h])

/-- The answer out of the data. -/
def answer (script : Script) (first last : UInt64) : Answer :=
  if first.toNat < script.data.size then
    let length := last.toNat + 1 - first.toNat
    let length := match script.maxChunk with
      | none => length
      | some most => min most length
    ⟨partialContent, slice script.data first.toNat length⟩
  else ⟨rangeNotSatisfiable, .empty⟩

def server (script : Script) : Server State where
  head s :=
    if script.IsClosed s then (none, s)
    else (some script.head, { s with requests := s.requests.push .head })
  get first last s :=
    if script.IsClosed s then (.error .noConnection, s)
    else
      let s := { s with requests := s.requests.push (.get first last) }
      match s.gets with
      | [] => (.ok (script.answer first last), s)
      | answer :: rest => (.ok answer, { s with gets := rest })

end Script

end DexArchive.Http
