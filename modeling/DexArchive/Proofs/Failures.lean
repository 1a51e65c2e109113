import DexArchive.Proofs.Accounting
import DexArchive.Proofs.Container
import DexArchive.Proofs.Zip.Requests

/-! Failures of a source under the operations of a container. Whichever call on the source fails, it is the
last one, and the operation fails with what the call failed for; only interruptions while content is read
are passed over. So no failure is taken for a fault of the archive, and none leaves an entry out. An
operation is carried out once as it is, and once on the recorded source in the manner that marks the calls
that are made while content is read. -/

namespace DexArchive

open DexArchive.Action

variable {σ α : Type}

/-- What is asked of an operation. -/
def accounting : Terms Error := ⟨Error.ofFailure, fun _ => True, fun _ => True⟩

/-- The computation, told that it reads content. -/
def asContent {ε : Type} (p : Action ε (Recorded σ) α) : Action ε (Recorded σ) α := fun s =>
  match p { s with purpose := .content } with
  | (result, s') => (result, { s' with purpose := s.purpose })

/-- The error is what reading a source with such a failure comes to: the failure of reading below the notes,
or one of no special sort with the text. -/
def Failure.ComesTo (f : Failure) (e : IoError) : Prop :=
  f.root? = some e ∨ f.root? = none ∧ e.kind = .other ∧ e.message = f.text

theorem Failure.comesTo_toIoError (f : Failure) : f.ComesTo f.toIoError := by
  unfold ComesTo toIoError
  cases f.root? with
  | some e => exact .inl rfl
  | none => exact .inr ⟨rfl, rfl, rfl⟩

/-! ### Archives -/

namespace Zip

variable {reader : Reader σ}

theorem accounts_readBytes (reader : Reader σ) (offset length : Nat) :
    Notes (Recorded.during .records) accounting (fun b => b.size = length) (readBytes reader offset length)
      (readBytes reader.recorded offset length) :=
  (notes_readBytes reader offset length).mono rfl (fun _ _ => trivial) (fun _ _ _ => id) fun _ => id

namespace Archive

theorem accounts_readDirectory (reader : Reader σ) :
    Notes (Recorded.during .records) accounting (fun _ => True) (readDirectory reader)
      (readDirectory reader.recorded) :=
  notes_readDirectory (fun offset length _ => accounts_readBytes reader offset length) fun _ => trivial

theorem accounts_content (a : Archive σ) (e : Entry) :
    Notes (Recorded.during .records) accounting (fun _ => True) (a.content e) (a.recorded.content e) := by
  unfold content
  cases e.unsupported? with
  | some cause => exact .throw trivial
  | none =>
      refine (accounts_readBytes a.reader _ _).bind fun header _ => ?_
      by_cases hsignature : numberAt header 0 4 ≠ localHeaderSignature
      · rw [if_pos hsignature, if_pos hsignature]
        exact .throw trivial
      · rw [if_neg hsignature, if_neg hsignature]
        exact .pure trivial

theorem accounts_readContent (c : Content) {p : Action IoError (Content × σ) α}
    {q : Action IoError (Content × Recorded σ) α} (h : Notes Recorded.beside streaming (fun _ => True) p q) :
    Notes (Recorded.during .records) accounting (fun _ => True) (readContent c p)
      (asContent (readContent c q)) := by
  intro s calls
  cases hp : p (c, s) with
  | mk result t =>
      obtain ⟨new, hq, haccounts⟩ := h.exists_eq hp calls
      have hq : q (c, { Recorded.during .records s calls with purpose := .content }) = _ := hq
      cases result with
      | error e =>
          simp only [asContent, readContent_error hp, readContent_error hq]
          exact ⟨new, rfl, haccounts.to_error (fun _ => congrArg Error.io) (fun _ _ => trivial) id⟩
      | ok a =>
          simp only [asContent, readContent_ok hp, readContent_ok hq]
          exact ⟨new, rfl, haccounts.to_ok (fun _ _ => trivial) id⟩

theorem accounts_readEntry (a : Archive σ) (e : Entry) :
    Notes (Recorded.during .records) accounting (fun _ => True) (a.readEntry e)
      (a.recorded.readEntryBy asContent e) := by
  unfold readEntry readEntryBy
  refine (accounts_content a e).bind fun c _ =>
    (accounts_readContent c (Stream.notes_readToEnd (Content.notes_read a.reader) _ _)).bind fun b _ => ?_
  by_cases hsize : b.size ≠ e.uncompressedSize.toNat
  · rw [if_pos hsize, if_pos hsize]
    exact .throw trivial
  · rw [if_neg hsize, if_neg hsize]
    by_cases hcrc : crc32 b ≠ e.crc
    · rw [if_pos hcrc, if_pos hcrc]
      exact .throw trivial
    · rw [if_neg hcrc, if_neg hcrc]
      exact .pure trivial

end Archive

end Zip

/-! ### Containers -/

/-- A session with the calls so far. -/
def Session.noted (t : Session σ) (calls : List Call) : Session (Recorded σ) :=
  ⟨.during .records t.source calls, t.events⟩

theorem Session.notes_onSource {ε : Type} {terms : Terms ε} {post : α → Prop} {p : Action ε σ α}
    {q : Action ε (Recorded σ) α} (h : Notes (Recorded.during .records) terms post p q) :
    Notes Session.noted terms post (onSource p) (onSource q) := by
  intro t calls
  cases hp : p t.source with
  | mk result s =>
      obtain ⟨new, hq, haccounts⟩ := h.exists_eq hp calls
      rw [Container.onSource_eq hp, Container.onSource_eq (t := t.noted calls) hq]
      exact ⟨new, rfl, haccounts⟩

theorem Session.notes_report {ε : Type} {terms : Terms ε} (event : Event) :
    Notes Session.noted terms (fun _ => True) (report event : Action ε (Session σ) Unit) (report event) :=
  fun t _ => .of_ok trivial { t with events := t.events.push event }

namespace Container

open Session

def recorded (c : Container σ) : Container (Recorded σ) :=
  ⟨c.id, c.source.recorded, c.opcodes, c.maxEntrySize⟩

theorem accounts_isDex (archive : Zip.Archive σ) (e : Zip.Entry) :
    Notes noted accounting (fun _ => True) (isDex archive e) (isDexBy asContent archive.recorded e) := by
  unfold isDex isDexBy
  by_cases hdirectory : e.isDirectory
  · rw [if_pos hdirectory, if_pos hdirectory]
    exact (notes_report _).bind fun _ _ => .pure trivial
  · rw [if_neg hdirectory, if_neg hdirectory]
    refine (notes_report _).bind fun _ _ =>
      (notes_onSource (archive.accounts_content e)).bind fun content _ =>
        (notes_onSource (Zip.Archive.accounts_readContent content
          (Stream.notes_sniff (Zip.Content.notes_read archive.reader)))).bind fun verdict _ => ?_
    cases verdict with
    | ok version => exact .pure trivial
    | error reason => exact (notes_report _).bind fun _ _ => .pure trivial

theorem accounts_dexNames (archive : Zip.Archive σ) (entries : List Zip.Entry) :
    Notes noted accounting (fun _ => True) (dexNames archive entries)
      (dexNamesBy asContent archive.recorded entries) := by
  induction entries with
  | nil => exact .pure trivial
  | cons e rest ih =>
      exact (accounts_isDex archive e).bind fun found _ => ih.bind fun names _ => .pure trivial

theorem accounts_accept (c : Container σ) (e : Zip.Entry) (bytes : ByteArray) :
    Notes noted accounting (fun _ => True) (c.accept e bytes) (c.recorded.accept e bytes) := by
  unfold accept
  cases Dex.verify bytes with
  | error reason => exact .throw trivial
  | ok version => exact (notes_report _).bind fun _ _ => .pure trivial

theorem accounts_load (c : Container σ) (archive : Zip.Archive σ) (e : Zip.Entry) :
    Notes noted accounting (fun _ => True) (c.load archive e)
      (c.recorded.loadBy asContent archive.recorded e) := by
  have hread : Notes noted accounting (fun _ => True) (onSource (archive.readEntry e) >>= c.accept e)
      (onSource (archive.recorded.readEntryBy asContent e) >>= c.recorded.accept e) :=
    (notes_onSource (archive.accounts_readEntry e)).bind fun bytes _ => accounts_accept c e bytes
  unfold load loadBy
  rw [show c.recorded.maxEntrySize = c.maxEntrySize from rfl]
  cases c.maxEntrySize with
  | none => exact hread
  | some limit =>
      dsimp only
      by_cases hlimit : limit < e.uncompressedSize.toNat
      · rw [if_pos hlimit, if_pos hlimit]
        exact (Notes.throw trivial).bind fun _ (_ : True) => hread
      · rw [if_neg hlimit, if_neg hlimit]
        exact hread

theorem accounts_lookUp (c : Container σ) (name : String) (archive : Zip.Archive σ) :
    Notes noted accounting (fun _ => True) (c.lookUp name archive)
      (c.recorded.lookUpBy asContent name archive.recorded) := by
  unfold lookUp lookUpBy
  rw [show archive.recorded.find? name = archive.find? name from rfl]
  cases archive.find? name with
  | none => exact .pure trivial
  | some e => exact (accounts_load c archive e).bind fun f _ => .pure trivial

/-! ### Opening -/

/-- Opening the archive of a source, for its entries only. -/
def openDirectory (c : Container σ) (reader : Reader σ) : Action Error (Session σ) (List Zip.Entry) := do
  let entries ← (onSource (Zip.Archive.readDirectory reader)).mapError (.locate c.source.location)
  report (.parsedDirectory entries.length)
  report (.opened c.source.location entries.length)
  return entries

theorem openArchive_bind (c : Container σ) (reader : Reader σ)
    (work : Zip.Archive σ → Action Error (Session σ) α) :
    c.openArchive reader >>= work = c.openDirectory reader >>= fun entries => work ⟨reader, entries⟩ := by
  funext t
  cases hread : Zip.Archive.readDirectory reader t.source with
  | mk result s =>
      have harchive := onSource_eq (Zip.Archive.ofReader_of_readDirectory hread)
      have hdirectory := onSource_eq hread
      cases result with
      | error e =>
          have hopen : c.openArchive reader t = _ := bind_error (mapError_error harchive)
          have hopen' : c.openDirectory reader t = _ := bind_error (mapError_error hdirectory)
          rw [bind_error hopen, bind_error hopen']
      | ok entries =>
          have hopen : c.openArchive reader t = (.ok ⟨reader, entries⟩, _) := bind_ok (mapError_ok harchive)
          have hopen' : c.openDirectory reader t = (.ok entries, _) := bind_ok (mapError_ok hdirectory)
          rw [bind_ok hopen, bind_ok hopen']

theorem accounts_openDirectory (c : Container σ) (reader : Reader σ) :
    Notes noted accounting (fun _ => True) (c.openDirectory reader)
      (c.recorded.openDirectory reader.recorded) := by
  have hread : Notes noted accounting (fun _ => True)
      ((onSource (Zip.Archive.readDirectory reader)).mapError (.locate c.source.location))
      ((onSource (Zip.Archive.readDirectory reader.recorded)).mapError (.locate c.source.location)) :=
    (notes_onSource (Zip.Archive.accounts_readDirectory reader)).mapError (fun _ => rfl) (fun _ _ => trivial)
      fun _ _ => trivial
  exact hread.bind fun entries _ => (notes_report _).bind fun _ _ => (notes_report _).bind fun _ _ =>
    .pure trivial

theorem accounts_withArchive (c : Container σ) {work : Zip.Archive σ → Action Error (Session σ) α}
    {work' : Zip.Archive (Recorded σ) → Action Error (Session (Recorded σ)) α}
    (h : ∀ archive, Notes noted accounting (fun _ => True) (work archive) (work' archive.recorded)) :
    Notes noted accounting (fun _ => True) (c.withArchive work) (c.recorded.withArchive work') := by
  intro t calls
  cases hacquire : c.source.acquire t.source with
  | mk result s =>
      have hrecorded : c.recorded.source.acquire (t.noted calls).source =
          (result.map Reader.recorded, .during .records s (calls ++ [.acquire (failureIn? result)])) := by
        simp only [recorded, Source.recorded, noted, Recorded.during, hacquire]
      cases result with
      | error failure =>
          rw [withArchive, withArchive, onSource_eq hacquire, onSource_eq hrecorded]
          refine ⟨[.acquire (some failure)], rfl,
            .of_call (fun f hf => ?_) trivial (fun _ _ => trivial) fun _ _ => trivial⟩
          cases hf
          rfl
      | ok reader =>
          rw [withArchive, withArchive, onSource_eq hacquire, onSource_eq hrecorded]
          simp only [openArchive_bind]
          have hnotes := (accounts_openDirectory c reader).bind fun entries (_ : True) => h ⟨reader, entries⟩
          have hsound : ∀ call ∈ [Call.acquire none], call.fault? = none := by
            simp only [List.mem_singleton, forall_eq, Call.fault?]
          cases hwork : (c.openDirectory reader >>= fun entries => work ⟨reader, entries⟩)
              { t with source := s } with
          | mk result t₁ =>
              obtain ⟨new, hwork', haccounts⟩ := hnotes.exists_eq hwork (calls ++ [.acquire none])
              refine .append hsound (fun _ _ => trivial) ⟨new, ?_, haccounts⟩
              simp only [Except.map]
              -- Closing the source changes its state, but is no call that could fail.
              exact congrArg (fun y => (y.1, { y.2 with source := c.recorded.source.release y.2.source }))
                hwork'

theorem accounts_dexEntryNames (c : Container σ) :
    Notes noted accounting (fun _ => True) c.dexEntryNames (c.recorded.dexEntryNamesBy asContent) :=
  c.accounts_withArchive fun archive => accounts_dexNames archive archive.entries

theorem accounts_entry (c : Container σ) (name : String) :
    Notes noted accounting (fun _ => True) (c.entry name) (c.recorded.entryBy asContent name) :=
  c.accounts_withArchive (c.accounts_lookUp name)

/-! ### No failure is lost -/

/-- The calls of an operation show that it heeds failures: only the last call can have failed in a way that
is not passed over, and then the operation fails for that. -/
structure Heeds (calls : List Call) (result : Except Error α) : Prop where
  last : ∀ before call after f, calls = before ++ call :: after → call.fault? = some f →
    after = [] ∧ ∃ e, result = .error (.io e) ∧ f.ComesTo e
  sound : (∀ e, result ≠ .error (.io e)) → ∀ call ∈ calls, call.fault? = none

theorem heeds_of_accounts {calls : List Call} {post : α → Prop} {result : Except Error α}
    (h : Accounts accounting post calls result) : Heeds calls result where
  last before call after f hcalls hf := by
    obtain ⟨hafter, hresult⟩ := h.heeds before call after f hcalls hf
    exact ⟨hafter, f.toIoError, hresult, f.comesTo_toIoError⟩
  sound hio := h.fault?_eq_none_of_ne fun _ _ f _ => hio f.toIoError

/-- Listing and loading heed every failure of opening the source and of reading it, however many calls there
are and whichever of them fails. -/
theorem heeds_failures (c : Container σ) (t : Session σ) :
    (∃ calls, c.recorded.dexEntryNamesBy asContent (t.noted []) =
        ((c.dexEntryNames t).1, (c.dexEntryNames t).2.noted calls) ∧ Heeds calls (c.dexEntryNames t).1) ∧
      ∀ name, ∃ calls, c.recorded.entryBy asContent name (t.noted []) =
        ((c.entry name t).1, (c.entry name t).2.noted calls) ∧ Heeds calls (c.entry name t).1 := by
  constructor
  · obtain ⟨calls, hrecorded, haccounts⟩ := accounts_dexEntryNames c t []
    exact ⟨calls, hrecorded, heeds_of_accounts haccounts⟩
  · intro name
    obtain ⟨calls, hrecorded, haccounts⟩ := accounts_entry c name t []
    exact ⟨calls, hrecorded, heeds_of_accounts haccounts⟩

end Container

end DexArchive
