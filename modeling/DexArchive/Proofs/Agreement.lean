import DexArchive.Proofs.Failures
import DexArchive.Proofs.Packing
import DexArchive.Proofs.Zip.Locality

/-! The operations of a container on a source that is always the same. They agree on what is an archive:
either the archive cannot be opened, and each of them tells so with one and the same error, or it can, and
then nothing that is wrong with an entry is taken for a fault of the archive. -/

namespace DexArchive

namespace Action

variable {ε ε' σ α β : Type} {E : ε → Prop}

/-- Whatever the computation fails with is one of `E`. -/
def FailsOnly (E : ε → Prop) (p : Action ε σ α) : Prop := ∀ s e, (p s).1 = .error e → E e

theorem failsOnly_pure (a : α) : FailsOnly E (pure a : Action ε σ α) := by
  intro s e h
  cases h

theorem failsOnly_throw {e : ε} (he : E e) : FailsOnly E (throw e : Action ε σ α) := by
  intro s e' h
  cases h
  exact he

theorem FailsOnly.bind {p : Action ε σ α} {q : α → Action ε σ β} (hp : FailsOnly E p)
    (hq : ∀ a, FailsOnly E (q a)) : FailsOnly E (p >>= q) := by
  intro s e h
  cases hps : p s with
  | mk result s' =>
      cases result with
      | error e' =>
          rw [bind_error hps] at h
          cases h
          exact hp s e (congrArg Prod.fst hps)
      | ok a =>
          rw [bind_ok hps] at h
          exact hq a s' e h

theorem FailsOnly.mono {E' : ε → Prop} {p : Action ε σ α} (h : FailsOnly E p) (hE : ∀ e, E e → E' e) :
    FailsOnly E' p :=
  fun s e he => hE e (h s e he)

/-- After a change of the errors no others are left. -/
theorem failsOnly_mapError {f : ε' → ε} (hf : ∀ e, E (f e)) (p : Action ε' σ α) :
    FailsOnly E (p.mapError f) := by
  intro s e h
  cases hps : p s with
  | mk result s' =>
      cases result with
      | error e' =>
          rw [mapError_error hps] at h
          cases h
          exact hf e'
      | ok a =>
          rw [mapError_ok hps] at h
          cases h

end Action

open DexArchive.Action

variable {σ : Type}

/-- The error is about something else than that the bytes are no archive. -/
def Error.IsOther (e : Error) : Prop := e.isNotAnArchive = false

/-- The error is about the content of an entry, or about getting at it. -/
def Error.IsOfContent : Error → Prop
  | .io _ | .notADexFile .. | .unsupportedEntry .. => True
  | .notAnArchive .. | .entryTooLarge .. => False

theorem Error.IsOfContent.isOther {e : Error} (h : e.IsOfContent) : e.IsOther := by
  cases e with
  | notAnArchive location cause => exact h.elim
  | io cause => rfl
  | notADexFile entry cause => rfl
  | unsupportedEntry entry cause => rfl
  | entryTooLarge entry size limit => rfl

theorem Error.isOther_entryTooLarge (entry : String) (size limit : Nat) :
    (entryTooLarge entry size limit).IsOther := rfl

/-! ### Below the opening -/

namespace Zip.Archive

theorem failsOnly_readBytes (reader : Reader σ) (offset length : Nat) :
    FailsOnly Error.IsOfContent (readBytes reader offset length) :=
  failsOnly_mapError (fun _ => trivial) _

theorem failsOnly_content (a : Archive σ) (e : Entry) : FailsOnly Error.IsOfContent (a.content e) := by
  unfold content
  cases e.unsupported? with
  | some cause => exact failsOnly_throw trivial
  | none =>
      refine (failsOnly_readBytes a.reader _ _).bind fun header => ?_
      by_cases hsignature : numberAt header 0 4 ≠ localHeaderSignature
      · rw [if_pos hsignature]
        exact failsOnly_throw trivial
      · rw [if_neg hsignature]
        exact failsOnly_pure _

theorem failsOnly_readContent {α : Type} (c : Content) (p : Action IoError (Content × σ) α) :
    FailsOnly Error.IsOfContent (readContent c p) := by
  intro s e h
  cases hp : p (c, s) with
  | mk result t =>
      cases result with
      | error cause =>
          rw [readContent_error hp] at h
          cases h
          trivial
      | ok a =>
          rw [readContent_ok hp] at h
          cases h

theorem failsOnly_readEntry (a : Archive σ) (e : Entry) : FailsOnly Error.IsOfContent (a.readEntry e) := by
  rw [readEntry_eq_bind]
  refine (failsOnly_content a e).bind fun c => (failsOnly_readContent c _).bind fun b => ?_
  unfold verified
  by_cases hsize : b.size ≠ e.uncompressedSize.toNat
  · rw [if_pos hsize]
    exact failsOnly_throw trivial
  · rw [if_neg hsize]
    by_cases hcrc : crc32 b ≠ e.crc
    · rw [if_pos hcrc]
      exact failsOnly_throw trivial
    · rw [if_neg hcrc]
      exact failsOnly_pure _

end Zip.Archive

namespace Container

open Session

variable {E : Error → Prop}

theorem failsOnly_onSource {α : Type} {p : Action Error σ α} (h : FailsOnly E p) : FailsOnly E (onSource p) :=
  fun t e he => h t.source e he

theorem failsOnly_report (event : Event) : FailsOnly E (report event : Action Error (Session σ) Unit) := by
  intro t e h
  cases h

theorem failsOnly_isDex (a : Zip.Archive σ) (e : Zip.Entry) : FailsOnly Error.IsOfContent (isDex a e) := by
  unfold isDex isDexBy
  by_cases hdirectory : e.isDirectory
  · rw [if_pos hdirectory]
    exact (failsOnly_report _).bind fun _ => failsOnly_pure _
  · rw [if_neg hdirectory]
    refine (failsOnly_report _).bind fun _ => (failsOnly_onSource (a.failsOnly_content e)).bind fun content =>
      (failsOnly_onSource (Zip.Archive.failsOnly_readContent content _)).bind fun verdict => ?_
    cases verdict with
    | ok version => exact failsOnly_pure _
    | error reason => exact (failsOnly_report _).bind fun _ => failsOnly_pure _

theorem failsOnly_dexNames (a : Zip.Archive σ) (entries : List Zip.Entry) :
    FailsOnly Error.IsOfContent (dexNames a entries) := by
  induction entries with
  | nil => exact failsOnly_pure _
  | cons e rest ih => exact (failsOnly_isDex a e).bind fun found => ih.bind fun names => failsOnly_pure _

theorem failsOnly_accept (c : Container σ) (e : Zip.Entry) (bytes : ByteArray) :
    FailsOnly Error.IsOfContent (c.accept e bytes) := by
  unfold accept
  cases Dex.verify bytes with
  | error reason => exact failsOnly_throw trivial
  | ok version => exact (failsOnly_report _).bind fun _ => failsOnly_pure _

/-- What is left of loading an entry that is not too large. -/
theorem failsOnly_readEntry_accept (c : Container σ) (a : Zip.Archive σ) (e : Zip.Entry) :
    FailsOnly Error.IsOfContent (onSource (a.readEntry e) >>= c.accept e) :=
  (failsOnly_onSource (a.failsOnly_readEntry e)).bind fun bytes => c.failsOnly_accept e bytes

theorem failsOnly_load (c : Container σ) (a : Zip.Archive σ) (e : Zip.Entry) :
    FailsOnly Error.IsOther (c.load a e) := by
  have hread := (c.failsOnly_readEntry_accept a e).mono fun _ => Error.IsOfContent.isOther
  unfold load loadBy
  cases c.maxEntrySize with
  | none => exact hread
  | some limit =>
      dsimp only
      by_cases hlimit : limit < e.uncompressedSize.toNat
      · rw [if_pos hlimit]
        exact (failsOnly_throw (Error.isOther_entryTooLarge _ _ _)).bind fun _ => hread
      · rw [if_neg hlimit]
        exact hread

theorem failsOnly_lookUp (c : Container σ) (name : String) (a : Zip.Archive σ) :
    FailsOnly Error.IsOther (c.lookUp name a) := by
  cases hfind : a.find? name with
  | none =>
      rw [lookUp_eq_pure hfind]
      exact failsOnly_pure _
  | some e =>
      rw [lookUp_eq_bind hfind]
      exact (c.failsOnly_load a e).bind fun f => failsOnly_pure _

/-- A lookup finds nothing only if there is no entry of the name. -/
theorem lookUp_eq_none_iff {c : Container σ} {name : String} {a : Zip.Archive σ} {t : Session σ} :
    (c.lookUp name a t).1 = .ok none ↔ ∀ e ∈ a.entries, e.name ≠ name := by
  have hnone : a.find? name = none ↔ ∀ e ∈ a.entries, e.name ≠ name := by
    rw [Zip.Archive.find?, List.find?_eq_none]
    simp only [decide_eq_true_eq, ne_eq]
  rw [← hnone]
  cases hfind : a.find? name with
  | none => simp only [lookUp_of_find?_eq_none hfind]
  | some e =>
      rw [lookUp_of_find?_eq_some hfind]
      cases (c.load a e t).1 with
      | error error => simp [Except.map]
      | ok f => simp [Except.map]

end Container

/-! ### Opening -/

/-- Every use of the source begins alike: it cannot be opened for the one reason, or what is opened holds the
same bytes. -/
def Source.IsAlways (source : Source σ) : Except Failure ByteArray → Prop
  | .error failure => ∀ s, (source.acquire s).1 = .error failure
  | .ok d => source.Holds d

namespace Container

open Session

variable {c : Container σ} {outcome : Except Failure ByteArray}

/-- The source can be opened, and an archive in it. -/
def Opens (c : Container σ) (t : Session σ) : Prop :=
  ∃ reader s archive s', c.source.acquire t.source = (.ok reader, s) ∧
    Zip.Archive.ofReader reader s = (.ok archive, s')

/-- The operation failed, and before there was an archive to work on. -/
def FailsToOpen {α : Type} (c : Container σ) (t : Session σ) (result : Except Error α) : Prop :=
  ¬c.Opens t ∧ ∃ e, result = .error e

/-- The error that tells why there is no archive: what opening the source failed for, or what is wrong with
the bytes, with their location in front. -/
def Refuses (c : Container σ) (outcome : Except Failure ByteArray) (e : Error) : Prop :=
  match outcome with
  | .error failure => ∃ io, e = .io io ∧ failure.ComesTo io
  | .ok d => ∃ cause, Zip.entriesIn d = .error cause ∧ e = .notAnArchive (some c.source.location) cause ∧
      e.message = "not a zip archive: " ++ c.source.location ++ ": " ++ cause.message

theorem withArchive_of_acquire_error {α : Type} {t : Session σ} {failure : Failure}
    (h : (c.source.acquire t.source).1 = .error failure) (work : Zip.Archive σ → Action Error (Session σ) α) :
    (c.withArchive work t).1 = .error (.ofFailure failure) := by
  rw [withArchive, onSource_eq (Prod.ext h rfl)]

/-- Either no operation begins to work, and all of them fail alike, or each of them works on the entries in
the bytes. -/
theorem opening_cases (h : c.source.IsAlways outcome) :
    (∃ e, c.Refuses outcome e ∧ ∀ t, ¬c.Opens t ∧
        ∀ {α : Type} (work : Zip.Archive σ → Action Error (Session σ) α), (c.withArchive work t).1 = .error e) ∨
      ∃ d entries, outcome = .ok d ∧ Zip.entriesIn d = .ok entries ∧ ∀ t, c.Opens t ∧
        ∀ {α : Type} (work : Zip.Archive σ → Action Error (Session σ) α),
          ∃ reader t', (c.withArchive work t).1 = (work ⟨reader, entries⟩ t').1 := by
  cases outcome with
  | error failure =>
      refine .inl ⟨.ofFailure failure, ⟨_, rfl, failure.comesTo_toIoError⟩, fun t => ⟨?_, fun work => ?_⟩⟩
      · rintro ⟨reader, s, archive, s', hacquire, -⟩
        have hfail := h t.source
        rw [hacquire] at hfail
        cases hfail
      · exact withArchive_of_acquire_error (h t.source) work
  | ok d =>
      have hopen : ∀ t : Session σ, ∃ reader s s', c.source.acquire t.source = (.ok reader, s) ∧
          Zip.Archive.ofReader reader s =
            (((Zip.entriesIn d).mapError (Error.notAnArchive none)).map (Zip.Archive.mk reader), s') := by
        intro t
        obtain ⟨reader, s, hacquire, hholds⟩ := h t.source
        obtain ⟨s', hread⟩ := Zip.computes_readDirectory hholds s
        exact ⟨reader, s, s', hacquire, Zip.Archive.ofReader_of_readDirectory hread⟩
      cases hentries : Zip.entriesIn d with
      | error cause =>
          rw [hentries] at hopen
          refine .inl ⟨.notAnArchive (some c.source.location) cause, ⟨cause, hentries, rfl, rfl⟩,
            fun t => ⟨?_, fun work => ?_⟩⟩
          · rintro ⟨reader, s, archive, s', hacquire, hread⟩
            obtain ⟨reader', s₁, s₂, hacquire', hread'⟩ := hopen t
            rw [hacquire] at hacquire'
            cases hacquire'
            rw [hread] at hread'
            cases hread'
          · obtain ⟨reader, s, s', hacquire, hread⟩ := hopen t
            exact withArchive_of_ofReader_error hacquire hread work
      | ok entries =>
          rw [hentries] at hopen
          refine .inr ⟨d, entries, rfl, hentries, fun t => ?_⟩
          obtain ⟨reader, s, s', hacquire, hread⟩ := hopen t
          refine ⟨⟨reader, s, _, s', hacquire, hread⟩, fun work => ?_⟩
          obtain ⟨t', hwork⟩ := withArchive_of_ofReader_ok hacquire hread work
          exact ⟨reader, t', hwork⟩

theorem isZip_eq (c : Container σ) (t : Session σ) :
    (c.isZip t).1 = (c.withArchive (fun _ => pure ()) t).1.isOk := by
  rw [isZip]
  cases c.withArchive (fun _ => pure ()) t with
  | mk result t' => cases result <;> rfl

/-- The three operations agree on what is an archive, whenever each of them is done. -/
theorem operations_agree (h : c.source.IsAlways outcome) (name : String) (t t₁ t₂ : Session σ) :
    ((c.isZip t).1 = false ↔
      c.FailsToOpen t₁ (c.dexEntryNames t₁).1 ∧ c.FailsToOpen t₂ (c.entry name t₂).1) ∧
    ((c.isZip t).1 = false → ∃ e, c.Refuses outcome e ∧
      (c.dexEntryNames t₁).1 = .error e ∧ (c.entry name t₂).1 = .error e) ∧
    ((c.isZip t).1 = true →
      (∀ e, (c.dexEntryNames t₁).1 = .error e → e.isNotAnArchive = false) ∧
      (∀ e, (c.entry name t₂).1 = .error e → e.isNotAnArchive = false) ∧
      ∃ d entries, outcome = .ok d ∧ Zip.entriesIn d = .ok entries ∧
        ((c.entry name t₂).1 = .ok none ↔ ∀ e ∈ entries, e.name ≠ name)) := by
  rw [isZip_eq, dexEntryNames_eq, entry_eq]
  rcases opening_cases h with ⟨e, hrefuses, hall⟩ | ⟨d, entries, houtcome, hentries, hall⟩
  · rw [(hall t).2, (hall t₁).2, (hall t₂).2]
    refine ⟨iff_of_true rfl ⟨⟨(hall t₁).1, e, rfl⟩, (hall t₂).1, e, rfl⟩,
      fun _ => ⟨e, hrefuses, rfl, rfl⟩, fun hok => ?_⟩
    cases hok
  · obtain ⟨reader, t', hwork⟩ := (hall t).2 fun _ => pure ()
    obtain ⟨reader₁, t₁', hnames⟩ := (hall t₁).2 fun archive => dexNames archive archive.entries
    obtain ⟨reader₂, t₂', hlook⟩ := (hall t₂).2 (c.lookUp name)
    have hok : (c.withArchive (fun _ => pure ()) t).1 = .ok () := hwork
    rw [hok, hnames, hlook]
    refine ⟨iff_of_false Bool.true_eq_false.mp fun hfails => hfails.1.1 (hall t₁).1, fun hfalse => ?_,
      fun _ => ⟨(failsOnly_dexNames _ _).mono (fun _ => Error.IsOfContent.isOther) _,
        c.failsOnly_lookUp name _ _, d, entries, houtcome, hentries, lookUp_eq_none_iff⟩⟩
    cases hfalse

/-- A local file that does not exist. -/
def missingContainer : Container Unit := ⟨⟨1⟩, .file Unit "gone.apk" none, .default, none⟩

/-- Bytes in memory whose records point nowhere. -/
def forgedContainer : Container Unit := ⟨⟨1⟩, .memory "memory:t" Zip.Archive.forged, .default, none⟩

/-- No file, bytes that are no archive, and an archive. -/
theorem operations_agree_for_each :
    (missingContainer.source.IsAlways (.error (.io .noSuchFile)) ∧
      missingContainer.FailsToOpen ⟨(), #[]⟩ (missingContainer.dexEntryNames ⟨(), #[]⟩).1) ∧
    (forgedContainer.source.IsAlways (.ok Zip.Archive.forged) ∧
      ∃ e, forgedContainer.Refuses (.ok Zip.Archive.forged) e ∧
        (forgedContainer.dexEntryNames ⟨(), #[]⟩).1 = .error e ∧
        (forgedContainer.entry "classes.dex" ⟨(), #[]⟩).1 = .error e) ∧
    smallContainer.source.IsAlways (.ok smallPackage.bytes) ∧
      (smallContainer.isZip ⟨(), #[]⟩).1 = true ∧
      ∃ entries, Zip.entriesIn smallPackage.bytes = .ok entries ∧ ∀ e ∈ entries, e.name ≠ "absent" := by
  refine ⟨?_, ?_, ?_⟩
  · have hsource : missingContainer.source.IsAlways (.error (.io .noSuchFile)) := fun s => rfl
    have hzip : (missingContainer.isZip ⟨(), #[]⟩).1 = false := rfl
    obtain ⟨hagree, -, -⟩ := operations_agree hsource "classes.dex" ⟨(), #[]⟩ ⟨(), #[]⟩ ⟨(), #[]⟩
    exact ⟨hsource, (hagree.1 hzip).1⟩
  · have hsource : forgedContainer.source.IsAlways (.ok Zip.Archive.forged) :=
      (Source.serves_memory "memory:t" Zip.Archive.forged).holds
    obtain ⟨s, hread⟩ := Zip.Archive.readDirectory_forged
    have hopen := withArchive_of_ofReader_error (c := forgedContainer) (t := ⟨(), #[]⟩) rfl
      (Zip.Archive.ofReader_of_readDirectory hread) fun _ => pure ()
    have hzip : (forgedContainer.isZip ⟨(), #[]⟩).1 = false := by
      rw [isZip_eq, hopen]
      rfl
    exact ⟨hsource, (operations_agree hsource "classes.dex" _ _ _).2.1 hzip⟩
  · have hsource : smallContainer.source.IsAlways (.ok smallPackage.bytes) :=
      Source.holds_file Unit "small.zip" (by decide +kernel)
    have hzip := isZip_of_package hsource ⟨(), #[]⟩
    obtain ⟨-, -, d, entries, hd, hentries, hnone⟩ :=
      (operations_agree hsource "absent" _ ⟨(), #[]⟩ ⟨(), #[]⟩).2.2 hzip
    cases hd
    exact ⟨hsource, hzip, entries, hentries, hnone.1 (entry_of_find?_eq_none hsource rfl _)⟩

end Container

end DexArchive
