import DexArchive.Container
import DexArchive.Proofs.Zip.Reading

/-! Containers over a source of given bytes. Every operation opens the archive anew; what there is to work
on is for the bytes to say, and once the archive is open an operation gives what its work gives. -/

namespace DexArchive

namespace Source

variable {σ : Type} {source : Source σ} {d : ByteArray}

/-- Whenever the source is opened, that gives a reader that holds `d`. -/
def Holds (source : Source σ) (d : ByteArray) : Prop :=
  ∀ s, ∃ reader s', source.acquire s = (.ok reader, s') ∧ reader.Holds d

/-- Whenever the source is opened, that gives a reader that serves `d`. -/
def Serves (source : Source σ) (d : ByteArray) : Prop :=
  ∀ s, ∃ reader s', source.acquire s = (.ok reader, s') ∧ reader.Serves d

theorem Serves.holds (h : source.Serves d) : source.Holds d := by
  intro s
  obtain ⟨reader, s', hacquire, hserves⟩ := h s
  exact ⟨reader, s', hacquire, hserves.holds⟩

/-- Bytes in memory. -/
def memory (location : String) (d : ByteArray) : Source Unit where
  location := location
  acquire := pure (memoryReader Unit d)
  release s := s

theorem serves_memory (location : String) (d : ByteArray) : (memory location d).Serves d :=
  fun s => ⟨memoryReader Unit d, s, rfl, Reader.serves_memoryReader Unit d⟩

theorem holds_file (σ : Type) (path : String) (h : d.size < fileAddressLimit) :
    (file σ path (some d)).Holds d :=
  fun s => ⟨fileReader σ d, s, rfl, Reader.holds_fileReader σ h⟩

end Source

namespace Container

open Session

variable {σ α ε : Type} {c : Container σ} {t : Session σ} {d : ByteArray}

theorem onSource_eq {p : Action ε σ α} {result : Except ε α} {s' : σ} (h : p t.source = (result, s')) :
    onSource p t = (result, { t with source := s' }) := by
  rw [onSource, h]

theorem eq_of_onSource_ok {p : Action ε σ α} {t' : Session σ} {x : α}
    (h : onSource p t = (.ok x, t')) : p t.source = (.ok x, t'.source) := by
  cases hp : p t.source with
  | mk result s' =>
      rw [onSource_eq hp] at h
      cases h
      rfl

theorem report_eq (event : Event) (t : Session σ) :
    (report event : Action ε (Session σ) Unit) t = (.ok (), { t with events := t.events.push event }) := rfl

/-! ### Opening the archive -/

section Opening

variable {reader : Reader σ} {s₁ s₂ : σ}

/-- The ways that work can go, whatever it is: the source cannot be opened, there is no archive in it, or the
work is done and the source is closed after it. -/
theorem withArchive_cases (c : Container σ) (t : Session σ) :
    (∃ failure s, c.source.acquire t.source = (.error failure, s) ∧
        ∀ {α : Type} (work : Zip.Archive σ → Action Error (Session σ) α),
          c.withArchive work t = (.error (.ofFailure failure), { t with source := s })) ∨
      ∃ reader s₁, c.source.acquire t.source = (.ok reader, s₁) ∧
        ((∃ e s₂, Zip.Archive.ofReader reader s₁ = (.error e, s₂) ∧
            ∀ {α : Type} (work : Zip.Archive σ → Action Error (Session σ) α), c.withArchive work t =
              (.error (e.locate c.source.location), { t with source := c.source.release s₂ })) ∨
          ∃ archive t', Zip.Archive.ofReader reader s₁ = (.ok archive, t'.source) ∧
            ∀ {α : Type} (work : Zip.Archive σ → Action Error (Session σ) α), c.withArchive work t =
              ((work archive t').1,
                { (work archive t').2 with source := c.source.release (work archive t').2.source })) := by
  cases hacquire : c.source.acquire t.source with
  | mk result s₁ =>
      cases result with
      | error failure =>
          refine .inl ⟨failure, s₁, rfl, fun work => ?_⟩
          rw [withArchive, onSource_eq hacquire]
      | ok reader =>
          refine .inr ⟨reader, s₁, rfl, ?_⟩
          cases hread : Zip.Archive.ofReader reader s₁ with
          | mk result s₂ =>
              cases result with
              | error e =>
                  have hopen : c.openArchive reader { t with source := s₁ } =
                      (.error (e.locate c.source.location), { t with source := s₂ }) :=
                    Action.bind_error (Action.mapError_error (onSource_eq hread))
                  refine .inl ⟨e, s₂, rfl, fun work => ?_⟩
                  rw [withArchive, onSource_eq hacquire]
                  simp only [Action.bind_error hopen]
              | ok archive =>
                  have hopen : ∃ t', t'.source = s₂ ∧
                      c.openArchive reader { t with source := s₁ } = (.ok archive, t') :=
                    ⟨_, rfl, Action.bind_ok (Action.mapError_ok (onSource_eq hread))⟩
                  obtain ⟨t', rfl, hopen⟩ := hopen
                  refine .inr ⟨archive, t', rfl, fun work => ?_⟩
                  rw [withArchive, onSource_eq hacquire]
                  simp only [Action.bind_ok hopen]
                  rfl

/-- Work on an archive that could be opened, after which the source is closed. -/
theorem withArchive_eq {archive : Zip.Archive σ}
    (hacquire : c.source.acquire t.source = (.ok reader, s₁))
    (hread : Zip.Archive.ofReader reader s₁ = (.ok archive, s₂))
    (work : Zip.Archive σ → Action Error (Session σ) α) :
    ∃ t', t'.source = s₂ ∧ (c.withArchive work t).1 = (work archive t').1 ∧
      (c.withArchive work t).2.source = c.source.release (work archive t').2.source := by
  rcases c.withArchive_cases t with ⟨failure, s, hfail, -⟩ | ⟨reader', s₁', hopen, hcases⟩
  · rw [hacquire] at hfail
    cases hfail
  · rw [hacquire] at hopen
    cases hopen
    rcases hcases with ⟨e, s₂', hfail, -⟩ | ⟨archive', t', hopen, hall⟩
    · rw [hread] at hfail
      cases hfail
    · rw [hread] at hopen
      cases hopen
      rw [hall work]
      exact ⟨t', rfl, rfl, rfl⟩

theorem withArchive_of_ofReader_ok {archive : Zip.Archive σ}
    (hacquire : c.source.acquire t.source = (.ok reader, s₁))
    (hread : Zip.Archive.ofReader reader s₁ = (.ok archive, s₂))
    (work : Zip.Archive σ → Action Error (Session σ) α) :
    ∃ t', (c.withArchive work t).1 = (work archive t').1 := by
  obtain ⟨t', -, hresult, -⟩ := withArchive_eq hacquire hread work
  exact ⟨t', hresult⟩

theorem withArchive_of_ofReader_error {e : Error}
    (hacquire : c.source.acquire t.source = (.ok reader, s₁))
    (hread : Zip.Archive.ofReader reader s₁ = (.error e, s₂))
    (work : Zip.Archive σ → Action Error (Session σ) α) :
    (c.withArchive work t).1 = .error (e.locate c.source.location) := by
  rcases c.withArchive_cases t with ⟨failure, s, hfail, -⟩ | ⟨reader', s₁', hopen, hcases⟩
  · rw [hacquire] at hfail
    cases hfail
  · rw [hacquire] at hopen
    cases hopen
    rcases hcases with ⟨e', s₂', hfail, hall⟩ | ⟨archive, t', hopen, -⟩
    · rw [hread] at hfail
      cases hfail
      exact congrArg Prod.fst (hall work)
    · rw [hread] at hopen
      cases hopen

/-- Work that went well was done on an archive that could be opened. -/
theorem exists_of_withArchive_ok {work : Zip.Archive σ → Action Error (Session σ) α} {x : α}
    (h : (c.withArchive work t).1 = .ok x) :
    ∃ reader s₁ archive t', c.source.acquire t.source = (.ok reader, s₁) ∧
      Zip.Archive.ofReader reader s₁ = (.ok archive, t'.source) ∧ (work archive t').1 = .ok x := by
  rcases c.withArchive_cases t with ⟨failure, s, -, hall⟩ | ⟨reader, s₁, hacquire,
    ⟨e, s₂, -, hall⟩ | ⟨archive, t', hread, hall⟩⟩
  · rw [hall work] at h
    cases h
  · rw [hall work] at h
    cases h
  · rw [hall work] at h
    exact ⟨reader, s₁, archive, t', hacquire, hread, h⟩

/-- Work on the archive in `d`: it is for the bytes to say whether it can begin, and on which entries. -/
theorem withArchive_of_serves (h : c.source.Serves d) (work : Zip.Archive σ → Action Error (Session σ) α)
    (t : Session σ) :
    (∃ e, Zip.Archive.entriesOf d = .error e ∧
        (c.withArchive work t).1 = .error (e.locate c.source.location)) ∨
      ∃ entries reader t₁, Zip.Archive.entriesOf d = .ok entries ∧ reader.Serves d ∧
        (c.withArchive work t).1 = (work ⟨reader, entries⟩ t₁).1 := by
  obtain ⟨reader, s₁, hacquire, hserves⟩ := h t.source
  obtain ⟨s₂, hread⟩ := Zip.Archive.ofReader_of_serves hserves s₁
  cases hentries : Zip.Archive.entriesOf d with
  | error e =>
      rw [hentries] at hread
      exact .inl ⟨e, rfl, withArchive_of_ofReader_error hacquire hread work⟩
  | ok entries =>
      rw [hentries] at hread
      obtain ⟨t₁, hwork⟩ := withArchive_of_ofReader_ok hacquire hread work
      exact .inr ⟨entries, reader, t₁, rfl, hserves, hwork⟩

end Opening

/-! ### Telling by the start, and listing -/

section Telling

variable {a : Zip.Archive σ} {e : Zip.Entry} {s' : σ}

theorem isDex_of_isDirectory (a : Zip.Archive σ) (h : e.isDirectory = true) (t : Session σ) :
    ∃ t', isDex a e t = (.ok false, t') ∧ t'.source = t.source := by
  rw [isDex, isDexBy, h]
  exact ⟨_, rfl, rfl⟩

/-- Whatever is not a directory is opened and sniffed, and it is for the verdict to say. -/
theorem isDex_of_sniff_ok (h : e.isDirectory = false) {verdict : Except Dex.HeaderError UInt32}
    (hsniff : a.sniff e t.source = (.ok verdict, s')) :
    ∃ t', isDex a e t = (.ok verdict.isOk, t') ∧ t'.source = s' := by
  obtain ⟨content, s, hcontent, hverdict⟩ := Action.exists_of_bind_eq_ok hsniff
  let t₁ : Session σ := { t with events := t.events.push (.sniffing e.name) }
  have hcontent' : onSource (a.content e) t₁ = _ := onSource_eq hcontent
  have hverdict' := onSource_eq (t := { t₁ with source := s }) hverdict
  rw [isDex, isDexBy, h, if_neg Bool.false_ne_true, Action.bind_ok (report_eq _ t), Action.bind_ok hcontent',
    Action.bind_ok hverdict']
  cases verdict with
  | ok version => exact ⟨_, rfl, rfl⟩
  | error reason => exact ⟨_, rfl, rfl⟩

/-- What cannot be opened or read is an error. -/
theorem isDex_of_sniff_error (h : e.isDirectory = false) {error : Error}
    (hsniff : a.sniff e t.source = (.error error, s')) :
    ∃ t', isDex a e t = (.error error, t') ∧ t'.source = s' := by
  let t₁ : Session σ := { t with events := t.events.push (.sniffing e.name) }
  rw [isDex, isDexBy, h, if_neg Bool.false_ne_true, Action.bind_ok (report_eq _ t)]
  cases hcontent : a.content e t.source with
  | mk result s =>
      have hcontent' : onSource (a.content e) t₁ = _ := onSource_eq hcontent
      cases result with
      | error cause =>
          rw [Zip.Archive.sniff, Action.bind_error hcontent] at hsniff
          cases hsniff
          rw [Action.bind_error hcontent']
          exact ⟨_, rfl, rfl⟩
      | ok content =>
          rw [Zip.Archive.sniff_of_content_ok hcontent] at hsniff
          have hsniff' := onSource_eq (t := { t₁ with source := s }) hsniff
          rw [Action.bind_ok hcontent', Action.bind_error hsniff']
          exact ⟨_, rfl, rfl⟩

/-- The names of the entries, one by one. -/
theorem dexNames_cons (a : Zip.Archive σ) (e : Zip.Entry) (entries : List Zip.Entry) :
    dexNames a (e :: entries) = (do
      let found ← isDex a e
      let names ← dexNames a entries
      return if found then e.name :: names else names) := rfl

theorem dexEntryNames_eq (c : Container σ) :
    c.dexEntryNames = c.withArchive fun archive => dexNames archive archive.entries := rfl

end Telling

/-! ### Loading -/

section Loading

variable {a : Zip.Archive σ} {e : Zip.Entry}

theorem exists_of_accept_ok {b : ByteArray} {f : DexFile} {t' : Session σ}
    (h : c.accept e b t = (.ok f, t')) :
    ∃ version, Dex.verify b = .ok version ∧ f = ⟨e.name, b, c.opcodes, c.id⟩ := by
  unfold accept at h
  cases hverify : Dex.verify b with
  | error reason =>
      rw [hverify] at h
      cases h
  | ok version =>
      rw [hverify] at h
      cases h
      exact ⟨version, rfl, rfl⟩

theorem load_of_le (h : ∀ limit, c.maxEntrySize = some limit → e.uncompressedSize.toNat ≤ limit) :
    c.load a e = onSource (a.readEntry e) >>= c.accept e := by
  unfold load loadBy
  cases hmax : c.maxEntrySize with
  | none => rfl
  | some limit =>
      dsimp only
      rw [if_neg (Nat.not_lt.2 (h limit hmax))]
      rfl

theorem load_of_lt {limit : Nat} (hmax : c.maxEntrySize = some limit) (hlt : limit < e.uncompressedSize.toNat)
    (t : Session σ) :
    c.load a e t = (.error (.entryTooLarge e.name e.uncompressedSize.toNat limit), t) := by
  unfold load loadBy
  rw [hmax]
  dsimp only
  rw [if_pos hlt]
  rfl

theorem load_of_readEntry_error (hlimit : c.maxEntrySize = none) {error : Error}
    (h : (a.readEntry e t.source).1 = .error error) : (c.load a e t).1 = .error error := by
  have hread : onSource (a.readEntry e) t = (.error error, _) := onSource_eq (Prod.ext h rfl)
  rw [load, loadBy, hlimit]
  exact congrArg Prod.fst (Action.bind_error hread)

theorem load_of_readEntry_ok (hlimit : c.maxEntrySize = none) {b : ByteArray}
    (h : (a.readEntry e t.source).1 = .ok b) :
    (c.load a e t).1 = match Dex.verify b with
      | .error reason => .error (.notADexFile e.name reason)
      | .ok _ => .ok ⟨e.name, b, c.opcodes, c.id⟩ := by
  have hread : onSource (a.readEntry e) t = (.ok b, _) := onSource_eq (Prod.ext h rfl)
  rw [load, loadBy, hlimit]
  apply (congrArg Prod.fst (Action.bind_ok hread)).trans
  unfold accept
  cases Dex.verify b <;> rfl

/-- What was loaded was within the limit, could be read, and is a dex file. -/
theorem exists_of_load_ok {f : DexFile} (h : (c.load a e t).1 = .ok f) :
    (∀ limit, c.maxEntrySize = some limit → e.uncompressedSize.toNat ≤ limit) ∧
      ∃ b version, (a.readEntry e t.source).1 = .ok b ∧ Dex.verify b = .ok version ∧
        f = ⟨e.name, b, c.opcodes, c.id⟩ := by
  have hlimit : ∀ limit, c.maxEntrySize = some limit → e.uncompressedSize.toNat ≤ limit := by
    intro limit hmax
    apply Nat.le_of_not_lt
    intro hlt
    rw [load_of_lt hmax hlt] at h
    cases h
  refine ⟨hlimit, ?_⟩
  rw [load_of_le hlimit] at h
  cases hload : (onSource (a.readEntry e) >>= c.accept e) t with
  | mk result t' =>
      rw [hload] at h
      obtain rfl : result = .ok f := h
      obtain ⟨b, t₁, hread, haccept⟩ := Action.exists_of_bind_eq_ok hload
      obtain ⟨version, hverify, rfl⟩ := exists_of_accept_ok haccept
      exact ⟨b, version, congrArg Prod.fst (eq_of_onSource_ok hread), hverify, rfl⟩

theorem entry_eq (name : String) : c.entry name = c.withArchive (c.lookUp name) := rfl

theorem lookUp_eq_pure {name : String} (h : a.find? name = none) : c.lookUp name a = pure none := by
  rw [lookUp, lookUpBy, h]

theorem lookUp_of_find?_eq_none {name : String} (h : a.find? name = none) :
    (c.lookUp name a t).1 = .ok none := by
  rw [lookUp_eq_pure h]
  rfl

theorem lookUp_eq_bind {name : String} (h : a.find? name = some e) :
    c.lookUp name a = c.load a e >>= fun f => pure (some f) := by
  rw [lookUp, lookUpBy, h]
  rfl

theorem lookUp_eq {name : String} (h : a.find? name = some e) (t : Session σ) :
    c.lookUp name a t = ((c.load a e t).1.map some, (c.load a e t).2) := by
  rw [lookUp_eq_bind h]
  cases hload : c.load a e t with
  | mk result t' =>
      cases result with
      | error error =>
          rw [Action.bind_error hload]
          rfl
      | ok f =>
          rw [Action.bind_ok hload]
          rfl

theorem lookUp_of_find?_eq_some {name : String} (h : a.find? name = some e) :
    (c.lookUp name a t).1 = (c.load a e t).1.map some := congrArg Prod.fst (lookUp_eq h t)

end Loading

end Container

end DexArchive
