import DexArchive.Proofs.Agreement
import DexArchive.Proofs.Reads
import DexArchive.Proofs.Runs

/-! The limit for entries. It is held against the length that the directory gives, before anything else of the
entry is looked at; whatever it does not refuse goes as it would without a limit. How much is read of an entry
is for that length to say and not for the data, so that a limit is a limit for the reading as well. -/

namespace DexArchive

open DexArchive.Action

variable {σ : Type}

/-- The error is that an entry is too large. -/
def Error.IsTooLarge : Error → Prop
  | .entryTooLarge .. => True
  | .notAnArchive .. | .io _ | .notADexFile .. | .unsupportedEntry .. => False

theorem Error.IsOfContent.not_isTooLarge {e : Error} (h : e.IsOfContent) : ¬e.IsTooLarge := by
  cases e with
  | entryTooLarge entry size limit => exact h.elim
  | notAnArchive location cause => exact id
  | io cause => exact id
  | notADexFile entry cause => exact id
  | unsupportedEntry entry cause => exact id

theorem Error.not_isTooLarge_ofFailure (failure : Failure) : ¬(ofFailure failure).IsTooLarge := id

theorem Error.isTooLarge_locate {e : Error} {location : String} : (e.locate location).IsTooLarge ↔ e.IsTooLarge := by
  cases e with
  | notAnArchive location' cause => cases location' <;> rfl
  | io cause => rfl
  | notADexFile entry cause => rfl
  | unsupportedEntry entry cause => rfl
  | entryTooLarge entry size limit => rfl

namespace Zip.Archive

variable {a : Archive σ} {e : Entry}

/-- No entry is too large for an archive to be opened. -/
theorem failsOnly_ofReader (reader : Reader σ) : FailsOnly (fun e => ¬e.IsTooLarge) (ofReader reader) := by
  have hnotes : Notes (Recorded.during .records) ⟨Error.ofFailure, fun _ => True, fun e => ¬e.IsTooLarge⟩
      (fun _ => True) (readDirectory reader) (readDirectory reader.recorded) :=
    notes_readDirectory
      (fun offset length _ => (notes_readBytes reader offset length).mono rfl (fun _ _ => trivial)
        (fun s e he _ => (failsOnly_readBytes reader offset length s e he).not_isTooLarge) fun _ => id)
      fun _ => id
  intro s e he
  rw [ofReader_of_readDirectory (Prod.eta _).symm] at he
  obtain ⟨calls, -, haccounts⟩ := hnotes s []
  cases hresult : (readDirectory reader s).1 with
  | error e' =>
      rw [hresult] at he
      cases he
      exact haccounts.error e hresult
  | ok entries =>
      rw [hresult] at he
      cases he

/-! ### How much is read -/

/-- Once its content is open, an entry is read by reads of the content and nothing else. They hand over no more than
one byte beyond the length that the directory gives, and what is given is all that they hand over. -/
theorem exists_reads_readEntry {content : Content} {s s' : σ} (h : a.content e s = (.ok content, s')) :
    ∃ log u, (Content.stream a.reader).Reads (content, s') log u ∧ (a.readEntry e s).2 = u.2 ∧
      (Stream.delivered log).size ≤ min (e.uncompressedSize.toNat + 1) addressMax ∧
      ∀ b, (a.readEntry e s).1 = .ok b → b = Stream.delivered log := by
  obtain ⟨log, hreads, hsize, hresult⟩ := (Content.stream a.reader).exists_reads_readToEnd
    e.uncompressedSize.toNat (min (e.uncompressedSize.toNat + 1) addressMax) (content, s')
  rw [readEntry_eq_bind, bind_ok h]
  cases hread : (Content.stream a.reader).readToEnd e.uncompressedSize.toNat
      (min (e.uncompressedSize.toNat + 1) addressMax) (content, s') with
  | mk result u =>
      rw [hread] at hreads hresult
      refine ⟨log, u, hreads, ?_⟩
      cases result with
      | error cause =>
          rw [bind_error (readContent_error hread)]
          exact ⟨rfl, hsize, nofun⟩
      | ok b =>
          rw [bind_ok (readContent_ok hread), ofExcept_eq]
          refine ⟨rfl, hsize, fun b' hb' => ?_⟩
          rw [eq_of_verified_ok hb']
          exact hresult b rfl

end Zip.Archive

namespace Container

open Session

variable {c : Container σ} {a : Zip.Archive σ} {e : Zip.Entry} {name : String} {limit : Nat} {t : Session σ} {s : σ}

/-- The container with the limit that is given. -/
def limited (c : Container σ) (limit : Option Nat) : Container σ := { c with maxEntrySize := limit }

/-! ### In an open archive -/

theorem source_accept (c : Container σ) (e : Zip.Entry) (b : ByteArray) (t : Session σ) :
    (c.accept e b t).2.source = t.source := by
  unfold accept
  cases Dex.verify b <;> rfl

/-- What is within the limit is loaded from the source as reading the entry does it. -/
theorem source_load (h : ∀ limit, c.maxEntrySize = some limit → e.uncompressedSize.toNat ≤ limit) (t : Session σ) :
    (c.load a e t).2.source = (a.readEntry e t.source).2 := by
  rw [load_of_le h]
  cases hread : a.readEntry e t.source with
  | mk result s' =>
      cases result with
      | error error => rw [bind_error (onSource_eq hread)]
      | ok b => rw [bind_ok (onSource_eq hread), source_accept]

theorem load_unlimited (c : Container σ) (a : Zip.Archive σ) (e : Zip.Entry) :
    (c.limited none).load a e = onSource (a.readEntry e) >>= c.accept e := rfl

theorem load_limited_of_le (h : e.uncompressedSize.toNat ≤ limit) :
    (c.limited (some limit)).load a e = (c.limited none).load a e := by
  refine load_of_le fun l hl => ?_
  cases hl
  exact h

/-- An entry beyond the limit is refused at once. -/
theorem lookUp_of_lt (hfind : a.find? name = some e) (hlt : limit < e.uncompressedSize.toNat) (t : Session σ) :
    (c.limited (some limit)).lookUp name a t =
      (.error (.entryTooLarge e.name e.uncompressedSize.toNat limit), t) := by
  rw [lookUp_eq hfind, load_of_lt rfl hlt]
  rfl

/-- Within the limit a lookup is what it is without one. -/
theorem lookUp_limited_of_le (h : ∀ e, a.find? name = some e → e.uncompressedSize.toNat ≤ limit) :
    (c.limited (some limit)).lookUp name a = (c.limited none).lookUp name a := by
  cases hfind : a.find? name with
  | none => rw [lookUp_eq_pure hfind, lookUp_eq_pure hfind]
  | some e => rw [lookUp_eq_bind hfind, lookUp_eq_bind hfind, load_limited_of_le (h e hfind)]

theorem failsOnly_lookUp_unlimited (c : Container σ) (name : String) (a : Zip.Archive σ) :
    FailsOnly Error.IsOfContent ((c.limited none).lookUp name a) := by
  cases hfind : a.find? name with
  | none =>
      rw [lookUp_eq_pure hfind]
      exact failsOnly_pure _
  | some e =>
      rw [lookUp_eq_bind hfind, load_unlimited]
      exact (c.failsOnly_readEntry_accept a e).bind fun f => failsOnly_pure _

/-! ### From the opening on -/

theorem entry_limited (c : Container σ) (limit : Option Nat) (name : String) :
    (c.limited limit).entry name = c.withArchive ((c.limited limit).lookUp name) := rfl

/-- The source can be opened and an archive in it, and the entry is the first one of the name there. Once the
archive is open the source is in the state `s`. -/
def Finds (c : Container σ) (name : String) (t : Session σ) (a : Zip.Archive σ) (e : Zip.Entry) (s : σ) : Prop :=
  ∃ reader s₁, c.source.acquire t.source = (.ok reader, s₁) ∧ Zip.Archive.ofReader reader s₁ = (.ok a, s) ∧
    a.IsFirst name e

/-- The entry of the name is said to be larger than the limit. -/
def Exceeds (c : Container σ) (name : String) (t : Session σ) (limit : Nat) : Prop :=
  ∃ a e s, c.Finds name t a e s ∧ limit < e.uncompressedSize.toNat

theorem Finds.opens (h : c.Finds name t a e s) : c.Opens t := by
  obtain ⟨reader, s₁, hacquire, hread, -⟩ := h
  exact ⟨reader, s₁, a, s, hacquire, hread⟩

theorem finds_iff {reader : Reader σ} {s₁ s₂ s' : σ} {a' : Zip.Archive σ}
    (hacquire : c.source.acquire t.source = (.ok reader, s₁))
    (hread : Zip.Archive.ofReader reader s₁ = (.ok a, s₂)) :
    c.Finds name t a' e s' ↔ a' = a ∧ s' = s₂ ∧ a.find? name = some e := by
  rw [Zip.Archive.find?_eq_some_iff]
  refine ⟨?_, ?_⟩
  · rintro ⟨reader', s₁', hacquire', hread', hfirst⟩
    rw [hacquire] at hacquire'
    cases hacquire'
    rw [hread] at hread'
    cases hread'
    exact ⟨rfl, rfl, hfirst⟩
  · rintro ⟨rfl, rfl, hfirst⟩
    exact ⟨reader, s₁, hacquire, hread, hfirst⟩

theorem Finds.unique {a' : Zip.Archive σ} {e' : Zip.Entry} {s' : σ} (h : c.Finds name t a e s)
    (h' : c.Finds name t a' e' s') : e' = e := by
  obtain ⟨reader, s₁, hacquire, hread, hfirst⟩ := h
  obtain ⟨-, -, hfind'⟩ := (finds_iff hacquire hread).1 h'
  rw [Zip.Archive.find?_eq_some_iff.2 hfirst] at hfind'
  exact (Option.some.inj hfind').symm

/-- What is loaded is what loading the entry gives in the open archive, and the source is closed after that. -/
theorem Finds.exists_load (h : c.Finds name t a e s) (limit : Option Nat) :
    ∃ t', t'.source = s ∧ ((c.limited limit).entry name t).1 = ((c.limited limit).load a e t').1.map some ∧
      ((c.limited limit).entry name t).2.source = c.source.release ((c.limited limit).load a e t').2.source := by
  obtain ⟨reader, s₁, hacquire, hread, hfirst⟩ := h
  have hfind := Zip.Archive.find?_eq_some_iff.2 hfirst
  obtain ⟨t', hsource, hresult, hrelease⟩ := withArchive_eq hacquire hread ((c.limited limit).lookUp name)
  rw [entry_limited, hresult, hrelease, lookUp_eq hfind]
  exact ⟨t', hsource, rfl, rfl⟩

/-- An entry within the limit is loaded by reads of its content, which hand over no more than one byte beyond the length
that the directory gives. The bytes of the file are all that they hand over. -/
theorem Finds.exists_reads {content : Zip.Content} {s' : σ} {limit : Option Nat} (h : c.Finds name t a e s)
    (hle : ∀ l, limit = some l → e.uncompressedSize.toNat ≤ l) (hcontent : a.content e s = (.ok content, s')) :
    ∃ log u, (Zip.Content.stream a.reader).Reads (content, s') log u ∧
      ((c.limited limit).entry name t).2.source = c.source.release u.2 ∧
      (Stream.delivered log).size ≤ min (e.uncompressedSize.toNat + 1) addressMax ∧
      (∀ l, limit = some l → (Stream.delivered log).size ≤ l + 1) ∧
      ∀ f, ((c.limited limit).entry name t).1 = .ok (some f) → f.bytes = Stream.delivered log := by
  obtain ⟨t', rfl, hresult, hrelease⟩ := h.exists_load limit
  obtain ⟨log, u, hreads, hstate, hsize, hbytes⟩ := Zip.Archive.exists_reads_readEntry hcontent
  refine ⟨log, u, hreads, ?_, hsize, fun l hl => ?_, fun f hf => ?_⟩
  · rw [hrelease, source_load hle, hstate]
  · have hdeclared := hle l hl
    omega
  · rw [hresult] at hf
    cases hload : ((c.limited limit).load a e t').1 with
    | error error =>
        rw [hload] at hf
        cases hf
    | ok f' =>
        rw [hload] at hf
        cases hf
        obtain ⟨-, b, version, hread, -, rfl⟩ := exists_of_load_ok hload
        exact hbytes b hread

/-- Either no work is begun, and then it is not for the size of an entry, or an archive is open. -/
theorem opens_or_fails (c : Container σ) (t : Session σ) :
    (¬c.Opens t ∧ ∃ e t', ¬e.IsTooLarge ∧
        ∀ {α : Type} (work : Zip.Archive σ → Action Error (Session σ) α), c.withArchive work t = (.error e, t')) ∨
      ∃ reader s₁ a t', c.source.acquire t.source = (.ok reader, s₁) ∧
        Zip.Archive.ofReader reader s₁ = (.ok a, t'.source) ∧
          ∀ {α : Type} (work : Zip.Archive σ → Action Error (Session σ) α), c.withArchive work t =
            ((work a t').1, { (work a t').2 with source := c.source.release (work a t').2.source }) := by
  rcases c.withArchive_cases t with ⟨failure, s, hacquire, hall⟩ | ⟨reader, s₁, hacquire,
    ⟨e, s₂, hread, hall⟩ | ⟨a, t', hread, hall⟩⟩
  · refine .inl ⟨?_, _, _, Error.not_isTooLarge_ofFailure failure, hall⟩
    rintro ⟨reader, s₁, a, s₂, hopen, -⟩
    rw [hacquire] at hopen
    cases hopen
  · have hsmall : ¬(e.locate c.source.location).IsTooLarge := fun h =>
      Zip.Archive.failsOnly_ofReader reader s₁ e (congrArg Prod.fst hread) (Error.isTooLarge_locate.1 h)
    refine .inl ⟨?_, _, _, hsmall, hall⟩
    rintro ⟨reader', s₁', a, s', hopen, hread'⟩
    rw [hacquire] at hopen
    cases hopen
    rw [hread] at hread'
    cases hread'
  · exact .inr ⟨reader, s₁, a, t', hacquire, hread, hall⟩

/-- Loading the entry of a name under a limit goes one of two ways: the entry is too large, or all is as it would be
without a limit, where nothing is too large. -/
theorem entry_limited_cases (c : Container σ) (name : String) (limit : Nat) (t : Session σ) :
    (∃ a e s, c.Finds name t a e s ∧ limit < e.uncompressedSize.toNat ∧
        ((c.limited (some limit)).entry name t).1 =
          .error (.entryTooLarge name e.uncompressedSize.toNat limit)) ∨
      ¬c.Exceeds name t limit ∧ (c.limited (some limit)).entry name t = (c.limited none).entry name t ∧
        ∀ e, ((c.limited none).entry name t).1 = .error e → ¬e.IsTooLarge := by
  rw [entry_limited, entry_limited]
  rcases c.opens_or_fails t with ⟨hclosed, error, t', hsmall, hall⟩ | ⟨reader, s₁, a, t', hacquire, hread, hall⟩
  · rw [hall, hall]
    refine .inr ⟨fun ⟨a, e, s, hfinds, _⟩ => hclosed hfinds.opens, rfl, fun e he => ?_⟩
    cases he
    exact hsmall
  · rw [hall, hall]
    by_cases hexceeds : c.Exceeds name t limit
    · obtain ⟨a', e, s', hfinds, hlt⟩ := hexceeds
      obtain ⟨-, -, hfind⟩ := (finds_iff hacquire hread).1 hfinds
      obtain ⟨-, -, -, -, hname⟩ := Zip.Archive.find?_eq_some_iff.1 hfind
      refine .inl ⟨a', e, s', hfinds, hlt, ?_⟩
      rw [lookUp_of_lt hfind hlt, hname]
    · have hle : ∀ e, a.find? name = some e → e.uncompressedSize.toNat ≤ limit := by
        intro e hfind
        have hfinds := (finds_iff hacquire hread).2 ⟨rfl, rfl, hfind⟩
        exact Nat.le_of_not_lt fun hlt => hexceeds ⟨a, e, t'.source, hfinds, hlt⟩
      rw [lookUp_limited_of_le hle]
      exact .inr ⟨hexceeds, rfl, fun e he => (c.failsOnly_lookUp_unlimited name a t' e he).not_isTooLarge⟩

/-- What a limit does to loading the entry of a name, and what it leaves as it is. `refused` is for whatever the
source keeps in its state, be it a count of the reads: nothing is done between opening the archive and closing
the source. -/
structure HeedsLimit (c : Container σ) (name : String) (t : Session σ) : Prop where
  tooLarge_iff : ∀ limit entry size most,
    ((c.limited (some limit)).entry name t).1 = .error (.entryTooLarge entry size most) ↔
      entry = name ∧ most = limit ∧ limit < size ∧
        ∃ a e s, c.Finds name t a e s ∧ e.uncompressedSize.toNat = size
  refused : ∀ limit a e s, c.Finds name t a e s → limit < e.uncompressedSize.toNat →
    ((c.limited (some limit)).entry name t).2.source = c.source.release s
  otherwise : ∀ limit, (∀ entry size most,
      ((c.limited (some limit)).entry name t).1 ≠ .error (.entryTooLarge entry size most)) →
    (c.limited (some limit)).entry name t = (c.limited none).entry name t
  kept : ∀ limit found, ((c.limited (some limit)).entry name t).1 = .ok found →
    ∀ limit' : Option Nat, (∀ l, limit' = some l → limit ≤ l) →
      (c.limited limit').entry name t = (c.limited (some limit)).entry name t
  unopened : ∀ (limit : Option Nat) a e s error s', c.Finds name t a e s →
    (∀ l, limit = some l → e.uncompressedSize.toNat ≤ l) → a.content e s = (.error error, s') →
      ((c.limited limit).entry name t).2.source = c.source.release s'
  pulls : ∀ (limit : Option Nat) a e s content s', c.Finds name t a e s →
    (∀ l, limit = some l → e.uncompressedSize.toNat ≤ l) → a.content e s = (.ok content, s') →
      ∃ log u, (Zip.Content.stream a.reader).Reads (content, s') log u ∧
        ((c.limited limit).entry name t).2.source = c.source.release u.2 ∧
        (Stream.delivered log).size ≤ min (e.uncompressedSize.toNat + 1) addressMax ∧
        (∀ l, limit = some l → (Stream.delivered log).size ≤ l + 1) ∧
        ∀ f, ((c.limited limit).entry name t).1 = .ok (some f) → f.bytes = Stream.delivered log
  dexEntryNames_eq : ∀ limit, (c.limited limit).dexEntryNames t = c.dexEntryNames t
  isZip_eq : ∀ limit, (c.limited limit).isZip t = c.isZip t

/-- A limit bounds what is read of an entry and changes nothing else, for any source, whatever becomes of its
reads. -/
theorem heedsLimit (c : Container σ) (name : String) (t : Session σ) : c.HeedsLimit name t where
  tooLarge_iff limit entry size most := by
    rcases c.entry_limited_cases name limit t with ⟨a, e, s, hfinds, hlt, hresult⟩ | ⟨hfits, hsame, hsmall⟩
    · rw [hresult]
      refine ⟨fun h => ?_, ?_⟩
      · cases h
        exact ⟨rfl, rfl, hlt, a, e, s, hfinds, rfl⟩
      · rintro ⟨rfl, rfl, -, a', e', s', hfinds', rfl⟩
        rw [hfinds.unique hfinds']
    · rw [hsame]
      refine ⟨fun h => (hsmall _ h trivial).elim, ?_⟩
      rintro ⟨-, -, hlt, a, e, s, hfinds, rfl⟩
      exact (hfits ⟨a, e, s, hfinds, hlt⟩).elim
  refused limit a e s hfinds hlt := by
    obtain ⟨t', rfl, -, hrelease⟩ := hfinds.exists_load (some limit)
    rw [hrelease, load_of_lt rfl hlt]
  otherwise limit hne := by
    rcases c.entry_limited_cases name limit t with ⟨a, e, s, -, -, hresult⟩ | ⟨-, hsame, -⟩
    · exact (hne _ _ _ hresult).elim
    · exact hsame
  kept limit found hok limit' hle := by
    rcases c.entry_limited_cases name limit t with ⟨a, e, s, -, -, hresult⟩ | ⟨hfits, hsame, -⟩
    · rw [hresult] at hok
      cases hok
    · rw [hsame]
      cases limit' with
      | none => rfl
      | some l =>
          rcases c.entry_limited_cases name l t with ⟨a, e, s, hfinds, hlt, -⟩ | ⟨-, hsame', -⟩
          · exact (hfits ⟨a, e, s, hfinds, Nat.lt_of_le_of_lt (hle l rfl) hlt⟩).elim
          · exact hsame'
  unopened limit a e s error s' hfinds hle hcontent := by
    obtain ⟨t', rfl, -, hrelease⟩ := hfinds.exists_load limit
    rw [hrelease, source_load hle, Zip.Archive.readEntry_eq_bind, bind_error hcontent]
  pulls limit a e s content s' hfinds hle hcontent := hfinds.exists_reads hle hcontent
  dexEntryNames_eq limit := rfl
  isZip_eq limit := rfl

/-- A dex file of 44 bytes is refused below that, and loaded from there on. -/
theorem heedsLimit_smallContainer :
    ((smallContainer.limited (some 43)).entry "classes.dex" ⟨(), #[]⟩).1 =
        .error (.entryTooLarge "classes.dex" 44 43) ∧
      ((smallContainer.limited (some 44)).entry "classes.dex" ⟨(), #[]⟩).1 =
        .ok (some ⟨"classes.dex", Dex.shortDex, .default, ⟨1⟩⟩) := by
  have hheeds := heedsLimit smallContainer "classes.dex" ⟨(), #[]⟩
  have hsource : smallContainer.source.Holds smallPackage.bytes :=
    Source.holds_file Unit "small.zip" (by decide +kernel)
  have hfind : (smallPackage.members.find? fun m => m.name = "classes.dex") = some smallDex := rfl
  have hload := entry_of_find?_eq_some hsource rfl hfind ⟨(), #[]⟩
  rw [show Dex.verify smallDex.content = .ok 35 from Dex.verify_shortDex] at hload
  obtain ⟨reader, s₁, a, s, e, hacquire, hread, hfirst, -, hfits⟩ := exists_of_entry_ok hload
  have hfinds : smallContainer.Finds "classes.dex" ⟨(), #[]⟩ a e s := ⟨reader, s₁, hacquire, hread, hfirst⟩
  have hsize : e.uncompressedSize.toNat = 44 := hfits.size_eq.symm.trans (by decide +kernel)
  refine ⟨(hheeds.tooLarge_iff 43 _ 44 43).2 ⟨rfl, rfl, by decide, a, e, s, hfinds, hsize⟩, ?_⟩
  rw [hheeds.otherwise 44 fun entry size most hlarge => ?_]
  · exact hload
  · obtain ⟨-, -, hlt, a', e', s', hfinds', rfl⟩ := (hheeds.tooLarge_iff 44 entry size most).1 hlarge
    rw [hfinds.unique hfinds', hsize] at hlt
    exact Nat.lt_irrefl 44 hlt

end Container

end DexArchive
