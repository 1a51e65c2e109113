import DexArchive.Proofs.Packing

/-! Runs. Containers are made and worked with in any order, over sources that may fail and may change
meanwhile. The containers of a run have ids of their own, and whatever is loaded is a dex file as the archive
describes it, out of the container that it names. -/

namespace DexArchive

variable {σ : Type}

/-- What can happen: a container is made, one that was made before is worked with, or the sources change for
reasons of their own. Containers are counted from zero. -/
inductive Operation (σ : Type) where
  | create (source : Source σ) (opcodes : Dex.Opcodes) (maxEntrySize : Option Nat)
  | isZip (i : Nat)
  | dexEntryNames (i : Nat)
  | entry (i : Nat) (name : String)
  | change (f : σ → σ)

/-- The containers that were made, in their order, the id for the next one, and the state of the sources. -/
structure World (σ : Type) where
  registry : Registry
  containers : List (Container σ)
  session : Session σ

namespace World

def initial (s : σ) : World σ := ⟨.initial, [], ⟨s, #[]⟩⟩

/-- Works with a container, if there is one of that number. -/
def workWith (w : World σ) (i : Nat) (work : Container σ → Session σ → Session σ) : World σ :=
  match w.containers[i]? with
  | none => w
  | some c => { w with session := work c w.session }

def step (w : World σ) : Operation σ → World σ
  | .create source opcodes maxEntrySize =>
    let (c, registry) := Container.create source opcodes maxEntrySize w.registry
    { w with registry := registry, containers := w.containers ++ [c] }
  | .isZip i => w.workWith i fun c t => (c.isZip t).2
  | .dexEntryNames i => w.workWith i fun c t => (c.dexEntryNames t).2
  | .entry i name => w.workWith i fun c t => (c.entry name t).2
  | .change f => { w with session := { w.session with source := f w.session.source } }

def run (w : World σ) (ops : List (Operation σ)) : World σ := ops.foldl step w

/-! ### Containers and their ids -/

section Ids

variable {w : World σ}

@[simp] theorem registry_workWith (w : World σ) (i : Nat) (work : Container σ → Session σ → Session σ) :
    (w.workWith i work).registry = w.registry := by
  unfold workWith
  cases w.containers[i]? <;> rfl

@[simp] theorem containers_workWith (w : World σ) (i : Nat) (work : Container σ → Session σ → Session σ) :
    (w.workWith i work).containers = w.containers := by
  unfold workWith
  cases w.containers[i]? <;> rfl

/-- A step makes a container with the next id, or leaves the containers as they are. -/
theorem step_cases (w : World σ) (op : Operation σ) :
    (∃ c : Container σ, c.id = w.registry.next ∧ (w.step op).containers = w.containers ++ [c] ∧
        (w.step op).registry.next.value = w.registry.next.value + 1) ∨
      (w.step op).containers = w.containers ∧ (w.step op).registry = w.registry := by
  cases op with
  | create source opcodes maxEntrySize => exact .inl ⟨_, rfl, rfl, rfl⟩
  | isZip i => exact .inr ⟨containers_workWith w i _, registry_workWith w i _⟩
  | dexEntryNames i => exact .inr ⟨containers_workWith w i _, registry_workWith w i _⟩
  | entry i name => exact .inr ⟨containers_workWith w i _, registry_workWith w i _⟩
  | change f => exact .inr ⟨rfl, rfl⟩

/-- The containers are numbered from one on, and so will be the next. -/
structure Numbered (w : World σ) : Prop where
  next_eq : w.registry.next.value = .ofNat (w.containers.length + 1)
  id_eq : ∀ (i : Nat) (c : Container σ), w.containers[i]? = some c → c.id.value = .ofNat (i + 1)

theorem numbered_initial (s : σ) : (initial s).Numbered where
  next_eq := rfl
  id_eq i c hc := by
    rw [initial, List.getElem?_nil] at hc
    cases hc

theorem Numbered.step (h : w.Numbered) (op : Operation σ) : (w.step op).Numbered := by
  rcases w.step_cases op with ⟨c, hid, hcontainers, hnext⟩ | ⟨hcontainers, hregistry⟩
  · refine ⟨?_, fun i c' hc' => ?_⟩
    · rw [hnext, h.next_eq, hcontainers, List.length_append, List.length_singleton]
      exact (UInt64.ofNat_add (w.containers.length + 1) 1).symm
    · rw [hcontainers] at hc'
      -- An older container, the new one, or none.
      rcases Nat.lt_trichotomy i w.containers.length with hlt | rfl | hgt
      · rw [List.getElem?_append_left hlt] at hc'
        exact h.id_eq i c' hc'
      · rw [List.getElem?_concat_length] at hc'
        cases hc'
        rw [hid, h.next_eq]
      · rw [List.getElem?_eq_none (by rw [List.length_append, List.length_singleton]; omega)] at hc'
        cases hc'
  · refine ⟨?_, ?_⟩
    · rw [hregistry, hcontainers, h.next_eq]
    · rw [hcontainers]
      exact h.id_eq

theorem Numbered.run (h : w.Numbered) (ops : List (Operation σ)) : (w.run ops).Numbered := by
  induction ops generalizing w with
  | nil => exact h
  | cons op ops ih => exact ih (h.step op)

theorem Numbered.id_ne (h : w.Numbered) (hcount : w.containers.length < 2 ^ 64) {i j : Nat}
    {c c' : Container σ} (hc : w.containers[i]? = some c) (hc' : w.containers[j]? = some c') (hne : j ≠ i) : c'.id ≠ c.id := by
  intro hid
  have hi := (List.getElem?_eq_some_iff.1 hc).1
  have hj := (List.getElem?_eq_some_iff.1 hc').1
  have hvalue := congrArg UInt64.toNat (congrArg ContainerId.value hid)
  rw [h.id_eq i c hc, h.id_eq j c' hc', UInt64.toNat_ofNat_of_lt' (show j + 1 < 2 ^ 64 by omega),
    UInt64.toNat_ofNat_of_lt' (show i + 1 < 2 ^ 64 by omega)] at hvalue
  omega

theorem isPrefix_step (w : World σ) (op : Operation σ) : w.containers <+: (w.step op).containers := by
  rcases w.step_cases op with ⟨c, -, hcontainers, -⟩ | ⟨hcontainers, -⟩
  · rw [hcontainers]
    exact List.prefix_append _ _
  · exact ⟨[], by rw [hcontainers, List.append_nil]⟩

/-- A container that was made remains. -/
theorem isPrefix_run (w : World σ) (ops : List (Operation σ)) : w.containers <+: (w.run ops).containers := by
  induction ops generalizing w with
  | nil => exact List.prefix_refl _
  | cons op ops ih => exact (w.isPrefix_step op).trans (ih (w.step op))

end Ids

end World

/-! ### What is loaded -/

namespace Zip.Archive

/-- The entry is the first one of the name. -/
def IsFirst (a : Archive σ) (name : String) (e : Entry) : Prop :=
  ∃ before after, a.entries = before ++ e :: after ∧ (∀ x ∈ before, x.name ≠ name) ∧ e.name = name

theorem find?_eq_some_iff {a : Archive σ} {name : String} {e : Entry} :
    a.find? name = some e ↔ a.IsFirst name e := by
  refine List.find?_eq_some_iff_append.trans ⟨?_, ?_⟩
  · rintro ⟨hname, before, after, hentries, hbefore⟩
    refine ⟨before, after, hentries, fun x hx hxname => ?_, of_decide_eq_true hname⟩
    have hnot := hbefore x hx
    simp [hxname] at hnot
  · rintro ⟨before, after, hentries, hbefore, hname⟩
    refine ⟨decide_eq_true hname, before, after, hentries, fun x hx => ?_⟩
    rw [decide_eq_false (hbefore x hx)]
    rfl

end Zip.Archive

theorem Zip.Entry.of_unsupported?_eq_none {e : Zip.Entry} (h : e.unsupported? = none) :
    e.isEncrypted = false ∧ ∀ id, e.method ≠ .unknown id := by
  unfold unsupported? at h
  cases hencrypted : e.isEncrypted with
  | true =>
      rw [if_pos hencrypted] at h
      cases h
  | false =>
      rw [if_neg (by rw [hencrypted]; decide)] at h
      refine ⟨rfl, fun id hmethod => ?_⟩
      rw [hmethod] at h
      cases h

/-- The content of the entry can be decoded, and reading what is before it gives a local header. -/
structure Reader.FindsHeader (r : Reader σ) (e : Zip.Entry) (s : σ) : Prop where
  isEncrypted_eq : e.isEncrypted = false
  method_ne : ∀ id, e.method ≠ .unknown id
  header : ∃ header s', r.readExact e.headerOffset.toNat Zip.Archive.localHeaderLength s = (.ok header, s') ∧
    numberAt header 0 4 = Zip.Archive.localHeaderSignature
  signature_eq : ∀ d, r.IsTruthful d → numberAt d e.headerOffset.toNat 4 = Zip.Archive.localHeaderSignature

/-- The file is what the entry says, within the limit of the container, and a dex file that can be read. -/
structure DexFile.Fits (f : DexFile) (c : Container σ) (e : Zip.Entry) : Prop where
  entry_eq : f.entry = e.name
  size_eq : f.bytes.size = e.uncompressedSize.toNat
  crc_eq : crc32 f.bytes = e.crc
  size_le : ∀ limit, c.maxEntrySize = some limit → f.bytes.size ≤ limit
  isDex : ∃ version, Dex.verify f.bytes = .ok version ∧
    (Dex.headerLength ≤ f.bytes.size → ∃ header, f.header = .ok header ∧ header.version = version) ∧
    (f.bytes.size < Dex.headerLength → ∃ reason, f.header = .error reason ∧ reason.rejection = .invalid)
  container_eq : f.container = c.id
  opcodes_eq : f.opcodes = c.opcodes

theorem Reader.findsHeader_of_content_ok {a : Zip.Archive σ} {e : Zip.Entry} {c : Zip.Content} {s s' : σ}
    (h : a.content e s = (.ok c, s')) : a.reader.FindsHeader e s := by
  obtain ⟨hsupported, header, hread, hsignature, -⟩ := Zip.Archive.exists_of_content_ok h
  obtain ⟨hencrypted, hmethod⟩ := Zip.Entry.of_unsupported?_eq_none hsupported
  refine ⟨hencrypted, hmethod, ⟨header, s', hread, hsignature⟩, fun d htrue => ?_⟩
  have hwithin : 0 + 4 ≤ Zip.Archive.localHeaderLength := by decide
  rw [htrue.readExact hread, numberAt_slice d hwithin] at hsignature
  exact hsignature

namespace Container

/-- What is loaded from an open archive was found there, could be opened, and fits. -/
theorem fits_of_load_ok {c : Container σ} {a : Zip.Archive σ} {e : Zip.Entry} {t : Session σ} {f : DexFile}
    (h : (c.load a e t).1 = .ok f) : a.reader.FindsHeader e t.source ∧ f.Fits c e := by
  obtain ⟨hlimit, b, version, hread, hverify, rfl⟩ := exists_of_load_ok h
  rcases a.readEntry_cases e t.source with ⟨error, s', -, herror⟩ | ⟨content, s', hcontent, ⟨cause, herror⟩ |
    ⟨b', t', -, hsize, hcrc, hok⟩⟩
  · rw [herror] at hread
    cases hread
  · rw [herror] at hread
    cases hread
  · rw [hok] at hread
    cases hread
    refine ⟨Reader.findsHeader_of_content_ok hcontent, ?_⟩
    exact {
      entry_eq := rfl
      size_eq := hsize
      crc_eq := hcrc
      size_le := fun limit hmax => Nat.le_trans (Nat.le_of_eq hsize) (hlimit limit hmax)
      isDex := ⟨version, hverify, fun hle => ⟨_, Dex.Header.parse_of_le_size hverify hle, rfl⟩,
        fun hlt => ⟨_, Dex.Header.parse_of_size_lt hverify hlt, rfl⟩⟩
      container_eq := rfl
      opcodes_eq := rfl }

/-- A file that an operation gives is that of the first entry of the name, in the archive that was opened. -/
theorem exists_of_entry_ok {c : Container σ} {name : String} {t : Session σ} {f : DexFile}
    (h : (c.entry name t).1 = .ok (some f)) :
    ∃ reader s₁ archive s₂ e, c.source.acquire t.source = (.ok reader, s₁) ∧
      Zip.Archive.ofReader reader s₁ = (.ok archive, s₂) ∧ archive.IsFirst name e ∧
      reader.FindsHeader e s₂ ∧ f.Fits c e := by
  obtain ⟨reader, s₁, archive, t', hacquire, hopen, hlookUp⟩ := exists_of_withArchive_ok h
  have hload : (c.lookUp name archive t').1 = .ok (some f) := hlookUp
  cases hfind : archive.find? name with
  | none =>
      rw [lookUp_of_find?_eq_none hfind] at hload
      cases hload
  | some e =>
      rw [lookUp_of_find?_eq_some hfind] at hload
      cases hresult : (c.load archive e t').1 with
      | error error =>
          rw [hresult] at hload
          cases hload
      | ok f' =>
          rw [hresult] at hload
          cases hload
          obtain ⟨hheader, hfits⟩ := fits_of_load_ok hresult
          rw [Zip.Archive.reader_of_ofReader_ok hopen] at hheader
          exact ⟨reader, s₁, archive, t'.source, e, hacquire, hopen, Zip.Archive.find?_eq_some_iff.1 hfind,
            hheader, hfits⟩

end Container

namespace World

/-- Whatever is loaded in the course of a run is the content of the first entry of the name in the archive
that was opened for it, as that entry describes it, and a dex file; it names the container that it is out of
and no other container of the run, be it made before or after. -/
theorem fits_of_entry_ok {before after : List (Operation σ)} {s : σ} {i : Nat} {name : String}
    {c : Container σ} {f : DexFile}
    (hcount : ((initial s).run (before ++ .entry i name :: after)).containers.length < 2 ^ 64)
    (hc : ((initial s).run before).containers[i]? = some c)
    (hload : (c.entry name ((initial s).run before).session).1 = .ok (some f)) :
    (∃ reader s₁ archive s₂ e, c.source.acquire ((initial s).run before).session.source = (.ok reader, s₁) ∧
        Zip.Archive.ofReader reader s₁ = (.ok archive, s₂) ∧ archive.IsFirst name e ∧
        reader.FindsHeader e s₂ ∧ f.Fits c e) ∧
      ∀ (j : Nat) (c' : Container σ),
        ((initial s).run (before ++ .entry i name :: after)).containers[j]? = some c' → j ≠ i →
          c'.id ≠ f.container := by
  obtain ⟨reader, s₁, archive, s₂, e, hacquire, hopen, hfirst, hheader, hfits⟩ :=
    Container.exists_of_entry_ok hload
  refine ⟨⟨reader, s₁, archive, s₂, e, hacquire, hopen, hfirst, hheader, hfits⟩, fun j c' hc' hne => ?_⟩
  have hnumbered := (numbered_initial s).run (before ++ .entry i name :: after)
  have hremains : ((initial s).run (before ++ .entry i name :: after)).containers[i]? = some c := by
    have hrun : (initial s).run (before ++ .entry i name :: after) =
        ((initial s).run before).run (.entry i name :: after) := List.foldl_append
    obtain ⟨rest, hrest⟩ := ((initial s).run before).isPrefix_run (.entry i name :: after)
    rw [hrun, ← hrest, List.getElem?_append_left (List.getElem?_eq_some_iff.1 hc).1, hc]
  rw [hfits.container_eq]
  exact hnumbered.id_ne hcount hremains hc' hne

/-- Two containers, the first of which holds a dex file. -/
def smallBeginning : List (Operation Unit) :=
  [.create (.memory "memory:small" Container.smallPackage.bytes) .default none,
    .create (.memory "memory:empty" .empty) .default (some 0x1000)]

/-- The dex file is loaded, and one more container is made after that. -/
def smallRun : List (Operation Unit) :=
  smallBeginning ++ .entry 0 "classes.dex" :: [.create (.memory "memory:empty" .empty) .default none]

theorem fits_of_entry_ok_smallRun :
    ∃ c f, ((initial ()).run smallBeginning).containers[0]? = some c ∧
      (c.entry "classes.dex" ((initial ()).run smallBeginning).session).1 = .ok (some f) ∧
      (∃ e : Zip.Entry, e.name = "classes.dex" ∧ f.Fits c e) ∧
      ((initial ()).run smallRun).containers.length = 3 ∧
      ∀ (j : Nat) (c' : Container Unit), ((initial ()).run smallRun).containers[j]? = some c' → j ≠ 0 →
        c'.id ≠ f.container := by
  have hmade : ((initial ()).run smallBeginning).containers[0]? =
      some ⟨⟨1⟩, .memory "memory:small" Container.smallPackage.bytes, .default, none⟩ := rfl
  have hlength : ((initial ()).run smallRun).containers.length = 3 := rfl
  have hfind : (Container.smallPackage.members.find? fun m => m.name = "classes.dex") =
      some Container.smallDex := rfl
  have hload := Container.entry_of_find?_eq_some
    (c := ⟨⟨1⟩, .memory "memory:small" Container.smallPackage.bytes, .default, none⟩)
    (Source.serves_memory "memory:small" Container.smallPackage.bytes).holds rfl hfind
    ((initial ()).run smallBeginning).session
  rw [show Dex.verify Container.smallDex.content = .ok 35 from Dex.verify_shortDex] at hload
  have hcount : ((initial ()).run smallRun).containers.length < 2 ^ 64 := by
    rw [hlength]
    decide
  obtain ⟨⟨reader, s₁, archive, s₂, e, -, -, ⟨-, -, -, -, hname⟩, -, hfits⟩, hothers⟩ :=
    fits_of_entry_ok hcount hmade hload
  exact ⟨_, _, hmade, hload, ⟨e, hname, hfits⟩, hlength, hothers⟩

end World

end DexArchive
