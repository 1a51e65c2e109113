import DexArchive.Proofs.Packing

/-! Listing an archive of any bytes. All entries but directories are opened and sniffed in their order, each
in the state that the one before left. If all of them can be, those with a good verdict are listed; the first
that cannot be ends the listing, and nothing after it is touched. -/

namespace DexArchive

variable {σ : Type}

/-- What sniffing comes to: the version of a dex file, or why it is none. -/
abbrev Verdict : Type := Except Dex.HeaderError UInt32

namespace Zip.Archive

variable {a : Archive σ} {e : Entry} {entries : List Entry} {s s' s'' : σ} {error : Error}
  {verdict : Verdict} {verdicts : List Verdict}

/-- The entries are opened and sniffed one after the other, which goes well for each. -/
inductive Sniffs (a : Archive σ) : List Entry → σ → List Verdict → σ → Prop
  | nil (s : σ) : Sniffs a [] s [] s
  | cons {e : Entry} {entries : List Entry} {s s' s'' : σ} {verdict : Verdict} {verdicts : List Verdict}
      (hsniff : a.sniff e s = (.ok verdict, s')) (hrest : Sniffs a entries s' verdicts s'') : Sniffs a (e :: entries) s (verdict :: verdicts) s''

/-- An entry cannot be opened or read, after those before it were sniffed. -/
inductive Fails (a : Archive σ) (entries : List Entry) (s : σ) (error : Error) (s'' : σ) : Prop
  | intro (before : List Entry) (e : Entry) (after : List Entry) {verdicts : List Verdict} {s' : σ}
      (hentries : entries = before ++ e :: after) (hbefore : a.Sniffs before s verdicts s')
      (herror : a.sniff e s' = (.error error, s''))

/-- The entries that are looked into. -/
def candidates (a : Archive σ) : List Entry := a.entries.filter fun e => !e.isDirectory

/-- The names of the entries with a good verdict. -/
def accepted (entries : List Entry) (verdicts : List Verdict) : List String :=
  ((entries.zip verdicts).filter fun p => p.2.isOk).map fun p => p.1.name

theorem Fails.cons (hsniff : a.sniff e s = (.ok verdict, s')) (h : a.Fails entries s' error s'') :
    a.Fails (e :: entries) s error s'' := by
  obtain ⟨before, e', after, hentries, hbefore, herror⟩ := h
  exact ⟨e :: before, e', after, congrArg (e :: ·) hentries, .cons hsniff hbefore, herror⟩

theorem Fails.cons_cases (h : a.Fails (e :: entries) s error s'') :
    a.sniff e s = (.error error, s'') ∨
      ∃ verdict s', a.sniff e s = (.ok verdict, s') ∧ a.Fails entries s' error s'' := by
  obtain ⟨before, e', after, hentries, hbefore, herror⟩ := h
  cases before with
  | nil =>
      cases hbefore
      obtain ⟨rfl, -⟩ := List.cons.inj hentries
      exact .inl herror
  | cons e'' before =>
      obtain ⟨rfl, hrest⟩ := List.cons.inj hentries
      cases hbefore with
      | cons hsniff hbefore => exact .inr ⟨_, _, hsniff, before, e', after, hrest, hbefore, herror⟩

/-- It goes well for all entries, or there is a first for which it does not. -/
theorem sniffs_or_fails (a : Archive σ) (entries : List Entry) (s : σ) :
    (∃ verdicts s', a.Sniffs entries s verdicts s') ∨ ∃ error s', a.Fails entries s error s' := by
  induction entries generalizing s with
  | nil => exact .inl ⟨[], s, .nil s⟩
  | cons e entries ih =>
      cases hsniff : a.sniff e s with
      | mk result s₁ =>
          cases result with
          | error error => exact .inr ⟨error, s₁, [], e, entries, rfl, .nil s, hsniff⟩
          | ok verdict =>
              rcases ih s₁ with ⟨verdicts, s', hrest⟩ | ⟨error, s', hrest⟩
              · exact .inl ⟨verdict :: verdicts, s', .cons hsniff hrest⟩
              · exact .inr ⟨error, s', .cons hsniff hrest⟩

/-- Where bytes that are not compressed suffice for a verdict, or are all there, the verdict is that on the
first of them in the archive. -/
theorem verify_of_upTo_ok {d b : ByteArray} (hmax : d.size ≤ addressMax)
    (h : Stream.upTo (dataOf d e)
      (Range.ending (dataOf d e) (.ofLength (dataStart d e) e.compressedSize.toNat)) Dex.sniffLength = .ok b) :
    Dex.verify b = Dex.verify (slice d (dataStart d e) (min Dex.sniffLength e.compressedSize.toNat)) := by
  obtain ⟨r, hr⟩ : ∃ r, r = Range.ofLength (dataStart d e) e.compressedSize.toNat := ⟨_, rfl⟩
  have hpos : r.pos = dataStart d e := by rw [hr, Range.ofLength]
  have hstop : r.stop = min (dataStart d e + e.compressedSize.toNat) addressMax := by rw [hr, Range.ofLength]
  have hremaining : r.remaining = r.stop - r.pos := rfl
  have hdata : dataOf d e = slice d (dataStart d e) r.remaining := by rw [hr, dataOf]
  have hsize := size_slice d (dataStart d e) r.remaining
  rw [← hr, hdata] at h
  unfold Stream.upTo at h
  split at h
  · rename_i hlong
    have hwidth : min Dex.sniffLength (r.remaining - 0) = Dex.sniffLength := by omega
    rw [← Except.ok.inj h, slice_slice, Nat.add_zero, hwidth, Nat.min_eq_left (by omega)]
  · rename_i hshort
    -- A verdict on so few bytes does not depend on what they are.
    unfold Range.ending at h
    split at h
    · rename_i hwhole
      have hb : slice d (dataStart d e) r.remaining = b := Except.ok.inj h
      rw [hb] at hwhole hshort
      have hslice := size_slice d (dataStart d e) (min Dex.sniffLength e.compressedSize.toNat)
      rw [Dex.verify_of_size_lt (by omega), Dex.verify_of_size_lt (by omega)]
    · cases h

/-- The verdict on what is not compressed is that on its first bytes in the archive. -/
theorem eq_verify_of_sniff_ok {d : ByteArray} (h : a.reader.Gives d) (hmax : d.size ≤ addressMax)
    (hm : e.method ≠ .deflate) (hsniff : a.sniff e s = (.ok verdict, s')) :
    verdict = Dex.verify (slice d (dataStart d e) (min Dex.sniffLength e.compressedSize.toNat)) := by
  obtain ⟨c, s₁, hcontent, hread⟩ := Action.exists_of_bind_eq_ok hsniff
  obtain ⟨-, rfl⟩ := content_of_gives h hcontent
  obtain ⟨t, hrun, -⟩ := exists_of_readContent_ok hread
  obtain ⟨b, hfill, rfl⟩ := Dex.exists_of_sniff_ok hrun
  obtain ⟨t', hfill'⟩ := (Content.pours_stream (carries_dataOf h e) hm).fill Dex.sniffLength
    (Content.hands_ofEntry e (dataStart d e) (dataOf d e) s₁)
  exact verify_of_upTo_ok hmax (Prod.mk.inj (hfill'.symm.trans hfill)).1

end Zip.Archive

namespace Container

variable {a : Zip.Archive σ} {c : Container σ} {t : Session σ}

theorem dexNames_of_sniffs {entries : List Zip.Entry} {verdicts : List Verdict} {s' : σ}
    (h : a.Sniffs (entries.filter fun e => !e.isDirectory) t.source verdicts s') :
    ∃ t', dexNames a entries t =
      (.ok (Zip.Archive.accepted (entries.filter fun e => !e.isDirectory) verdicts), t') ∧ t'.source = s' := by
  induction entries generalizing t verdicts with
  | nil =>
      cases h
      exact ⟨t, rfl, rfl⟩
  | cons e entries ih =>
      rw [dexNames_cons]
      cases hdirectory : e.isDirectory with
      | true =>
          obtain ⟨t₁, hdex, hsource⟩ := isDex_of_isDirectory a hdirectory t
          rw [List.filter_cons_of_neg (by simp [hdirectory])] at h ⊢
          rw [← hsource] at h
          obtain ⟨t₂, hnames, hlast⟩ := ih h
          rw [Action.bind_ok hdex, Action.bind_ok hnames]
          exact ⟨t₂, rfl, hlast⟩
      | false =>
          rw [List.filter_cons_of_pos (by simp [hdirectory])] at h ⊢
          cases h with
          | @cons _ _ _ s₁ _ verdict verdicts hsniff hrest =>
              obtain ⟨t₁, hdex, rfl⟩ := isDex_of_sniff_ok hdirectory hsniff
              obtain ⟨t₂, hnames, hlast⟩ := ih hrest
              rw [Action.bind_ok hdex, Action.bind_ok hnames]
              refine ⟨t₂, ?_, hlast⟩
              cases verdict with
              | ok version => rfl
              | error reason => rfl

theorem dexNames_of_fails {entries : List Zip.Entry} {error : Error} {s' : σ}
    (h : a.Fails (entries.filter fun e => !e.isDirectory) t.source error s') :
    ∃ t', dexNames a entries t = (.error error, t') ∧ t'.source = s' := by
  induction entries generalizing t with
  | nil =>
      obtain ⟨before, e, after, hentries, -, -⟩ := h
      cases before <;> cases hentries
  | cons e entries ih =>
      rw [dexNames_cons]
      cases hdirectory : e.isDirectory with
      | true =>
          obtain ⟨t₁, hdex, hsource⟩ := isDex_of_isDirectory a hdirectory t
          rw [List.filter_cons_of_neg (by simp [hdirectory]), ← hsource] at h
          obtain ⟨t₂, hnames, hlast⟩ := ih h
          rw [Action.bind_ok hdex, Action.bind_error hnames]
          exact ⟨t₂, rfl, hlast⟩
      | false =>
          rw [List.filter_cons_of_pos (by simp [hdirectory])] at h
          rcases h.cons_cases with herror | ⟨verdict, s₁, hsniff, hrest⟩
          · obtain ⟨t₁, hdex, hlast⟩ := isDex_of_sniff_error hdirectory herror
            rw [Action.bind_error hdex]
            exact ⟨t₁, rfl, hlast⟩
          · obtain ⟨t₁, hdex, rfl⟩ := isDex_of_sniff_ok hdirectory hsniff
            obtain ⟨t₂, hnames, hlast⟩ := ih hrest
            rw [Action.bind_ok hdex, Action.bind_error hnames]
            exact ⟨t₂, rfl, hlast⟩

/-- Listing an archive that could be opened gives the names of those candidates that have a good verdict, in
their order and each as often as it is there, if all can be opened and read; otherwise it fails with the error
of the first that cannot. Either way the source is closed in the state in which the last candidate that was
looked into left it. Directories are no candidates. The verdict on what is stored is that on its first bytes,
wherever positions are numbers of 64 bits. -/
theorem dexEntryNames_exact {reader : Reader σ} {archive : Zip.Archive σ} {s₁ s₂ : σ}
    (hacquire : c.source.acquire t.source = (.ok reader, s₁))
    (hopen : Zip.Archive.ofReader reader s₁ = (.ok archive, s₂)) :
    (∀ verdicts s', archive.Sniffs archive.candidates s₂ verdicts s' →
      (c.dexEntryNames t).1 = .ok (Zip.Archive.accepted archive.candidates verdicts) ∧
        (c.dexEntryNames t).2.source = c.source.release s') ∧
    (∀ error s', archive.Fails archive.candidates s₂ error s' →
      (c.dexEntryNames t).1 = .error error ∧ (c.dexEntryNames t).2.source = c.source.release s') ∧
    ((∃ verdicts s', archive.Sniffs archive.candidates s₂ verdicts s') ∨
      ∃ error s', archive.Fails archive.candidates s₂ error s') ∧
    ∀ d, reader.Gives d → d.size ≤ addressMax → ∀ e s verdict s', e.method = .stored →
      archive.sniff e s = (.ok verdict, s') →
        verdict = Dex.verify
          (slice d (Zip.Archive.dataStart d e) (min Dex.sniffLength e.compressedSize.toNat)) := by
  obtain ⟨t', rfl, hresult, hsource⟩ :=
    withArchive_eq hacquire hopen fun archive => dexNames archive archive.entries
  refine ⟨fun verdicts s' hsniffs => ?_, fun error s' hfails => ?_, archive.sniffs_or_fails _ _, ?_⟩
  · obtain ⟨t'', hnames, rfl⟩ := dexNames_of_sniffs hsniffs
    rw [hnames] at hresult hsource
    exact ⟨hresult, hsource⟩
  · obtain ⟨t'', hnames, rfl⟩ := dexNames_of_fails hfails
    rw [hnames] at hresult hsource
    exact ⟨hresult, hsource⟩
  · intro d hgives hmax e s verdict s' hstored hsniff
    rw [← Zip.Archive.reader_of_ofReader_ok hopen] at hgives
    refine Zip.Archive.eq_verify_of_sniff_ok hgives hmax ?_ hsniff
    rw [hstored]
    exact nofun

/-- A directory. -/
def smallFolder : Zip.Member := .plain "lib/" .stored .empty .empty rfl (by decide +kernel) (by decide +kernel)

def mixedPackage : Zip.Package :=
  .plain [smallFolder, smallDex, smallNote] (by decide) (by decide +kernel) (by decide +kernel)

def mixedContainer : Container Unit := ⟨⟨1⟩, .memory "memory:mixed" mixedPackage.bytes, .default, none⟩

theorem dexEntryNames_exact_mixedPackage :
    (mixedContainer.dexEntryNames ⟨(), #[]⟩).1 = .ok ["classes.dex"] := by
  have hholds := (Reader.serves_memoryReader Unit mixedPackage.bytes).holds
  obtain ⟨a, ha⟩ : ∃ a : Zip.Archive Unit, a = ⟨memoryReader Unit mixedPackage.bytes, mixedPackage.entries⟩ :=
    ⟨_, rfl⟩
  have hreader : a.reader.Holds mixedPackage.bytes := by
    rw [ha]
    exact hholds
  have hcandidates : a.candidates = [smallDex.entry (0 + smallFolder.bytes.size),
      smallNote.entry (0 + smallFolder.bytes.size + smallDex.bytes.size)] := by
    rw [ha]
    rfl
  obtain ⟨s, hopen⟩ := mixedPackage.ofReader_eq hholds ()
  rw [← ha] at hopen
  obtain ⟨-, hin⟩ := List.forall₂_cons.1 mixedPackage.isIn_entries
  obtain ⟨hdex, hin⟩ := List.forall₂_cons.1 hin
  obtain ⟨hnote, -⟩ := List.forall₂_cons.1 hin
  obtain ⟨s₁, hdexSniff⟩ := hdex.hasEntry.sniff mixedPackage.size_le hreader s
  obtain ⟨s₂, hnoteSniff⟩ := hnote.hasEntry.sniff mixedPackage.size_le hreader s₁
  obtain ⟨hsniffs, -, -, -⟩ := dexEntryNames_exact (c := mixedContainer) (t := ⟨(), #[]⟩) rfl hopen
  rw [hcandidates] at hsniffs
  obtain ⟨hnames, -⟩ := hsniffs _ _ (.cons hdexSniff (.cons hnoteSniff (.nil s₂)))
  rw [hnames]
  rfl

end Container

end DexArchive
