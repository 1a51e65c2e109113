import Mathlib.Data.List.Perm.Subperm
import DexArchive.Proofs.Packing
import DexArchive.Proofs.Zip.Sniffing

/-! What is listed can be loaded. Listing goes through the entries one by one and reads only the start of
each; loading takes the first entry of a name and reads all of it. If no two entries have the same name,
both find the same entry, and the verdict on its start is that on the whole. -/

namespace DexArchive

namespace Zip.Archive

variable {σ : Type} {a : Archive σ} {d : ByteArray} {e : Entry}

/-- Loading an entry that was sniffed fails to read it or gives a content with the same verdict. -/
theorem readEntry_of_begins (h : a.reader.Serves d) {p : ByteArray} (hp : Begins d e p) {s : σ}
    {c : Content} (hcontent : (a.content e s).1 = .ok c) (s₁ : σ) :
    (∃ cause, (a.readEntry e s₁).1 = .error (.io cause)) ∨
      ∃ b, (a.readEntry e s₁).1 = .ok b ∧ Dex.verify b = Dex.verify p := by
  rcases a.readEntry_cases e s₁ with ⟨error, s₂, herror, -⟩ | ⟨c', s₂, hcontent', hio |
    ⟨b, t', htoEnd, hsize, -, hok⟩⟩
  · have hagrees := agrees_content h h e s s₁
    rw [hcontent, herror] at hagrees
    cases hagrees
  · exact .inl hio
  · obtain ⟨-, rfl⟩ := content_of_ok h hcontent'
    have hcarries := Range.carries_of_serves h (.ofLength (dataStart d e) e.compressedSize.toNat)
    obtain ⟨hpart, hend⟩ := Content.isPart_of_readToEnd hcarries htoEnd
    refine .inr ⟨b, hok, (hp.isPart.verify_eq hpart hp.size_le hp.isWhole fun hshort => (hend ?_).isWhole).symm⟩
    have hmax : Dex.sniffLength ≤ addressMax := by decide
    omega

end Zip.Archive

namespace Container

open Session

variable {σ : Type} {d : ByteArray} {c : Container σ} {t : Session σ}

/-! ### Entries that are recognised -/

section Recognised

variable {a : Zip.Archive σ} {e : Zip.Entry}

/-- The content of an entry could be opened and begins in such a way that the entry is listed or not. -/
def Recognises (a : Zip.Archive σ) (d : ByteArray) (e : Zip.Entry) (found : Bool) : Prop :=
  ∃ content s s' p, a.content e s = (.ok content, s') ∧ Zip.Archive.Begins d e p ∧
    (found = true ↔ ∃ version, Dex.verify p = .ok version)

theorem recognises_of_isDex_ok (h : a.reader.Serves d) {found : Bool} {t t' : Session σ}
    (hdirectory : e.isDirectory = false) (hok : isDex a e t = (.ok found, t')) :
    Recognises a d e found := by
  rw [isDex, isDexBy, hdirectory] at hok
  obtain ⟨-, t₁, -, hok⟩ := Action.exists_of_bind_eq_ok hok
  obtain ⟨content, t₂, hcontent, hok⟩ := Action.exists_of_bind_eq_ok hok
  obtain ⟨verdict, t₃, hverdict, hok⟩ := Action.exists_of_bind_eq_ok hok
  have hcontent := eq_of_onSource_ok hcontent
  have hverdict := eq_of_onSource_ok hverdict
  obtain ⟨p, hp, rfl⟩ := Zip.Archive.begins_of_readContent_ok h.gives hcontent (congrArg Prod.fst hverdict)
  refine ⟨content, _, _, p, hcontent, hp, ?_⟩
  cases hv : Dex.verify p with
  | ok version =>
      rw [hv] at hok
      cases hok
      exact ⟨fun _ => ⟨version, rfl⟩, fun _ => rfl⟩
  | error reason =>
      rw [hv] at hok
      cases hok
      refine ⟨fun hfound => absurd hfound Bool.false_ne_true, fun hversion => ?_⟩
      obtain ⟨version, hversion⟩ := hversion
      cases hversion

theorem isDirectory_of_isDex {t t' : Session σ} (hok : isDex a e t = (.ok true, t')) :
    e.isDirectory = false := by
  unfold isDex isDexBy at hok
  cases hdirectory : e.isDirectory with
  | false => rfl
  | true =>
      rw [hdirectory] at hok
      cases hok

/-- Listing goes well only if every entry could be told, and lists the names of those recognised. -/
theorem dexNames_ok (h : a.reader.Serves d) {entries : List Zip.Entry} {names : List String}
    {t t' : Session σ} (hok : dexNames a entries t = (.ok names, t')) :
    (∀ e ∈ entries, e.isDirectory = false → ∃ found, Recognises a d e found) ∧
      ∀ name ∈ names, ∃ e ∈ entries, e.name = name ∧ e.isDirectory = false ∧ Recognises a d e true := by
  induction entries generalizing names t t' with
  | nil =>
      cases hok
      exact ⟨nofun, nofun⟩
  | cons e entries ih =>
      rw [dexNames_cons] at hok
      obtain ⟨found, t₁, hfound, hok⟩ := Action.exists_of_bind_eq_ok hok
      obtain ⟨rest, t₂, hrest, hok⟩ := Action.exists_of_bind_eq_ok hok
      obtain ⟨hall, hnames⟩ := ih hrest
      cases hok
      refine ⟨fun e' he' hdirectory => ?_, fun name hname => ?_⟩
      · rcases List.mem_cons.1 he' with rfl | he'
        · exact ⟨found, recognises_of_isDex_ok h hdirectory hfound⟩
        · exact hall e' he' hdirectory
      · have htail : ∀ name ∈ rest, ∃ e' ∈ e :: entries, e'.name = name ∧ e'.isDirectory = false ∧
            Recognises a d e' true := by
          intro name hname
          obtain ⟨e', he', hrecognised⟩ := hnames name hname
          exact ⟨e', List.mem_cons_of_mem e he', hrecognised⟩
        cases found with
        | false => exact htail name hname
        | true =>
            rcases List.mem_cons.1 hname with rfl | hname
            · have hdirectory := isDirectory_of_isDex hfound
              exact ⟨e, List.mem_cons_self, rfl, hdirectory, recognises_of_isDex_ok h hdirectory hfound⟩
            · exact htail name hname

end Recognised

/-! ### Loading what is listed -/

theorem two_le_countP {α : Type} {p : α → Bool} {l : List α} {x y : α} (hx : x ∈ l) (hy : y ∈ l)
    (hpx : p x = true) (hpy : p y = true) (hne : x ≠ y) : 2 ≤ l.countP p := by
  have hsubset : [x, y] ⊆ l.filter p := by
    intro z hz
    rcases List.mem_pair.1 hz with rfl | rfl
    · exact List.mem_filter.2 ⟨hx, hpx⟩
    · exact List.mem_filter.2 ⟨hy, hpy⟩
  have hnodup : [x, y].Nodup := by simp [hne]
  rw [List.countP_eq_length_filter]
  exact (List.subperm_of_subset hnodup hsubset).length_le

theorem lookUp_of_serves (h : c.source.Serves d) {entries : List Zip.Entry}
    (hentries : Zip.Archive.entriesOf d = .ok entries) (name : String) (t : Session σ) :
    ∃ reader t₁, reader.Serves d ∧ (c.entry name t).1 = (c.lookUp name ⟨reader, entries⟩ t₁).1 := by
  rcases withArchive_of_serves h (c.lookUp name) t with
    ⟨e, herror, -⟩ | ⟨entries', reader, t₁, hentries', hserves, hwork⟩
  · rw [hentries] at herror
    cases herror
  · obtain rfl : entries = entries' := Except.ok.inj (hentries.symm.trans hentries')
    exact ⟨reader, t₁, hserves, hwork⟩

/-- A listed name is that of an entry, and loading it gives a dex file or fails to read it. It fails for
the content only if that entry is not the only one of its name. -/
theorem entry_of_mem_dexEntryNames (h : c.source.Serves d) (hlimit : c.maxEntrySize = none)
    {names : List String} (hlist : (c.dexEntryNames t).1 = .ok names) {name : String}
    (hname : name ∈ names) (t' : Session σ) :
    (∃ f version, (c.entry name t').1 = .ok (some f) ∧ f.entry = name ∧
        Dex.verify f.bytes = .ok version) ∨
      (∃ cause, (c.entry name t').1 = .error (.io cause)) ∨
      ∃ reason entries, (c.entry name t').1 = .error (.notADexFile name reason) ∧
        Zip.Archive.entriesOf d = .ok entries ∧ 2 ≤ entries.countP fun e => e.name = name := by
  rcases withArchive_of_serves h (fun archive => dexNames archive archive.entries) t with
    ⟨e, -, herror⟩ | ⟨entries, reader, t₁, hentries, hserves, hwork⟩
  · rw [dexEntryNames_eq, herror] at hlist
    cases hlist
  · rw [dexEntryNames_eq, hwork] at hlist
    obtain ⟨hall, hnames⟩ := dexNames_ok (a := ⟨reader, entries⟩) hserves (Prod.ext hlist rfl)
    obtain ⟨listed, hlisted, hlistedname, hdirectory, hrecognised⟩ := hnames name hname
    obtain ⟨reader', t₂, hserves', hentry⟩ := lookUp_of_serves h hentries name t'
    rw [hentry]
    cases hfind : (⟨reader', entries⟩ : Zip.Archive σ).find? name with
    | none =>
        have hnone := List.find?_eq_none.1 hfind listed hlisted
        simp [hlistedname] at hnone
    | some first =>
        have hfirst : first ∈ entries := List.mem_of_find?_eq_some hfind
        have hfirstname : first.name = name := by simpa using List.find?_some hfind
        have hfirstdirectory : first.isDirectory = false := by
          rw [Zip.Entry.isDirectory, hfirstname, ← hlistedname]
          exact hdirectory
        obtain ⟨found, content, s, s', p, hcontent, hp, hfound⟩ := hall first hfirst hfirstdirectory
        have hagrees := Zip.Archive.agrees_content (a := ⟨reader, entries⟩) (b := ⟨reader', entries⟩)
          hserves hserves' first s t₂.source
        rw [hcontent] at hagrees
        rw [lookUp_of_find?_eq_some hfind]
        rcases Zip.Archive.readEntry_of_begins (a := ⟨reader', entries⟩) hserves' hp hagrees.symm t₂.source
          with ⟨cause, hread⟩ | ⟨b, hread, hverify⟩
        · refine .inr (.inl ⟨cause, ?_⟩)
          rw [load_of_readEntry_error hlimit hread]
          rfl
        · rw [load_of_readEntry_ok hlimit hread]
          cases hv : Dex.verify b with
          | ok version => exact .inl ⟨_, version, rfl, hfirstname, hv⟩
          | error reason =>
              refine .inr (.inr ⟨reason, entries, by rw [hfirstname]; rfl, hentries, ?_⟩)
              -- The listed entry was recognised and this one is not, so they are two.
              apply two_le_countP hfirst hlisted (by simp [hfirstname]) (by simp [hlistedname])
              rintro rfl
              obtain ⟨content', s₁, s₁', q, -, hq, hversion⟩ := hrecognised
              obtain ⟨version, hversion⟩ := hversion.1 rfl
              rw [hverify, ← hq.verify_eq hp, hversion] at hv
              cases hv

def memoryContainer (p : Zip.Package) : Container Unit :=
  ⟨⟨1⟩, .memory "memory:t" p.bytes, .default, none⟩

theorem entry_of_mem_dexEntryNames_smallPackage :
    (∃ f version, ((memoryContainer smallPackage).entry "classes.dex" ⟨(), #[]⟩).1 = .ok (some f) ∧
        f.entry = "classes.dex" ∧ Dex.verify f.bytes = .ok version) ∨
      (∃ cause, ((memoryContainer smallPackage).entry "classes.dex" ⟨(), #[]⟩).1 = .error (.io cause)) ∨
      ∃ reason entries, ((memoryContainer smallPackage).entry "classes.dex" ⟨(), #[]⟩).1 =
          .error (.notADexFile "classes.dex" reason) ∧
        Zip.Archive.entriesOf smallPackage.bytes = .ok entries ∧
        2 ≤ entries.countP fun e => e.name = "classes.dex" := by
  have hsource : (memoryContainer smallPackage).source.Serves smallPackage.bytes :=
    Source.serves_memory "memory:t" smallPackage.bytes
  have hnames := dexEntryNames_of_package hsource.holds ⟨(), #[]⟩
  have hlisted : smallDex.name ∈ (smallPackage.members.filter Zip.Member.isListed).map Zip.Member.name :=
    List.mem_map_of_mem (List.mem_filter.2 ⟨List.mem_cons_self, isListed_smallDex⟩)
  exact entry_of_mem_dexEntryNames hsource rfl hnames hlisted ⟨(), #[]⟩

/-- A file with the name of a dex file but not the content of one. -/
def falseDex : Zip.Member := { smallNote with name := smallDex.name, name_lt := smallDex.name_lt }

/-- An archive with two files of one name. -/
def doublePackage : Zip.Package :=
  .plain [falseDex, smallDex] (by decide) (by decide +kernel) (by decide +kernel)

/-- The second file is listed by its name, and the first is what the name stands for. -/
theorem listed_and_refused :
    ((memoryContainer doublePackage).dexEntryNames ⟨(), #[]⟩).1 = .ok ["classes.dex"] ∧
      ((memoryContainer doublePackage).entry "classes.dex" ⟨(), #[]⟩).1 =
        .error (.notADexFile "classes.dex" .tooShort) := by
  have hsource : (memoryContainer doublePackage).source.Holds doublePackage.bytes :=
    (Source.serves_memory "memory:t" doublePackage.bytes).holds
  have hmembers : doublePackage.members = [falseDex, smallDex] := rfl
  have hnames := dexEntryNames_of_package hsource ⟨(), #[]⟩
  have hfind : (doublePackage.members.find? fun m => m.name = "classes.dex") = some falseDex := rfl
  have hentry := entry_of_find?_eq_some hsource rfl hfind ⟨(), #[]⟩
  have hverify : Dex.verify falseDex.content = .error .tooShort := rfl
  rw [hmembers, List.filter_cons_of_neg (by decide +kernel), List.filter_cons_of_pos isListed_smallDex,
    List.filter_nil] at hnames
  rw [hverify] at hentry
  exact ⟨hnames, hentry⟩

end Container

end DexArchive
