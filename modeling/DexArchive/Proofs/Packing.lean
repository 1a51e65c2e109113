import DexArchive.Proofs.Container
import DexArchive.Proofs.Zip.Members

/-! Containers over archives that were written. Such an archive is recognised as one, what is listed of it
are the files with the content of a dex file, and every file is loaded with its content, or refused for it. -/

namespace DexArchive

namespace Zip.Member

variable {d : ByteArray} {members : List Member} {entries : List Entry}

/-- The file has the content of a dex file, and not the name of a directory. -/
def isListed (m : Member) : Bool := m.name.toList.getLast? ≠ some '/' && (Dex.verify m.content).isOk

/-- Looking up a name in the directory is looking it up among the files: the first one counts. -/
theorem find?_of_isIn (h : List.Forall₂ (IsIn d) members entries) (name : String) :
    match members.find? fun m => m.name = name with
    | none => (entries.find? fun e => e.name = name) = none
    | some m => ∃ e, (entries.find? fun e => e.name = name) = some e ∧ IsIn d m e := by
  induction h with
  | nil => rfl
  | @cons m e members entries hfirst _ ih =>
      by_cases hname : m.name = name
      · rw [List.find?_cons_of_pos (by simpa using hname)]
        exact ⟨e, List.find?_cons_of_pos (by simpa [hfirst.name_eq] using hname), hfirst⟩
      · rw [List.find?_cons_of_neg (by simpa using hname),
          List.find?_cons_of_neg (by simpa [hfirst.name_eq] using hname)]
        exact ih

/-- If the files have different names, each is found by its name. -/
theorem find?_eq_some_of_nodup (hnodup : (members.map name).Nodup) {m : Member} (hm : m ∈ members) :
    (members.find? fun m' => m'.name = m.name) = some m := by
  induction members with
  | nil => cases hm
  | cons first members ih =>
      rw [List.map_cons, List.nodup_cons] at hnodup
      rcases List.mem_cons.1 hm with rfl | hrest
      · exact List.find?_cons_of_pos (by simp)
      · have hne : first.name ≠ m.name := by
          intro heq
          exact hnodup.1 (heq ▸ List.mem_map_of_mem hrest)
        rw [List.find?_cons_of_neg (by simpa using hne)]
        exact ih hnodup.2 hrest

end Zip.Member

namespace Container

open Session

variable {σ : Type} {c : Container σ} {d : ByteArray}

section Members

variable {a : Zip.Archive σ} {m : Zip.Member} {e : Zip.Entry}

theorem isDex_of_isIn (ha : a.reader.Holds d) (hmax : d.size ≤ addressMax) (h : m.IsIn d e)
    (t : Session σ) : ∃ t', isDex a e t = (.ok m.isListed, t') := by
  cases hdirectory : e.isDirectory with
  | true =>
      obtain ⟨t', hdex, -⟩ := isDex_of_isDirectory a hdirectory t
      rw [Zip.Entry.isDirectory, h.name_eq] at hdirectory
      rw [Zip.Member.isListed, decide_eq_false (not_not_intro (of_decide_eq_true hdirectory)), Bool.false_and]
      exact ⟨t', hdex⟩
  | false =>
      obtain ⟨s', hsniff⟩ := h.hasEntry.sniff hmax ha t.source
      obtain ⟨t', hdex, -⟩ := isDex_of_sniff_ok hdirectory hsniff
      rw [Zip.Entry.isDirectory, h.name_eq] at hdirectory
      rw [Zip.Member.isListed, decide_eq_true (of_decide_eq_false hdirectory), Bool.true_and]
      exact ⟨t', hdex⟩

/-- Listing goes well, and gives the names of the files that are to be listed. -/
theorem dexNames_of_isIn (ha : a.reader.Holds d) (hmax : d.size ≤ addressMax)
    {members : List Zip.Member} {entries : List Zip.Entry}
    (h : List.Forall₂ (Zip.Member.IsIn d) members entries) (t : Session σ) :
    ∃ t', dexNames a entries t =
      (.ok ((members.filter Zip.Member.isListed).map Zip.Member.name), t') := by
  induction h generalizing t with
  | nil => exact ⟨t, rfl⟩
  | @cons m e members entries hfirst _ ih =>
      obtain ⟨t₁, hfound⟩ := isDex_of_isIn ha hmax hfirst t
      obtain ⟨t₂, hnames⟩ := ih t₁
      refine ⟨t₂, ?_⟩
      rw [dexNames_cons, Action.bind_ok hfound, Action.bind_ok hnames]
      by_cases hlisted : m.isListed = true
      · rw [if_pos hlisted, List.filter_cons_of_pos hlisted, List.map_cons, hfirst.name_eq]
        rfl
      · rw [if_neg hlisted, List.filter_cons_of_neg hlisted]
        rfl

theorem load_of_isIn (hlimit : c.maxEntrySize = none) (ha : a.reader.Holds d)
    (hmax : d.size ≤ addressMax) (h : m.IsIn d e) (t : Session σ) :
    (c.load a e t).1 = match Dex.verify m.content with
      | .error reason => .error (.notADexFile m.name reason)
      | .ok _ => .ok ⟨m.name, m.content, c.opcodes, c.id⟩ := by
  obtain ⟨s', hread⟩ := h.hasEntry.readEntry hmax ha t.source
  have hload := load_of_readEntry_ok hlimit (congrArg Prod.fst hread)
  rw [h.name_eq] at hload
  exact hload

end Members

section Packages

variable {p : Zip.Package}

theorem withArchive_of_package {α : Type} (h : c.source.Holds p.bytes)
    (work : Zip.Archive σ → Action Error (Session σ) α) (t : Session σ) :
    ∃ reader t', reader.Holds p.bytes ∧ (c.withArchive work t).1 = (work ⟨reader, p.entries⟩ t').1 := by
  obtain ⟨reader, s₁, hacquire, hholds⟩ := h t.source
  obtain ⟨s₂, hread⟩ := p.ofReader_eq hholds s₁
  obtain ⟨t', hwork⟩ := withArchive_of_ofReader_ok hacquire hread work
  exact ⟨reader, t', hholds, hwork⟩

theorem isZip_of_package (h : c.source.Holds p.bytes) (t : Session σ) : (c.isZip t).1 = true := by
  obtain ⟨reader, t', -, hwork⟩ := withArchive_of_package h (fun _ => pure ()) t
  unfold isZip
  cases hrun : c.withArchive (fun _ => pure ()) t with
  | mk result t'' =>
      rw [hrun] at hwork
      obtain rfl : result = .ok () := hwork
      rfl

theorem dexEntryNames_of_package (h : c.source.Holds p.bytes) (t : Session σ) :
    (c.dexEntryNames t).1 = .ok ((p.members.filter Zip.Member.isListed).map Zip.Member.name) := by
  obtain ⟨reader, t', hholds, hwork⟩ :=
    withArchive_of_package h (fun archive => dexNames archive archive.entries) t
  obtain ⟨t'', hnames⟩ := dexNames_of_isIn (a := ⟨reader, p.entries⟩) hholds p.size_le p.isIn_entries t'
  rw [dexEntryNames_eq, hwork]
  exact congrArg Prod.fst hnames

/-- Of the files of one name, the first is loaded. -/
theorem entry_of_find?_eq_some (h : c.source.Holds p.bytes) (hlimit : c.maxEntrySize = none) {name : String}
    {m : Zip.Member} (hm : (p.members.find? fun m => m.name = name) = some m) (t : Session σ) :
    (c.entry name t).1 = match Dex.verify m.content with
      | .error reason => .error (.notADexFile m.name reason)
      | .ok _ => .ok (some ⟨m.name, m.content, c.opcodes, c.id⟩) := by
  obtain ⟨reader, t', hholds, hwork⟩ := withArchive_of_package h (c.lookUp name) t
  have hfound := Zip.Member.find?_of_isIn p.isIn_entries name
  rw [hm] at hfound
  obtain ⟨e, hfind, hin⟩ := hfound
  rw [entry_eq, hwork, lookUp_of_find?_eq_some (a := ⟨reader, p.entries⟩) hfind,
    load_of_isIn (a := ⟨reader, p.entries⟩) hlimit hholds p.size_le hin]
  cases Dex.verify m.content with
  | ok version => rfl
  | error reason => rfl

theorem entry_of_find?_eq_none (h : c.source.Holds p.bytes) {name : String}
    (hname : (p.members.find? fun m => m.name = name) = none) (t : Session σ) :
    (c.entry name t).1 = .ok none := by
  obtain ⟨reader, t', -, hwork⟩ := withArchive_of_package h (c.lookUp name) t
  have hfound := Zip.Member.find?_of_isIn p.isIn_entries name
  rw [hname] at hfound
  rw [entry_eq, hwork, lookUp_of_find?_eq_none (a := ⟨reader, p.entries⟩) hfound]

/-- From the bytes of an archive, a container has back the files that were put into it, if their names are
different: it knows the archive for one, lists the dex files in their order, and loads or refuses each file
by its content. -/
theorem unpacks_package (h : c.source.Holds p.bytes) (hlimit : c.maxEntrySize = none)
    (hnodup : (p.members.map Zip.Member.name).Nodup) (t : Session σ) :
    (c.isZip t).1 = true ∧
      (c.dexEntryNames t).1 = .ok ((p.members.filter Zip.Member.isListed).map Zip.Member.name) ∧
      (∀ m ∈ p.members, (c.entry m.name t).1 = match Dex.verify m.content with
        | .error reason => .error (.notADexFile m.name reason)
        | .ok _ => .ok (some ⟨m.name, m.content, c.opcodes, c.id⟩)) ∧
      ∀ name, (∀ m ∈ p.members, m.name ≠ name) → (c.entry name t).1 = .ok none :=
  ⟨isZip_of_package h t, dexEntryNames_of_package h t,
    fun _ hm => entry_of_find?_eq_some h hlimit (Zip.Member.find?_eq_some_of_nodup hnodup hm) t,
    fun _ hname => entry_of_find?_eq_none h (List.find?_eq_none.2 fun m hm => by simpa using hname m hm) t⟩

end Packages

/-- A dex file, stored. -/
def smallDex : Zip.Member :=
  .plain "classes.dex" .stored Dex.shortDex Dex.shortDex rfl (by decide +kernel) (by decide +kernel)

theorem isListed_smallDex : smallDex.isListed = true := by decide +kernel

theorem inflates_note :
    Deflate.Inflates (pack [(1, 1), (2, 1), (2, 0xFFFE), (1, 0x68)]) (pack [(1, 0x68)]) := by
  refine Deflate.inflates_iff.2 ⟨⟨48, .ended, true, pack [(1, 0x68)]⟩, ?_, rfl, rfl⟩
  refine .head (b := ⟨40, .stored 1, true, .empty⟩) rfl ?_
  refine .head (b := ⟨48, .literal 0x68 .ended, true, .empty⟩) rfl ?_
  exact .head rfl .refl

/-- A text of one byte, in a deflate stream. -/
def smallNote : Zip.Member :=
  .plain "note.txt" .deflate (pack [(1, 1), (2, 1), (2, 0xFFFE), (1, 0x68)]) (pack [(1, 0x68)]) inflates_note
    (by decide +kernel) (by decide +kernel)

def smallPackage : Zip.Package :=
  .plain [smallDex, smallNote] (by decide) (by decide +kernel) (by decide +kernel)

def smallContainer : Container Unit :=
  ⟨⟨1⟩, .file Unit "small.zip" (some smallPackage.bytes), .default, none⟩

theorem unpacks_smallPackage :
    (smallContainer.isZip ⟨(), #[]⟩).1 = true ∧
      (smallContainer.dexEntryNames ⟨(), #[]⟩).1 = .ok ["classes.dex"] ∧
      (smallContainer.entry "classes.dex" ⟨(), #[]⟩).1 =
        .ok (some ⟨"classes.dex", Dex.shortDex, .default, ⟨1⟩⟩) ∧
      (smallContainer.entry "note.txt" ⟨(), #[]⟩).1 = .error (.notADexFile "note.txt" .tooShort) ∧
      (smallContainer.entry "absent" ⟨(), #[]⟩).1 = .ok none := by
  have hsource : smallContainer.source.Holds smallPackage.bytes :=
    Source.holds_file Unit "small.zip" (by decide +kernel)
  have hmembers : smallPackage.members = [smallDex, smallNote] := rfl
  obtain ⟨hzip, hnames, hentry, hnone⟩ := unpacks_package hsource rfl (by decide) ⟨(), #[]⟩
  rw [hmembers] at hnames hentry hnone
  have hdex := hentry smallDex List.mem_cons_self
  have hnote := hentry smallNote (List.mem_cons_of_mem smallDex List.mem_cons_self)
  have hdexVerify : Dex.verify smallDex.content = .ok 35 := Dex.verify_shortDex
  have hnoteVerify : Dex.verify smallNote.content = .error .tooShort := rfl
  rw [List.filter_cons_of_pos isListed_smallDex, List.filter_cons_of_neg (by decide +kernel), List.filter_nil]
    at hnames
  rw [hdexVerify] at hdex
  rw [hnoteVerify] at hnote
  exact ⟨hzip, hnames, hdex, hnote, hnone "absent" (by decide)⟩

end Container

end DexArchive
