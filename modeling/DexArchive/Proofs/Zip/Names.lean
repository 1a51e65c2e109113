import DexArchive.Proofs.Packing
import DexArchive.Proofs.Runs
import DexArchive.Proofs.Text.Lossy
import DexArchive.Proofs.Zip.Records

/-! The names of entries. A name is what the bytes of it in the directory are read as, be they broken or not; whether
it is that of a directory is decided by the last of them, and names that are not broken are the same only if their
bytes are. Looking up the name of an entry finds the first entry of that name. -/

namespace DexArchive.Zip

namespace Entry

variable {dir raw raw' : ByteArray} {pos next : Nat} {e e' : Entry}

/-- The bytes of the name in the record at `pos`. -/
def rawName (dir : ByteArray) (pos : Nat) : ByteArray := dir.extract (pos + recordLength) (extraStart dir pos)

/-- The entry has the name that the bytes `raw` are read as. -/
structure IsNamed (raw : ByteArray) (e : Entry) : Prop where
  renders : Text.Renders raw.data.toList e.name.toList
  isDirectory_iff : e.isDirectory = true ↔ raw.data.toList.getLast? = some 0x2F
  toUTF8_eq_iff : e.name.toUTF8 = raw ↔ raw.IsValidUTF8

theorem isNamed_of_parse (h : parse dir pos = .ok (e, next)) : IsNamed (rawName dir pos) e := by
  obtain ⟨-, -, b, -, rfl⟩ := exists_of_parse_eq_ok h
  have hrenders : Text.Renders (rawName dir pos).data.toList (ofRecord dir pos b).name.toList :=
    Text.renders_iff.2 String.toList_ofList.symm
  refine ⟨hrenders, ?_, Text.toUTF8_ofUtf8_eq_iff⟩
  rw [isDirectory, decide_eq_true_iff]
  exact hrenders.getLast?_eq_some_iff rfl

/-- Bytes that are not broken are one name each. -/
theorem IsNamed.name_ne (h : IsNamed raw e) (h' : IsNamed raw' e') (hraw : raw.IsValidUTF8)
    (hraw' : raw'.IsValidUTF8) (hne : raw ≠ raw') : e.name ≠ e'.name := by
  intro hname
  apply hne
  calc
    raw = e.name.toUTF8 := (h.toUTF8_eq_iff.2 hraw).symm
    _ = e'.name.toUTF8 := congrArg String.toUTF8 hname
    _ = raw' := h'.toUTF8_eq_iff.2 hraw'

end Entry

open Entry

namespace Archive

variable {σ : Type} {reader : Reader σ} {a : Archive σ} {s s' : σ}

/-- The entries of an archive that was opened are those of the records in its directory. -/
theorem exists_directoryOf (h : ofReader reader s = (.ok a, s')) :
    ∃ dir count, directoryOf reader s = (.ok (dir, count), s') ∧ parseDirectory dir count = .ok a.entries := by
  cases hdirectory : directoryOf reader s with
  | mk result t =>
      cases result with
      | error e =>
          rw [ofReader_eq_directoryOf, Action.bind_error hdirectory] at h
          cases h
      | ok directory =>
          obtain ⟨dir, count⟩ := directory
          rw [ofReader_of_directoryOf hdirectory] at h
          cases hparse : parseDirectory dir count with
          | error cause =>
              rw [hparse] at h
              cases h
          | ok entries =>
              rw [hparse] at h
              cases h
              exact ⟨dir, count, rfl, hparse⟩

/-- The entry number `k` is the one that is found by the name. -/
structure Finds (a : Archive σ) (name : String) (k : Nat) : Prop where
  lt : k < a.entries.length
  find?_eq : a.find? name = some a.entries[k]
  name_eq : a.entries[k].name = name
  /-- No entry of the name comes before it. -/
  le : ∀ j (hj : j < a.entries.length), a.entries[j].name = name → k ≤ j

theorem Finds.of_append {name : String} {before after : List Entry} {e : Entry}
    (hentries : a.entries = before ++ e :: after) (hbefore : ∀ x ∈ before, x.name ≠ name) (hname : e.name = name) :
    a.Finds name before.length := by
  have hlt : before.length < a.entries.length := by
    rw [hentries, List.length_append]
    exact Nat.lt_add_of_pos_right (Nat.succ_pos _)
  have hget : a.entries[before.length] = e := by
    simp only [hentries, List.getElem_append_right (Nat.le_refl _), Nat.sub_self, List.getElem_cons_zero]
  refine ⟨hlt, ?_, by rw [hget, hname], fun j hj hnamed => Nat.le_of_not_lt fun hjlt => ?_⟩
  · rw [hget]
    exact find?_eq_some_iff.2 ⟨before, after, hentries, hbefore, hname⟩
  · refine hbefore a.entries[j] ?_ hnamed
    simp only [hentries, List.getElem_append_left hjlt]
    exact List.getElem_mem hjlt

/-- The name of an entry finds an entry. -/
theorem exists_finds (a : Archive σ) {e : Entry} (he : e ∈ a.entries) : ∃ k, a.Finds e.name k := by
  cases hfind : a.find? e.name with
  | none => exact absurd (decide_eq_true rfl) (List.find?_eq_none.1 hfind e he)
  | some first =>
      obtain ⟨before, after, hentries, hbefore, hname⟩ := find?_eq_some_iff.1 hfind
      exact ⟨before.length, .of_append hentries hbefore hname⟩

end Archive

/-- Names are what their bytes are read as, and they are told apart and looked up by that. -/
theorem names_of_records :
    (∀ (dir : ByteArray) (pos : Nat) (e : Entry) (next : Nat), Entry.parse dir pos = .ok (e, next) →
      IsNamed (rawName dir pos) e) ∧
    (∀ (dir dir' : ByteArray) (pos pos' : Nat) (e e' : Entry) (next next' : Nat),
      Entry.parse dir pos = .ok (e, next) → Entry.parse dir' pos' = .ok (e', next') →
        (rawName dir pos).IsValidUTF8 → (rawName dir' pos').IsValidUTF8 → rawName dir pos ≠ rawName dir' pos' →
          e.name ≠ e'.name) ∧
    ∀ {σ : Type} (reader : Reader σ) (s s' : σ) (a : Archive σ), Archive.ofReader reader s = (.ok a, s') →
      ∃ dir, directoryOf reader s = (.ok (dir, a.entries.length), s') ∧
        (∀ k (hk : k < a.entries.length), IsNamed (rawName dir (recordPlace dir k)) a.entries[k]) ∧
        ∀ e ∈ a.entries, ∃ k, a.Finds e.name k := by
  refine ⟨fun dir pos e next => isNamed_of_parse, ?_, ?_⟩
  · intro dir dir' pos pos' e e' next next' h h' hraw hraw' hne
    exact (isNamed_of_parse h).name_ne (isNamed_of_parse h') hraw hraw' hne
  · intro σ reader s s' a h
    obtain ⟨dir, count, hdirectory, hentries⟩ := Archive.exists_directoryOf h
    obtain ⟨rfl, hparse⟩ := parse_of_parseRecords hentries
    exact ⟨dir, hdirectory, fun k hk => isNamed_of_parse (hparse k hk), fun e he => a.exists_finds he⟩

/-- A record whose name is the first two bytes of a character of three, and a slash. -/
def cutRecord : ByteArray :=
  pack [(4, recordSignature), (2, 20), (2, 20), (2, 0), (2, 0), (2, 0), (2, 0), (4, 0), (4, 0), (4, 0),
    (2, 3), (2, 0), (2, 0), (2, 0), (2, 0), (4, 0), (4, 0), (1, 0xE2), (1, 0x82), (1, 0x2F)]

theorem parse_cutRecord : Entry.parse cutRecord 0 = .ok (ofRecord cutRecord 0 ⟨0, 0, 0⟩, 49) := by
  have hstart : extraStart cutRecord 0 = 49 := by decide +kernel
  have hown : ownLength cutRecord 0 = 49 := by decide +kernel
  have hdeclared : declaredLength cutRecord 0 = 49 := by decide +kernel
  have hnarrow : narrowBounds cutRecord 0 = ⟨0, 0, 0⟩ := by decide +kernel
  rw [parse_of_held (by decide +kernel), if_neg (by decide +kernel), hstart, hown, hdeclared, hnarrow,
    Bounds.resolve_of_stop_lt (by decide)]

/-- The slash is not part of what is broken before it; and the name of a file of an archive finds an entry. -/
theorem names_of_records_cutRecord :
    (ofRecord cutRecord 0 ⟨0, 0, 0⟩).isDirectory = true ∧
      Text.Renders [0xE2, 0x82, 0x2F] (ofRecord cutRecord 0 ⟨0, 0, 0⟩).name.toList ∧
      ∃ a s', Archive.ofReader (memoryReader Unit Container.smallPackage.bytes) () = (.ok a, s') ∧
        ∃ k, a.Finds "classes.dex" k := by
  have hraw : (rawName cutRecord 0).data.toList = [0xE2, 0x82, 0x2F] := by decide +kernel
  have hnamed := names_of_records.1 _ _ _ _ parse_cutRecord
  obtain ⟨s', hopen⟩ := Container.smallPackage.ofReader_eq (Reader.serves_memoryReader Unit _).holds ()
  obtain ⟨dir, -, -, hfinds⟩ := names_of_records.2.2 _ _ _ _ hopen
  have hmem : Container.smallDex.entry 0 ∈ Container.smallPackage.entries := List.mem_cons_self
  exact ⟨hnamed.isDirectory_iff.2 (hraw ▸ rfl), hraw ▸ hnamed.renders, _, s', hopen, hfinds _ hmem⟩

end DexArchive.Zip
