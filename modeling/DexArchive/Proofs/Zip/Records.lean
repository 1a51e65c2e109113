import DexArchive.Proofs.Zip.Confinement

/-! Reading the records of a directory one after the other. A record begins where the one before it says that it
ends, whatever its extra field holds; the first record that cannot be accepted ends the reading, and as each
record takes some bytes, no more are tried than the directory has room for. What is after the last record decides
over the entries only where a value is taken from there. -/

namespace DexArchive.Zip

namespace Entry

variable {dir dir' : ByteArray} {pos : Nat}

/-- The record at `pos` begins with the signature, it is in the directory as a whole, and so are the bytes that
its values are taken from. -/
structure IsAcceptable (dir : ByteArray) (pos : Nat) : Prop where
  signature_eq : numberAt dir pos 4 = recordSignature
  held : pos + declaredLength dir pos ≤ dir.size
  reach_le : reach dir pos ≤ dir.size

theorem recordLength_le_declaredLength (dir : ByteArray) (pos : Nat) :
    recordLength ≤ declaredLength dir pos := by
  simp only [declaredLength, ownLength, Nat.add_assoc]
  exact Nat.le_add_right _ _

theorem next_of_parse {e : Entry} {next : Nat} (h : parse dir pos = .ok (e, next)) :
    IsAcceptable dir pos ∧ next = pos + declaredLength dir pos := by
  obtain ⟨hheld, hsignature, b, hresolve, -⟩ := exists_of_parse_eq_ok h
  have hown := ownLength_le_declaredLength dir pos
  have hreach := (Bounds.resolve_ne_none_iff (show pos + ownLength dir pos ≤ dir.size by omega)).1
    (by rw [hresolve]; exact Option.some_ne_none b)
  refine ⟨⟨hsignature, hheld, hreach⟩, ?_⟩
  rw [parse_of_held hheld, if_neg fun hne => hne hsignature, hresolve] at h
  exact (congrArg Prod.snd (Except.ok.inj h)).symm

theorem IsAcceptable.exists_parse (h : IsAcceptable dir pos) :
    ∃ e, parse dir pos = .ok (e, pos + declaredLength dir pos) := by
  have hown := ownLength_le_declaredLength dir pos
  have hheld := h.held
  obtain ⟨b, hresolve⟩ := Option.ne_none_iff_exists'.1 <|
    (Bounds.resolve_ne_none_iff (show pos + ownLength dir pos ≤ dir.size by omega)).2 h.reach_le
  refine ⟨ofRecord dir pos b, ?_⟩
  rw [parse_of_held hheld, if_neg fun hne => hne h.signature_eq, hresolve]

theorem not_isAcceptable_iff : ¬ IsAcceptable dir pos ↔ ∃ fault, parse dir pos = .error fault := by
  constructor
  · intro hnot
    cases hparse : parse dir pos with
    | error fault => exact ⟨fault, rfl⟩
    | ok result => exact absurd (next_of_parse hparse).1 hnot
  · rintro ⟨fault, hparse⟩ h
    obtain ⟨e, hparse'⟩ := h.exists_parse
    rw [hparse'] at hparse
    cases hparse

/-- A record is read alike where the bytes of it, and those that its values are taken from, are the same. -/
theorem parse_eq_of_reach_le {limit : Nat} {e : Entry} {next : Nat} (h : parse dir pos = .ok (e, next))
    (hslice : slice dir' 0 limit = slice dir 0 limit) (hsize : limit ≤ dir'.size)
    (hlimit : next ≤ limit) (hreach : reach dir pos ≤ limit) : parse dir' pos = .ok (e, next) := by
  obtain ⟨hacceptable, rfl⟩ := next_of_parse h
  have hheld := hacceptable.held
  have hwithin := hacceptable.reach_le
  have hle := ownLength_le_declaredLength dir pos
  have hstop : pos + ownLength dir pos ≤ reach dir pos := Bounds.stop_le_reach dir _ _ _
  obtain ⟨n, hn⟩ := Nat.exists_eq_add_of_le (show pos ≤ reach dir pos by omega)
  have hsame : slice dir' pos n = slice dir pos n := slice_eq_of_slice_eq hslice (Nat.zero_le _) (by omega)
  have hentry := parse_eq_of_slice_eq hsame (by omega) (by omega) hheld (by omega) (by omega) (by omega)
  obtain ⟨-, hdeclared, -⟩ := lengths_own (slice_eq_of_slice_eq hslice (Nat.zero_le pos)
    (show pos + ownLength dir pos ≤ 0 + limit by omega))
  rw [h] at hentry
  cases hparse : parse dir' pos with
  | error fault =>
      rw [hparse] at hentry
      cases hentry
  | ok result =>
      rw [hparse] at hentry
      obtain ⟨e', next'⟩ := result
      obtain rfl : e' = e := Except.ok.inj hentry
      rw [(next_of_parse hparse).2, hdeclared]

end Entry

open Entry

/-! ### Places -/

/-- Where the record number `k` is, if the first one is at `pos`. -/
def placeFrom (dir : ByteArray) (pos : Nat) : Nat → Nat
  | 0 => pos
  | k + 1 => placeFrom dir (pos + declaredLength dir pos) k

/-- Where the record number `k` of a directory is. -/
def recordPlace (dir : ByteArray) (k : Nat) : Nat := placeFrom dir 0 k

section Places

variable {dir dir' : ByteArray} {pos : Nat}

theorem placeFrom_succ (dir : ByteArray) (pos k : Nat) :
    placeFrom dir pos (k + 1) = placeFrom dir pos k + declaredLength dir (placeFrom dir pos k) := by
  induction k generalizing pos with
  | zero => rfl
  | succ k ih => exact ih (pos + declaredLength dir pos)

theorem placeFrom_add_le (dir : ByteArray) (pos k n : Nat) :
    placeFrom dir pos k + recordLength * n ≤ placeFrom dir pos (k + n) := by
  induction n with
  | zero => exact Nat.le_refl _
  | succ n ih =>
      have hlength := recordLength_le_declaredLength dir (placeFrom dir pos (k + n))
      rw [← Nat.add_assoc, placeFrom_succ, Nat.mul_succ]
      omega

theorem placeFrom_le {j k : Nat} (h : j ≤ k) : placeFrom dir pos j ≤ placeFrom dir pos k := by
  obtain ⟨n, rfl⟩ := Nat.exists_eq_add_of_le h
  exact Nat.le_trans (Nat.le_add_right _ _) (placeFrom_add_le dir pos j n)

theorem mul_le_recordPlace (dir : ByteArray) (k : Nat) : recordLength * k ≤ recordPlace dir k := by
  have hle := placeFrom_add_le dir 0 0 k
  rw [Nat.zero_add k] at hle
  exact Nat.le_trans (Nat.le_add_left _ _) hle

/-- Where the directory is the same, so are the places of the records. -/
theorem recordPlace_eq {count k : Nat} (hk : k ≤ count)
    (h : slice dir' 0 (recordPlace dir count) = slice dir 0 (recordPlace dir count)) :
    recordPlace dir' k = recordPlace dir k := by
  induction k with
  | zero => rfl
  | succ k ih =>
      have hplace : placeFrom dir' 0 k = placeFrom dir 0 k := ih (Nat.le_of_lt hk)
      have hnext : placeFrom dir 0 (k + 1) ≤ recordPlace dir count := placeFrom_le hk
      have hown := ownLength_le_declaredLength dir (placeFrom dir 0 k)
      rw [placeFrom_succ] at hnext
      obtain ⟨-, hdeclared, -⟩ := lengths_own (slice_eq_of_slice_eq h (Nat.zero_le (placeFrom dir 0 k))
        (show placeFrom dir 0 k + ownLength dir (placeFrom dir 0 k) ≤ 0 + recordPlace dir count by omega))
      rw [recordPlace, recordPlace, placeFrom_succ, placeFrom_succ, hplace, hdeclared]

end Places

/-! ### The loop -/

section Loop

variable {dir : ByteArray}

/-- Reads records and lists the places at which one was tried. -/
def parseRecordsNoting (dir : ByteArray) :
    (count index pos : Nat) → Except Malformed (List Entry) × List Nat
  | 0, _, _ => (.ok [], [])
  | count + 1, index, pos =>
    match Entry.parse dir pos with
    | .error fault => (.error (.badRecord index fault), [pos])
    | .ok (entry, next) =>
      match parseRecordsNoting dir count (index + 1) next with
      | (.error e, places) => (.error e, pos :: places)
      | (.ok entries, places) => (.ok (entry :: entries), pos :: places)

theorem parseRecordsNoting_fst (count index pos : Nat) :
    (parseRecordsNoting dir count index pos).1 = parseRecords dir count index pos := by
  fun_induction parseRecordsNoting dir count index pos with
  | case1 => rfl
  | case2 count index pos fault hparse => rw [parseRecords, hparse]
  | case3 count index pos entry next hparse e places hrest ih =>
      rw [hrest] at ih
      rw [parseRecords, hparse]
      simp only [← ih]
  | case4 count index pos entry next hparse entries places hrest ih =>
      rw [hrest] at ih
      rw [parseRecords, hparse]
      simp only [← ih]

/-- Records that follow one another are read. -/
theorem parseRecords_of_parse {entries : List Entry} (place : Nat → Nat)
    (h : ∀ k (hk : k < entries.length), Entry.parse dir (place k) = .ok (entries[k], place (k + 1)))
    (index : Nat) : parseRecords dir entries.length index (place 0) = .ok entries := by
  induction entries generalizing place index with
  | nil => rfl
  | cons e entries ih =>
      have hfirst : Entry.parse dir (place 0) = .ok (e, place 1) := h 0 (Nat.succ_pos _)
      have hrest := ih (place <| · + 1) (fun k hk => h (k + 1) (Nat.succ_lt_succ hk)) (index + 1)
      rw [List.length_cons, parseRecords, hfirst]
      simp only [hrest]

/-- What comes of reading records: all of them, or those before the first that cannot be accepted. -/
inductive Reads (dir : ByteArray) (count index pos : Nat) : Except Malformed (List Entry) × List Nat → Prop
  | all {entries : List Entry} (hlength : entries.length = count)
      (hparse : ∀ k (hk : k < entries.length),
        Entry.parse dir (placeFrom dir pos k) = .ok (entries[k], placeFrom dir pos (k + 1))) :
      Reads dir count index pos (.ok entries, (List.range count).map (placeFrom dir pos))
  | upTo {k : Nat} {fault : RecordFault} (hk : k < count)
      (hbefore : ∀ j < k, IsAcceptable dir (placeFrom dir pos j))
      (hparse : Entry.parse dir (placeFrom dir pos k) = .error fault) :
      Reads dir count index pos
        (.error (.badRecord (index + k) fault), (List.range (k + 1)).map (placeFrom dir pos))

theorem map_range_succ_placeFrom (pos n : Nat) :
    (List.range (n + 1)).map (placeFrom dir pos) =
      pos :: (List.range n).map (placeFrom dir (pos + declaredLength dir pos)) := by
  rw [List.range_succ_eq_map, List.map_cons, List.map_map]
  rfl

theorem reads_parseRecordsNoting (dir : ByteArray) (count index pos : Nat) :
    Reads dir count index pos (parseRecordsNoting dir count index pos) := by
  induction count generalizing index pos with
  | zero => exact .all rfl fun k hk => absurd hk (Nat.not_lt_zero k)
  | succ count ih =>
      rw [parseRecordsNoting]
      cases hparse : Entry.parse dir pos with
      | error fault => exact .upTo (Nat.succ_pos count) (fun j hj => absurd hj (Nat.not_lt_zero j)) hparse
      | ok result =>
          obtain ⟨entry, next⟩ := result
          obtain ⟨hacceptable, rfl⟩ := next_of_parse hparse
          have hrest := ih (index + 1) (pos + declaredLength dir pos)
          simp only
          cases hnoting : parseRecordsNoting dir count (index + 1) (pos + declaredLength dir pos) with
          | mk result places =>
              rw [hnoting] at hrest
              cases hrest with
              | @all entries hlength hentries =>
                  simp only [← map_range_succ_placeFrom]
                  refine .all (congrArg (· + 1) hlength) fun k hk => ?_
                  cases k with
                  | zero => exact hparse
                  | succ k => exact hentries k (Nat.lt_of_succ_lt_succ hk)
              | @upTo k fault hk hbefore hfault =>
                  simp only [← map_range_succ_placeFrom, Nat.add_assoc, Nat.add_comm 1 k]
                  refine .upTo (Nat.succ_lt_succ hk) (fun j hj => ?_) hfault
                  cases j with
                  | zero => exact hacceptable
                  | succ j => exact hbefore j (Nat.lt_of_succ_lt_succ hj)

/-- The entries of records that were read. -/
theorem parse_of_parseRecords {count index pos : Nat} {entries : List Entry}
    (h : parseRecords dir count index pos = .ok entries) :
    entries.length = count ∧ ∀ k (hk : k < entries.length),
      Entry.parse dir (placeFrom dir pos k) = .ok (entries[k], placeFrom dir pos (k + 1)) := by
  have hreads := reads_parseRecordsNoting dir count index pos
  rw [← parseRecordsNoting_fst] at h
  generalize parseRecordsNoting dir count index pos = result at h hreads
  cases hreads with
  | all hlength hparse =>
      cases h
      exact ⟨hlength, hparse⟩
  | upTo hk hbefore hparse => cases h

end Loop

/-! ### Directories -/

section Directory

variable {dir : ByteArray} {count : Nat} {entries : List Entry}

/-- The entries of a directory are the same whatever is after the last record. -/
def IgnoresRest (dir : ByteArray) (count : Nat) : Prop :=
  ∀ dir' : ByteArray, recordPlace dir count ≤ dir'.size →
    slice dir' 0 (recordPlace dir count) = slice dir 0 (recordPlace dir count) →
    parseDirectory dir' count = parseDirectory dir count

theorem parse_of_parseDirectory (h : parseDirectory dir count = .ok entries) {k : Nat} (hk : k < count) :
    ∃ e, entries[k]? = some e ∧ Entry.parse dir (recordPlace dir k) = .ok (e, recordPlace dir (k + 1)) := by
  obtain ⟨rfl, hparse⟩ := parse_of_parseRecords h
  exact ⟨entries[k], List.getElem?_eq_getElem hk, hparse k hk⟩

/-- What is after the last record is ignored iff no value is taken from there. -/
theorem ignoresRest_iff (h : parseDirectory dir count = .ok entries) :
    IgnoresRest dir count ↔ ∀ k < count, reach dir (recordPlace dir k) ≤ recordPlace dir count := by
  constructor
  · intro hignores k hk
    apply Nat.le_of_not_lt
    intro hover
    obtain ⟨e, he, hparse⟩ := parse_of_parseDirectory h hk
    obtain ⟨hacceptable, hnext⟩ := next_of_parse hparse
    have hown := ownLength_le_declaredLength dir (recordPlace dir k)
    have hle : recordPlace dir (k + 1) ≤ recordPlace dir count := placeFrom_le hk
    obtain ⟨dir', hsize, hslice, hne⟩ := exists_parse_ne_of_lt_reach hparse (by omega) hover
    have hreach := hacceptable.reach_le
    have hsame := hignores dir' (by omega) hslice
    obtain ⟨e', he', hparse'⟩ := parse_of_parseDirectory (hsame.trans h) hk
    obtain rfl : e = e' := Option.some.inj (he.symm.trans he')
    rw [recordPlace_eq (Nat.le_of_lt hk) hslice] at hparse'
    exact hne _ hparse'
  · intro hreach dir' hsize hslice
    rw [h]
    obtain ⟨rfl, hparse⟩ := parse_of_parseRecords h
    refine parseRecords_of_parse (recordPlace dir) (fun k hk => ?_) 0
    exact parse_eq_of_reach_le (hparse k hk) hslice hsize (placeFrom_le hk) (hreach k hk)

/-- Opening an archive as far as the bytes of its directory; with them, how many records there are said to be. -/
def directoryOf {σ : Type} (reader : Reader σ) : Action Error σ (ByteArray × Nat) := do
  let (record, endOffset) ← findEndRecord reader
  let extent ← findDirectory reader record endOffset
  if endOffset < extent.offset + extent.size then
    malformed (.directoryOverrun extent.size extent.offset endOffset)
  else
    let directory ← readBytes reader extent.offset extent.size
    return (directory, extent.count)

theorem ofReader_eq_directoryOf {σ : Type} (reader : Reader σ) :
    Archive.ofReader reader = do
      let (dir, count) ← directoryOf reader
      return ⟨reader, ← wellFormed (parseDirectory dir count)⟩ := by
  rw [Archive.ofReader, directoryOf]
  simp only [bind_assoc]
  apply bind_congr
  rintro ⟨record, endOffset⟩
  apply bind_congr
  intro extent
  split
  · rfl
  · simp only [bind_assoc, pure_bind]

/-- What comes of the records is what comes of opening the archive. -/
theorem ofReader_of_directoryOf {σ : Type} {reader : Reader σ} {s s' : σ}
    (h : directoryOf reader s = (.ok (dir, count), s')) :
    Archive.ofReader reader s =
      (((parseDirectory dir count).mapError (.notAnArchive none)).map (Archive.mk reader), s') := by
  rw [ofReader_eq_directoryOf, Action.bind_ok h]
  simp only
  cases parseDirectory dir count with
  | error cause => rfl
  | ok entries => rfl

/-- How the records of a directory are read that is said to have `count` of them. -/
structure ReadsRecords (dir : ByteArray) (count : Nat) : Prop where
  /-- A record begins where the one before it ends, as that one says. -/
  places : recordPlace dir 0 = 0 ∧ ∀ k, recordPlace dir (k + 1) =
    recordPlace dir k + (46 + numberAt dir (recordPlace dir k + 28) 2 +
      numberAt dir (recordPlace dir k + 30) 2 + numberAt dir (recordPlace dir k + 32) 2)
  opens : ∀ {σ : Type} {reader : Reader σ} {s s' : σ}, directoryOf reader s = (.ok (dir, count), s') →
    Archive.ofReader reader s =
      (((parseDirectory dir count).mapError (.notAnArchive none)).map (Archive.mk reader), s')
  isOk_iff : (∃ entries, parseDirectory dir count = .ok entries) ↔
    ∀ k < count, IsAcceptable dir (recordPlace dir k)
  ok : ∀ entries, parseDirectory dir count = .ok entries →
    entries.length = count ∧ 46 * count ≤ dir.size ∧
      (∀ k (hk : k < entries.length),
        Entry.parse dir (recordPlace dir k) = .ok (entries[k], recordPlace dir (k + 1))) ∧
      (IgnoresRest dir count ↔ ∀ k < count, reach dir (recordPlace dir k) ≤ recordPlace dir count)
  error : ∀ cause, parseDirectory dir count = .error cause →
    ∃ k fault, cause = .badRecord k fault ∧ k < count ∧ ¬ IsAcceptable dir (recordPlace dir k) ∧
      (∀ j < k, IsAcceptable dir (recordPlace dir j)) ∧
      Entry.parse dir (recordPlace dir k) = .error fault
  /-- The records that are tried are the first ones, and there are no more than the directory has room for. -/
  tried : (parseRecordsNoting dir count 0 0).1 = parseDirectory dir count ∧
    ∃ n, (parseRecordsNoting dir count 0 0).2 = (List.range n).map (recordPlace dir) ∧
      n ≤ count ∧ n ≤ dir.size / 46 + 1

theorem mul_le_size (h : ∀ k < count, IsAcceptable dir (recordPlace dir k)) : 46 * count ≤ dir.size := by
  cases count with
  | zero => exact Nat.zero_le _
  | succ n =>
      have hheld := (h n (Nat.lt_succ_self n)).held
      have hlength : recordLength * (n + 1) ≤ recordPlace dir (n + 1) := mul_le_recordPlace dir (n + 1)
      rw [recordPlace, placeFrom_succ] at hlength
      exact Nat.le_trans hlength hheld

/-- Directories are read record by record, up to the first that cannot be accepted. -/
theorem reads_records (dir : ByteArray) (count : Nat) : ReadsRecords dir count := by
  have hreads := reads_parseRecordsNoting dir count 0 0
  have hresult : (parseRecordsNoting dir count 0 0).1 = parseDirectory dir count :=
    parseRecordsNoting_fst count 0 0
  have hplaces : recordPlace dir 0 = 0 ∧ ∀ k, recordPlace dir (k + 1) =
      recordPlace dir k + (46 + numberAt dir (recordPlace dir k + 28) 2 +
        numberAt dir (recordPlace dir k + 30) 2 + numberAt dir (recordPlace dir k + 32) 2) :=
    ⟨rfl, placeFrom_succ dir 0⟩
  generalize hnoting : parseRecordsNoting dir count 0 0 = result at hreads hresult
  cases hreads with
  | @all entries hlength hparse =>
      have hacceptable : ∀ k < count, IsAcceptable dir (recordPlace dir k) := fun k hk =>
        (next_of_parse (hparse k (by omega))).1
      have hle := mul_le_size hacceptable
      refine ⟨hplaces, ofReader_of_directoryOf, iff_of_true ⟨entries, hresult.symm⟩ hacceptable,
        fun entries' h => ?_, fun cause h => ?_, ?_, count, ?_, Nat.le_refl _, by omega⟩
      · obtain rfl : entries = entries' := Except.ok.inj (hresult.trans h)
        exact ⟨hlength, hle, hparse, ignoresRest_iff h⟩
      · cases hresult.trans h
      · rw [hnoting]
        exact hresult
      · rw [hnoting]
        rfl
  | @upTo k fault hk hbefore hparse =>
      have hnot : ¬ IsAcceptable dir (recordPlace dir k) := not_isAcceptable_iff.2 ⟨fault, hparse⟩
      have hle := mul_le_size hbefore
      refine ⟨hplaces, ofReader_of_directoryOf, iff_of_false ?_ fun hall => hnot (hall k hk),
        fun entries h => ?_, fun cause h => ?_, ?_, k + 1, ?_, hk, by omega⟩
      · rintro ⟨entries, h⟩
        cases hresult.trans h
      · cases hresult.trans h
      · rw [Nat.zero_add] at hresult
        exact ⟨k, fault, Except.error.inj (h.symm.trans hresult.symm), hk, hnot, hbefore, hparse⟩
      · rw [hnoting]
        exact hresult
      · rw [hnoting]
        rfl

/-- A record without a comment; its only extra field says that it has eight bytes, of which the extra field has
none. -/
def bareRecord : ByteArray :=
  pack [(4, recordSignature), (2, 20), (2, 20), (2, 0), (2, 0), (2, 0), (2, 0), (4, 0), (4, 0), (4, 0xFFFFFFFF),
    (2, 1), (2, 4), (2, 0), (2, 0), (2, 0), (4, 0), (4, 0), (1, 0x61), (2, Bounds.wideId), (2, 8)]

/-- The number stands after the last record. -/
def followed (n : Nat) : ByteArray := bareRecord ++ pack [(8, n)]

theorem not_ignoresRest :
    ¬ ∀ (dir : ByteArray) (count : Nat) (entries : List Entry), parseDirectory dir count = .ok entries →
      IgnoresRest dir count := by
  intro hall
  have hone : Entry.parse (followed 1) 0 = .ok (ofRecord (followed 1) 0 ⟨1, 0, 0⟩, _) :=
    parse_of_wide (by decide +kernel) (by decide +kernel) (by decide +kernel) (by decide +kernel)
      (by decide +kernel) (by decide +kernel)
  have htwo : Entry.parse (followed 2) 0 = .ok (ofRecord (followed 2) 0 ⟨2, 0, 0⟩, _) :=
    parse_of_wide (by decide +kernel) (by decide +kernel) (by decide +kernel) (by decide +kernel)
      (by decide +kernel) (by decide +kernel)
  have hdirOne : parseDirectory (followed 1) 1 = .ok [ofRecord (followed 1) 0 ⟨1, 0, 0⟩] := by
    rw [parseDirectory, parseRecords, hone]
    rfl
  have hdirTwo : parseDirectory (followed 2) 1 = .ok [ofRecord (followed 2) 0 ⟨2, 0, 0⟩] := by
    rw [parseDirectory, parseRecords, htwo]
    rfl
  have hplace : recordPlace (followed 1) 1 = 51 := by decide +kernel
  have hle : 0 + 51 ≤ bareRecord.size := by decide +kernel
  have hsame := hall _ _ _ hdirOne (followed 2) (by decide +kernel)
    (by rw [hplace, followed, followed, slice_append_left _ hle, slice_append_left _ hle])
  rw [hdirOne, hdirTwo] at hsame
  have huncompressed : (2 : UInt64) = 1 :=
    congrArg uncompressedSize (List.cons.inj (Except.ok.inj hsame)).1
  exact absurd huncompressed (by decide)

end Directory

end DexArchive.Zip
