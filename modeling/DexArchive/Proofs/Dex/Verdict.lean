import Mathlib.Tactic.IntervalCases
import DexArchive.Proofs.Dex.Header

/-! What each verdict on a byte string says of it. A magic number is text: the name of the format and a line feed, the
version in three decimal digits, and a zero byte. Reading the digits inverts writing them, so a byte string has at most
one version. Each verdict is given by its length, its magic number and its endian tag, in this order: what comes first
settles it. -/

namespace DexArchive

namespace Text

/-- The last digit of a number comes off the end. -/
theorem toList_decimal_succ {width : Nat} (hwidth : 0 < width) (n : Nat) :
    (decimal (width + 1) n).toList = (decimal width (n / 10)).toList ++ [Nat.digitChar (n % 10)] := by
  simp only [decimal, numeral, String.toList_ofList]
  by_cases hn : n < 10
  · have hlast : n % 10 = n := Nat.mod_eq_of_lt hn
    have hzero : n / 10 = 0 := Nat.div_eq_of_lt hn
    have hpad : List.replicate (width - 1) '0' ++ ['0'] = List.replicate width '0' := by
      rw [← List.replicate_succ', Nat.sub_add_cancel hwidth]
    rw [hzero, hlast, Nat.toDigits_of_lt_base hn, Nat.toDigits_zero]
    simp only [List.length_singleton, Nat.add_sub_cancel, hpad]
  · have hdigits := Nat.toDigits_of_base_le (b := 10) (by decide) (Nat.le_of_not_lt hn)
    rw [hdigits, List.length_append, List.length_singleton, Nat.add_sub_add_right, List.append_assoc]

theorem toList_decimal_three {n : Nat} (h : n < 1000) :
    (decimal 3 n).toList = [Nat.digitChar (n / 100), Nat.digitChar (n / 10 % 10), Nat.digitChar (n % 10)] := by
  have hfirst : (decimal 1 (n / 100)).toList = [Nat.digitChar (n / 100)] := by
    rw [decimal, numeral, String.toList_ofList, Nat.toDigits_of_lt_base (by omega)]
    rfl
  rw [toList_decimal_succ (by decide), toList_decimal_succ (by decide), Nat.div_div_eq_div_mul, hfirst]
  rfl

end Text

namespace Dex

/-! ### Digits -/

/-- The byte of a digit. -/
def digit (n : Nat) : UInt8 := .ofNat (0x30 + n)

theorem isDigit_iff {x : UInt8} : isDigit x = true ↔ ∃ n < 10, x = digit n := by
  simp only [isDigit, Bool.and_eq_true, decide_eq_true_eq, UInt8.le_iff_toNat_le]
  constructor
  · rintro ⟨hlow, hhigh⟩
    change 0x30 ≤ x.toNat at hlow
    change x.toNat ≤ 0x39 at hhigh
    refine ⟨x.toNat - 0x30, by omega, ?_⟩
    rw [digit, Nat.add_sub_cancel' hlow, UInt8.ofNat_toNat]
  · rintro ⟨n, hn, rfl⟩
    have hdigit : (digit n).toNat = 0x30 + n := UInt8.toNat_ofNat_of_lt' (show 0x30 + n < 256 by omega)
    rw [hdigit]
    exact ⟨Nat.le_add_right _ _, Nat.add_le_add_left (Nat.le_of_lt_succ hn) 0x30⟩

theorem utf8EncodeChar_digitChar {n : Nat} (h : n < 10) :
    String.utf8EncodeChar (Nat.digitChar n) = [digit n] := by
  interval_cases n <;> rfl

theorem value_digit {n : Nat} (h : n < 10) : (digit n - 0x30).toUInt32 = .ofNat n := by
  interval_cases n <;> rfl

/-- Reading three digits inverts writing them. -/
theorem toNat_digitsValue {a b c : Nat} (ha : a < 10) (hb : b < 10) (hc : c < 10) :
    (digitsValue [digit a, digit b, digit c]).toNat = 100 * a + 10 * b + c := by
  simp only [digitsValue, List.foldl_cons, List.foldl_nil, value_digit ha, value_digit hb, value_digit hc,
    UInt32.toNat_add, UInt32.toNat_mul, UInt32.toNat_ofNat', UInt32.toNat_ofNat, Nat.reducePow, Nat.reduceMod]
  omega

/-! ### Magic numbers -/

/-- The magic number of a version. -/
def magic (version : UInt32) : ByteArray := ("dex\n" ++ Text.decimal 3 version.toNat ++ "\x00").toUTF8

/-- The name of the format and a line feed, three digits, and a zero byte. -/
def magicOfDigits (x y z : UInt8) : ByteArray := [0x64, 0x65, 0x78, 0x0A, x, y, z, 0].toByteArray

/-- The magic number of some version. -/
def IsMagic (m : ByteArray) : Prop :=
  ∃ x y z, isDigit x ∧ isDigit y ∧ isDigit z ∧ m = magicOfDigits x y z

theorem magic_eq {version : UInt32} (h : version.toNat < 1000) :
    magic version = magicOfDigits (digit (version.toNat / 100)) (digit (version.toNat / 10 % 10))
      (digit (version.toNat % 10)) := by
  have hdigits := Text.toList_decimal_three h
  have hname : "dex\n".toList = ['d', 'e', 'x', '\n'] := rfl
  have hzero : "\x00".toList = ['\x00'] := rfl
  rw [magic, String.toUTF8_eq_toByteArray, ← String.utf8Encode_toList, String.toList_append, String.toList_append,
    hdigits, hname, hzero]
  simp only [List.utf8Encode, List.cons_append, List.nil_append, List.flatMap_cons, List.flatMap_nil,
    utf8EncodeChar_digitChar (show version.toNat / 100 < 10 by omega),
    utf8EncodeChar_digitChar (show version.toNat / 10 % 10 < 10 by omega),
    utf8EncodeChar_digitChar (show version.toNat % 10 < 10 by omega)]
  rfl

/-- A magic number is that of the version in its digits. -/
theorem magicOfDigits_eq {x y z : UInt8} (hx : isDigit x) (hy : isDigit y) (hz : isDigit z) :
    (digitsValue [x, y, z]).toNat < 1000 ∧ magicOfDigits x y z = magic (digitsValue [x, y, z]) := by
  obtain ⟨a, ha, rfl⟩ := isDigit_iff.1 hx
  obtain ⟨b, hb, rfl⟩ := isDigit_iff.1 hy
  obtain ⟨c, hc, rfl⟩ := isDigit_iff.1 hz
  have hvalue := toNat_digitsValue ha hb hc
  have hlt : (digitsValue [digit a, digit b, digit c]).toNat < 1000 := by omega
  refine ⟨hlt, ?_⟩
  rw [magic_eq hlt, hvalue, show (100 * a + 10 * b + c) / 100 = a by omega,
    show (100 * a + 10 * b + c) / 10 % 10 = b by omega, show (100 * a + 10 * b + c) % 10 = c by omega]

section Magic

variable {b : ByteArray} {version version' : UInt32}

theorem slice_eq_magicOfDigits_iff {x y z : UInt8} : slice b 0 8 = magicOfDigits x y z ↔
    8 ≤ b.size ∧ numberAt b 0 4 = 0x0A786564 ∧ byteAt b 4 = x ∧ byteAt b 5 = y ∧ byteAt b 6 = z ∧
      byteAt b 7 = 0 := by
  have hsize : (magicOfDigits x y z).size = 8 := rfl
  have hname : numberAt (magicOfDigits x y z) 0 4 = 0x0A786564 := by
    simp [numberAt, magicOfDigits, byteAt_toByteArray]
  constructor
  · intro h
    have hlength := congrArg ByteArray.size h
    rw [size_slice, hsize] at hlength
    have hbyte : ∀ i, i < 8 → byteAt b i = byteAt (magicOfDigits x y z) i := by
      intro i hi
      rw [← h, byteAt_start hi]
    have hnumber : numberAt (slice b 0 8) 0 4 = numberAt b 0 4 := numberAt_slice b (by decide)
    rw [h, hname] at hnumber
    exact ⟨by omega, hnumber.symm, hbyte 4 (by decide), hbyte 5 (by decide), hbyte 6 (by decide),
      hbyte 7 (by decide)⟩
  · rintro ⟨hle, hnumber, rfl, rfl, rfl, hzero⟩
    apply ext_byteAt
    · rw [size_slice, hsize]
      omega
    · intro i hi
      rw [size_slice] at hi
      rw [byteAt_start (by omega)]
      by_cases hi4 : i < 4
      · have hbyte := byteAt_eq_of_numberAt_eq (hnumber.trans hname.symm) hi4
        rwa [Nat.zero_add] at hbyte
      · obtain rfl | rfl | rfl | rfl : i = 4 ∨ i = 5 ∨ i = 6 ∨ i = 7 := by omega
        · rfl
        · rfl
        · rfl
        · exact hzero

/-- The byte string begins with the magic number of the version, which has three digits. -/
structure HasMagic (b : ByteArray) (version : UInt32) : Prop where
  lt : version.toNat < 1000
  slice_eq : slice b 0 8 = magic version

theorem isMagic_iff : IsMagic (slice b 0 8) ↔ ∃ version, HasMagic b version := by
  constructor
  · rintro ⟨x, y, z, hx, hy, hz, h⟩
    obtain ⟨hlt, hmagic⟩ := magicOfDigits_eq hx hy hz
    exact ⟨_, hlt, h.trans hmagic⟩
  · rintro ⟨version, hlt, h⟩
    refine ⟨_, _, _, isDigit_iff.2 ⟨_, by omega, rfl⟩, isDigit_iff.2 ⟨_, by omega, rfl⟩,
      isDigit_iff.2 ⟨_, by omega, rfl⟩, h.trans (magic_eq hlt)⟩

theorem magicVersion?_of_hasMagic (h : HasMagic b version) : magicVersion? b = some version := by
  have hlt := h.lt
  have hslice := h.slice_eq
  rw [magic_eq hlt, slice_eq_magicOfDigits_iff] at hslice
  obtain ⟨hle, hnumber, hfirst, hsecond, hthird, hzero⟩ := hslice
  have hdigit : ∀ n, n < 10 → isDigit (digit n) = true := fun n hn => isDigit_iff.2 ⟨n, hn, rfl⟩
  have hvalue : digitsValue [digit (version.toNat / 100), digit (version.toNat / 10 % 10),
      digit (version.toNat % 10)] = version := by
    apply UInt32.toNat_inj.1
    rw [toNat_digitsValue (by omega) (by omega) (by omega)]
    omega
  simp only [magicVersion?]
  rw [if_neg (Nat.not_lt.2 hle), if_neg (fun h => h.elim (· hnumber) (· hzero)), hfirst, hsecond, hthird, hvalue,
    if_pos]
  simp only [List.all_cons, List.all_nil, hdigit _ (show version.toNat / 100 < 10 by omega),
    hdigit _ (show version.toNat / 10 % 10 < 10 by omega), hdigit _ (show version.toNat % 10 < 10 by omega),
    Bool.and_self]

theorem hasMagic_of_magicVersion? (h : magicVersion? b = some version) : HasMagic b version := by
  simp only [magicVersion?] at h
  split at h
  · cases h
  · rename_i hle
    split at h
    · cases h
    · rename_i hname
      split at h
      · rename_i hdigits
        simp only [List.all_cons, List.all_nil, Bool.and_true, Bool.and_eq_true] at hdigits
        obtain ⟨hx, hy, hz⟩ := hdigits
        obtain ⟨hlt, hmagic⟩ := magicOfDigits_eq hx hy hz
        cases h
        refine ⟨hlt, Eq.trans (slice_eq_magicOfDigits_iff.2 ?_) hmagic⟩
        push Not at hname
        exact ⟨by omega, hname.1, rfl, rfl, rfl, hname.2⟩
      · cases h

theorem magicVersion?_eq_some_iff : magicVersion? b = some version ↔ HasMagic b version :=
  ⟨hasMagic_of_magicVersion?, magicVersion?_of_hasMagic⟩

theorem magicVersion?_eq_none_iff : magicVersion? b = none ↔ ¬ IsMagic (slice b 0 8) := by
  rw [isMagic_iff, Option.eq_none_iff_forall_ne_some, not_exists]
  exact forall_congr' fun version => not_congr magicVersion?_eq_some_iff

/-- A byte string has at most one version. -/
theorem HasMagic.unique (h : HasMagic b version) (h' : HasMagic b version') : version = version' :=
  Option.some.inj ((magicVersion?_of_hasMagic h).symm.trans (magicVersion?_of_hasMagic h'))

end Magic

/-! ### Verdicts -/

/-- The endian tag of a dex file that is written lowest byte first. -/
def littleEndianBytes : ByteArray := [0x78, 0x56, 0x34, 0x12].toByteArray

/-- The endian tag of one that is written highest byte first. -/
def bigEndianBytes : ByteArray := [0x12, 0x34, 0x56, 0x78].toByteArray

section Tag

variable {b : ByteArray} (h : sniffLength ≤ b.size)

include h

theorem u32At_eq_littleEndianTag_iff : u32At b 40 = littleEndianTag ↔ slice b 40 4 = littleEndianBytes :=
  u32At_eq_iff.trans (slice_eq_numberBytes_iff h (by decide)).symm

theorem u32At_eq_bigEndianTag_iff : u32At b 40 = bigEndianTag ↔ slice b 40 4 = bigEndianBytes :=
  u32At_eq_iff.trans (slice_eq_numberBytes_iff h (by decide)).symm

end Tag

theorem isSupported_iff {version : UInt32} : isSupported version = true ↔ version ∈ supportedVersions :=
  List.contains_iff_mem

theorem isSupported_eq_false_iff {version : UInt32} : isSupported version = false ↔ version ∉ supportedVersions := by
  rw [← isSupported_iff, Bool.not_eq_true]

/-- The ways that a verdict comes about. -/
inductive Judges (b : ByteArray) : Except HeaderError UInt32 → Prop
  | tooShort (hlt : b.size < sniffLength) : Judges b (.error .tooShort)
  | badMagic (hle : sniffLength ≤ b.size) (hmagic : ¬ IsMagic (slice b 0 8)) :
    Judges b (.error (.badMagic ((List.range 8).map (byteAt b))))
  | unsupportedVersion {version : UInt32} (hle : sniffLength ≤ b.size) (hmagic : HasMagic b version)
    (hversion : version ∉ supportedVersions) : Judges b (.error (.unsupportedVersion version))
  | bigEndian {version : UInt32} (hle : sniffLength ≤ b.size) (hmagic : HasMagic b version)
    (hversion : version ∈ supportedVersions) (htag : slice b 40 4 = bigEndianBytes) : Judges b (.error .bigEndian)
  | badEndianTag {version : UInt32} (hle : sniffLength ≤ b.size) (hmagic : HasMagic b version)
    (hversion : version ∈ supportedVersions) (hlittle : slice b 40 4 ≠ littleEndianBytes)
    (hbig : slice b 40 4 ≠ bigEndianBytes) : Judges b (.error (.badEndianTag (u32At b 40)))
  | good {version : UInt32} (hle : sniffLength ≤ b.size) (hmagic : HasMagic b version)
    (hversion : version ∈ supportedVersions) (htag : slice b 40 4 = littleEndianBytes) : Judges b (.ok version)

theorem verify_of_hasMagic {b : ByteArray} {version : UInt32} (hle : sniffLength ≤ b.size)
    (hmagic : HasMagic b version) :
    verify b = if isSupported version = false then .error (.unsupportedVersion version)
      else if u32At b 40 = littleEndianTag then .ok version
      else if u32At b 40 = bigEndianTag then .error .bigEndian
      else .error (.badEndianTag (u32At b 40)) := by
  rw [verify, if_neg (Nat.not_lt.2 hle), magicVersion?_of_hasMagic hmagic]
  simp only [Bool.not_eq_true']

theorem judges_verify (b : ByteArray) : Judges b (verify b) := by
  by_cases hlt : b.size < sniffLength
  · rw [verify_of_size_lt hlt]
    exact .tooShort hlt
  · have hle := Nat.le_of_not_lt hlt
    cases hmagic : magicVersion? b with
    | none =>
        rw [verify, if_neg hlt, hmagic]
        exact .badMagic hle (magicVersion?_eq_none_iff.1 hmagic)
    | some version =>
        have hmagic := hasMagic_of_magicVersion? hmagic
        rw [verify_of_hasMagic hle hmagic]
        split
        · rename_i hversion
          exact .unsupportedVersion hle hmagic (isSupported_eq_false_iff.1 hversion)
        · rename_i hversion
          have hversion := isSupported_iff.1 (Bool.eq_true_of_not_eq_false hversion)
          split
          · rename_i hlittle
            exact .good hle hmagic hversion ((u32At_eq_littleEndianTag_iff hle).1 hlittle)
          · rename_i hlittle
            split
            · rename_i hbig
              exact .bigEndian hle hmagic hversion ((u32At_eq_bigEndianTag_iff hle).1 hbig)
            · rename_i hbig
              exact .badEndianTag hle hmagic hversion (mt (u32At_eq_littleEndianTag_iff hle).2 hlittle)
                (mt (u32At_eq_bigEndianTag_iff hle).2 hbig)

/-- A verdict is given in one way only. -/
theorem verify_eq_iff {b : ByteArray} {verdict : Except HeaderError UInt32} :
    verify b = verdict ↔ Judges b verdict := by
  constructor
  · rintro rfl
    exact judges_verify b
  · intro h
    cases h with
    | tooShort hlt => exact verify_of_size_lt hlt
    | badMagic hle hmagic => rw [verify, if_neg (Nat.not_lt.2 hle), magicVersion?_eq_none_iff.2 hmagic]
    | unsupportedVersion hle hmagic hversion =>
        rw [verify_of_hasMagic hle hmagic, if_pos (isSupported_eq_false_iff.2 hversion)]
    | bigEndian hle hmagic hversion htag =>
        have hbig := (u32At_eq_bigEndianTag_iff hle).2 htag
        rw [verify_of_hasMagic hle hmagic, if_neg (mt isSupported_eq_false_iff.1 (not_not_intro hversion)), hbig,
          if_neg (by decide), if_pos rfl]
    | badEndianTag hle hmagic hversion hlittle hbig =>
        rw [verify_of_hasMagic hle hmagic, if_neg (mt isSupported_eq_false_iff.1 (not_not_intro hversion)),
          if_neg (mt (u32At_eq_littleEndianTag_iff hle).1 hlittle), if_neg (mt (u32At_eq_bigEndianTag_iff hle).1 hbig)]
    | good hle hmagic hversion htag =>
        rw [verify_of_hasMagic hle hmagic, if_neg (mt isSupported_eq_false_iff.1 (not_not_intro hversion)),
          if_pos ((u32At_eq_littleEndianTag_iff hle).2 htag)]

/-! ### Classes of byte strings -/

/-- The byte string is turned away with the given answer. -/
def IsRejected (b : ByteArray) (answer : Rejection) : Prop := ∃ e, verify b = .error e ∧ e.rejection = answer

/-- What each verdict on `b` says of it. Too short a string is no dex file, whatever its magic number and where its tag
would be. -/
structure IsClassified (b : ByteArray) : Prop where
  ok_iff : ∀ version, verify b = .ok version ↔
    sniffLength ≤ b.size ∧ slice b 0 8 = magic version ∧ version ∈ supportedVersions ∧
      slice b 40 4 = littleEndianBytes
  notDex_iff : IsRejected b .notDex ↔ b.size < sniffLength ∨ ¬ IsMagic (slice b 0 8)
  unsupported_iff : IsRejected b .unsupported ↔
    sniffLength ≤ b.size ∧ IsMagic (slice b 0 8) ∧
      ((∃ version, HasMagic b version ∧ version ∉ supportedVersions) ∨ slice b 40 4 = bigEndianBytes)
  invalid_iff : IsRejected b .invalid ↔
    sniffLength ≤ b.size ∧ (∃ version, HasMagic b version ∧ version ∈ supportedVersions) ∧
      slice b 40 4 ≠ littleEndianBytes ∧ slice b 40 4 ≠ bigEndianBytes
  append_eq : sniffLength ≤ b.size → ∀ rest, verify (b ++ rest) = verify b

section Classes

variable {b : ByteArray} {version : UInt32}

/-- Every version that can be read has three digits. -/
theorem lt_of_mem_supportedVersions (h : version ∈ supportedVersions) : version.toNat < 1000 := by
  simp only [supportedVersions, List.mem_cons, List.not_mem_nil, or_false] at h
  rcases h with rfl | rfl | rfl | rfl <;> decide

theorem verify_eq_ok_iff : verify b = .ok version ↔
    sniffLength ≤ b.size ∧ slice b 0 8 = magic version ∧ version ∈ supportedVersions ∧
      slice b 40 4 = littleEndianBytes := by
  rw [verify_eq_iff]
  constructor
  · intro h
    cases h with
    | good hle hmagic hversion htag => exact ⟨hle, hmagic.slice_eq, hversion, htag⟩
  · rintro ⟨hle, hmagic, hversion, htag⟩
    exact .good hle ⟨lt_of_mem_supportedVersions hversion, hmagic⟩ hversion htag

theorem isRejected_iff {answer : Rejection} :
    IsRejected b answer ↔ ∃ e, Judges b (.error e) ∧ e.rejection = answer :=
  exists_congr fun _ => and_congr_left fun _ => verify_eq_iff

theorem isRejected_notDex_iff : IsRejected b .notDex ↔ b.size < sniffLength ∨ ¬ IsMagic (slice b 0 8) := by
  rw [isRejected_iff]
  constructor
  · rintro ⟨e, h, hanswer⟩
    cases h with
    | tooShort hlt => exact .inl hlt
    | badMagic hle hmagic => exact .inr hmagic
    | unsupportedVersion => cases hanswer
    | bigEndian => cases hanswer
    | badEndianTag => cases hanswer
  · intro h
    by_cases hlt : b.size < sniffLength
    · exact ⟨_, .tooShort hlt, rfl⟩
    · exact ⟨_, .badMagic (Nat.le_of_not_lt hlt) (h.resolve_left hlt), rfl⟩

theorem isRejected_unsupported_iff : IsRejected b .unsupported ↔
    sniffLength ≤ b.size ∧ IsMagic (slice b 0 8) ∧
      ((∃ version, HasMagic b version ∧ version ∉ supportedVersions) ∨ slice b 40 4 = bigEndianBytes) := by
  rw [isRejected_iff]
  constructor
  · rintro ⟨e, h, hanswer⟩
    cases h with
    | tooShort => cases hanswer
    | badMagic => cases hanswer
    | unsupportedVersion hle hmagic hversion =>
        exact ⟨hle, isMagic_iff.2 ⟨_, hmagic⟩, .inl ⟨_, hmagic, hversion⟩⟩
    | bigEndian hle hmagic hversion htag => exact ⟨hle, isMagic_iff.2 ⟨_, hmagic⟩, .inr htag⟩
    | badEndianTag => cases hanswer
  · rintro ⟨hle, hmagic, h⟩
    obtain ⟨version, hmagic⟩ := isMagic_iff.1 hmagic
    by_cases hversion : version ∈ supportedVersions
    · have htag : slice b 40 4 = bigEndianBytes := by
        refine h.resolve_left ?_
        rintro ⟨version', hmagic', hversion'⟩
        rw [hmagic'.unique hmagic] at hversion'
        exact hversion' hversion
      exact ⟨_, .bigEndian hle hmagic hversion htag, rfl⟩
    · exact ⟨_, .unsupportedVersion hle hmagic hversion, rfl⟩

theorem isRejected_invalid_iff : IsRejected b .invalid ↔
    sniffLength ≤ b.size ∧ (∃ version, HasMagic b version ∧ version ∈ supportedVersions) ∧
      slice b 40 4 ≠ littleEndianBytes ∧ slice b 40 4 ≠ bigEndianBytes := by
  rw [isRejected_iff]
  constructor
  · rintro ⟨e, h, hanswer⟩
    cases h with
    | tooShort => cases hanswer
    | badMagic => cases hanswer
    | unsupportedVersion => cases hanswer
    | bigEndian => cases hanswer
    | badEndianTag hle hmagic hversion hlittle hbig => exact ⟨hle, ⟨_, hmagic, hversion⟩, hlittle, hbig⟩
  · rintro ⟨hle, ⟨version, hmagic, hversion⟩, hlittle, hbig⟩
    exact ⟨_, .badEndianTag hle hmagic hversion hlittle hbig, rfl⟩

theorem verify_append (h : sniffLength ≤ b.size) (rest : ByteArray) : verify (b ++ rest) = verify b := by
  have hle : sniffLength ≤ (b ++ rest).size := by
    rw [ByteArray.size_append]
    omega
  rw [← verify_start hle, slice_append_left rest (by omega), verify_start h]

end Classes

/-- Every byte string falls into one class, by its first bytes. -/
theorem isClassified (b : ByteArray) : IsClassified b where
  ok_iff _ := verify_eq_ok_iff
  notDex_iff := isRejected_notDex_iff
  unsupported_iff := isRejected_unsupported_iff
  invalid_iff := isRejected_invalid_iff
  append_eq := verify_append

end Dex
end DexArchive
