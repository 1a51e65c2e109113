import DexArchive.Text.Utf8

/-! Reading UTF-8 that is not broken gives back the text that was written. -/

namespace DexArchive.Text

theorem decodeUtf8_cons {b : UInt8} {rest rest' : List UInt8} {lead : Lead} {n : Nat}
    (hlead : Lead.ofByte? b = some lead)
    (hrest : continuation lead.more lead.low lead.high lead.bits rest = (some n, rest')) :
    decodeUtf8 (b :: rest) = Char.ofNat n :: decodeUtf8 rest' := by
  rw [decodeUtf8, hlead]
  simp only [hrest, Option.map_some, Option.getD_some]

theorem toNat_ofNat {n : Nat} (h : n < 256) : (UInt8.ofNat n).toNat = n := by
  rw [UInt8.toNat_ofNat']
  exact Nat.mod_eq_of_lt h

theorem continuation_cons {more bits n : Nat} {low high : UInt8} (rest : List UInt8) (hn : n < 256)
    (hlow : low.toNat ≤ n) (hhigh : n ≤ high.toNat) :
    continuation (more + 1) low high bits (UInt8.ofNat n :: rest) =
      continuation more 0x80 0xBF (64 * bits + n % 64) rest := by
  have hbounds : low ≤ UInt8.ofNat n ∧ UInt8.ofNat n ≤ high := by
    rw [UInt8.le_iff_toNat_le, UInt8.le_iff_toNat_le, toNat_ofNat hn]
    exact ⟨hlow, hhigh⟩
  rw [continuation, if_pos hbounds, toNat_ofNat hn]

theorem continuation_one {bits x : Nat} (rest : List UInt8) (hx : 0x80 ≤ x ∧ x ≤ 0xBF) :
    continuation 1 0x80 0xBF bits (.ofNat x :: rest) = (some (64 * bits + x % 64), rest) := by
  rw [continuation_cons _ (by omega) hx.1 hx.2, continuation]

theorem continuation_two {bits x y : Nat} {low high : UInt8} (rest : List UInt8)
    (hlow : low.toNat ≤ x) (hhigh : x ≤ high.toNat) (hx : x < 256) (hy : 0x80 ≤ y ∧ y ≤ 0xBF) :
    continuation 2 low high bits (.ofNat x :: .ofNat y :: rest) =
      (some (64 * (64 * bits + x % 64) + y % 64), rest) := by
  rw [continuation_cons _ hx hlow hhigh, continuation_one _ hy]

theorem continuation_three {bits x y z : Nat} {low high : UInt8} (rest : List UInt8)
    (hlow : low.toNat ≤ x) (hhigh : x ≤ high.toNat) (hx : x < 256) (hy : 0x80 ≤ y ∧ y ≤ 0xBF)
    (hz : 0x80 ≤ z ∧ z ≤ 0xBF) :
    continuation 3 low high bits (.ofNat x :: .ofNat y :: .ofNat z :: rest) =
      (some (64 * (64 * (64 * bits + x % 64) + y % 64) + z % 64), rest) := by
  rw [continuation_cons _ hx hlow hhigh, continuation_cons _ (by omega) hy.1 hy.2, continuation_one _ hz]

theorem ofByte?_ofNat {n : Nat} (h : n < 256) :
    Lead.ofByte? (.ofNat n) =
      if n < 0x80 then some ⟨0, 0x80, 0xBF, n⟩
      else if n < 0xC2 then none
      else if n < 0xE0 then some ⟨1, 0x80, 0xBF, n - 0xC0⟩
      else if n = 0xE0 then some ⟨2, 0xA0, 0xBF, 0⟩
      else if n = 0xED then some ⟨2, 0x80, 0x9F, 0xD⟩
      else if n < 0xF0 then some ⟨2, 0x80, 0xBF, n - 0xE0⟩
      else if n = 0xF0 then some ⟨3, 0x90, 0xBF, 0⟩
      else if n < 0xF4 then some ⟨3, 0x80, 0xBF, n - 0xF0⟩
      else if n = 0xF4 then some ⟨3, 0x80, 0x8F, 4⟩
      else none := by
  simp only [Lead.ofByte?, UInt8.lt_iff_toNat_lt, ← UInt8.toNat_inj, toNat_ofNat h]
  rfl

/-! ### Characters by the number of their bytes -/

section Characters

variable {v : Nat} (rest : List UInt8)

theorem decodeUtf8_one (h : v ≤ 0x7f) :
    decodeUtf8 (.ofNat v :: rest) = Char.ofNat v :: decodeUtf8 rest := by
  have hlead : Lead.ofByte? (.ofNat v) = some ⟨0, 0x80, 0xBF, v⟩ := by
    rw [ofByte?_ofNat (by omega), if_pos (by omega)]
  exact decodeUtf8_cons hlead rfl

theorem decodeUtf8_two (h : 0x7f < v) (h' : v ≤ 0x7ff) :
    decodeUtf8 (.ofNat (v / 64 % 0x20 + 0xc0) :: .ofNat (v % 0x40 + 0x80) :: rest) =
      Char.ofNat v :: decodeUtf8 rest := by
  have hlead : Lead.ofByte? (.ofNat (v / 64 % 0x20 + 0xc0)) = some ⟨1, 0x80, 0xBF, v / 64⟩ := by
    rw [ofByte?_ofNat (by omega), if_neg (by omega), if_neg (by omega), if_pos (by omega),
      show v / 64 % 0x20 + 0xc0 - 0xC0 = v / 64 by omega]
  apply decodeUtf8_cons hlead
  rw [continuation_one rest (by omega), show 64 * (v / 64) + (v % 0x40 + 0x80) % 64 = v by omega]

/-- The bounds on the second byte are those of the characters that begin with the first one. -/
theorem decodeUtf8_three (h : 0x7ff < v) (h' : v ≤ 0xffff) (hvalid : v < 0xd800 ∨ 0xdfff < v) :
    decodeUtf8 (.ofNat (v / 4096 % 0x10 + 0xe0) :: .ofNat (v / 64 % 0x40 + 0x80) ::
      .ofNat (v % 0x40 + 0x80) :: rest) = Char.ofNat v :: decodeUtf8 rest := by
  have hbits : 64 * (64 * (v / 4096) + (v / 64 % 0x40 + 0x80) % 64) + (v % 0x40 + 0x80) % 64 = v := by omega
  have hlast : 0x80 ≤ v % 0x40 + 0x80 ∧ v % 0x40 + 0x80 ≤ 0xBF := by omega
  by_cases hlow : v < 0x1000
  · have hlead : Lead.ofByte? (.ofNat (v / 4096 % 0x10 + 0xe0)) = some ⟨2, 0xA0, 0xBF, v / 4096⟩ := by
      rw [ofByte?_ofNat (by omega), if_neg (by omega), if_neg (by omega), if_neg (by omega),
        if_pos (by omega), show v / 4096 = 0 by omega]
    apply decodeUtf8_cons hlead
    rw [continuation_two rest (show 0xA0 ≤ _ by omega) (show _ ≤ 0xBF by omega) (by omega) hlast, hbits]
  · by_cases hhigh : 0xd000 ≤ v ∧ v < 0xd800
    · have hlead : Lead.ofByte? (.ofNat (v / 4096 % 0x10 + 0xe0)) = some ⟨2, 0x80, 0x9F, v / 4096⟩ := by
        rw [ofByte?_ofNat (by omega), if_neg (by omega), if_neg (by omega), if_neg (by omega),
          if_neg (by omega), if_pos (by omega), show v / 4096 = 0xD by omega]
      apply decodeUtf8_cons hlead
      rw [continuation_two rest (show 0x80 ≤ _ by omega) (show _ ≤ 0x9F by omega) (by omega) hlast, hbits]
    · have hlead : Lead.ofByte? (.ofNat (v / 4096 % 0x10 + 0xe0)) = some ⟨2, 0x80, 0xBF, v / 4096⟩ := by
        rw [ofByte?_ofNat (by omega), if_neg (by omega), if_neg (by omega), if_neg (by omega),
          if_neg (by omega), if_neg (by omega), if_pos (by omega),
          show v / 4096 % 0x10 + 0xe0 - 0xE0 = v / 4096 by omega]
      apply decodeUtf8_cons hlead
      rw [continuation_two rest (show 0x80 ≤ _ by omega) (show _ ≤ 0xBF by omega) (by omega) hlast, hbits]

theorem decodeUtf8_four (h : 0xffff < v) (h' : v < 0x110000) :
    decodeUtf8 (.ofNat (v / 262144 % 0x08 + 0xf0) :: .ofNat (v / 4096 % 0x40 + 0x80) ::
      .ofNat (v / 64 % 0x40 + 0x80) :: .ofNat (v % 0x40 + 0x80) :: rest) =
        Char.ofNat v :: decodeUtf8 rest := by
  have hbits : 64 * (64 * (64 * (v / 262144) + (v / 4096 % 0x40 + 0x80) % 64) +
      (v / 64 % 0x40 + 0x80) % 64) + (v % 0x40 + 0x80) % 64 = v := by omega
  have hthird : 0x80 ≤ v / 64 % 0x40 + 0x80 ∧ v / 64 % 0x40 + 0x80 ≤ 0xBF := by omega
  have hlast : 0x80 ≤ v % 0x40 + 0x80 ∧ v % 0x40 + 0x80 ≤ 0xBF := by omega
  by_cases hlow : v < 0x40000
  · have hlead : Lead.ofByte? (.ofNat (v / 262144 % 0x08 + 0xf0)) = some ⟨3, 0x90, 0xBF, v / 262144⟩ := by
      rw [ofByte?_ofNat (by omega), if_neg (by omega), if_neg (by omega), if_neg (by omega),
        if_neg (by omega), if_neg (by omega), if_neg (by omega), if_pos (by omega),
        show v / 262144 = 0 by omega]
    apply decodeUtf8_cons hlead
    rw [continuation_three rest (show 0x90 ≤ _ by omega) (show _ ≤ 0xBF by omega) (by omega) hthird hlast,
      hbits]
  · by_cases hhigh : v < 0x100000
    · have hlead : Lead.ofByte? (.ofNat (v / 262144 % 0x08 + 0xf0)) = some ⟨3, 0x80, 0xBF, v / 262144⟩ := by
        rw [ofByte?_ofNat (by omega), if_neg (by omega), if_neg (by omega), if_neg (by omega),
          if_neg (by omega), if_neg (by omega), if_neg (by omega), if_neg (by omega), if_pos (by omega),
          show v / 262144 % 0x08 + 0xf0 - 0xF0 = v / 262144 by omega]
      apply decodeUtf8_cons hlead
      rw [continuation_three rest (show 0x80 ≤ _ by omega) (show _ ≤ 0xBF by omega) (by omega) hthird hlast,
        hbits]
    · have hlead : Lead.ofByte? (.ofNat (v / 262144 % 0x08 + 0xf0)) = some ⟨3, 0x80, 0x8F, v / 262144⟩ := by
        rw [ofByte?_ofNat (by omega), if_neg (by omega), if_neg (by omega), if_neg (by omega),
          if_neg (by omega), if_neg (by omega), if_neg (by omega), if_neg (by omega), if_neg (by omega),
          if_pos (by omega), show v / 262144 = 4 by omega]
      apply decodeUtf8_cons hlead
      rw [continuation_three rest (show 0x80 ≤ _ by omega) (show _ ≤ 0x8F by omega) (by omega) hthird hlast,
        hbits]

end Characters

/-- The bytes of a character are read as that character, whatever follows them. -/
theorem decodeUtf8_utf8EncodeChar_append (c : Char) (rest : List UInt8) :
    decodeUtf8 (String.utf8EncodeChar c ++ rest) = c :: decodeUtf8 rest := by
  have hvalid : c.val.toNat < 0xd800 ∨ 0xdfff < c.val.toNat ∧ c.val.toNat < 0x110000 := c.valid
  rw [String.utf8EncodeChar]
  suffices h : ∀ v, c.val.toNat = v → decodeUtf8 _ = Char.ofNat v :: decodeUtf8 rest by
    rw [h _ rfl]
    exact congrArg (· :: decodeUtf8 rest) (Char.ofNat_toNat c)
  intro v hv
  rw [hv] at hvalid ⊢
  by_cases h1 : v ≤ 0x7f
  · rw [if_pos h1]
    exact decodeUtf8_one rest h1
  · rw [if_neg h1]
    by_cases h2 : v ≤ 0x7ff
    · rw [if_pos h2]
      exact decodeUtf8_two rest (by omega) h2
    · rw [if_neg h2]
      by_cases h3 : v ≤ 0xffff
      · rw [if_pos h3]
        exact decodeUtf8_three rest (by omega) h3 (by omega)
      · rw [if_neg h3]
        exact decodeUtf8_four rest (by omega) (by omega)

theorem decodeUtf8_flatMap (l : List Char) : decodeUtf8 (l.flatMap String.utf8EncodeChar) = l := by
  induction l with
  | nil => rw [List.flatMap_nil, decodeUtf8]
  | cons c l ih => rw [List.flatMap_cons, decodeUtf8_utf8EncodeChar_append, ih]

theorem ofUtf8_toUTF8 (s : String) : ofUtf8 s.toUTF8 = s := by
  rw [ofUtf8, String.toUTF8_eq_toByteArray, ← String.utf8Encode_toList, List.utf8Encode,
    List.data_toByteArray, decodeUtf8_flatMap, String.ofList_toList]

end DexArchive.Text
