import Mathlib.Data.List.Basic
import DexArchive.Proofs.Text.Utf8

/-! What UTF-8 that may be broken is read as. Where the bytes of a character stand, they are read as it. Where none
do, the longest run that some character begins with is broken, or else the one byte that is there, and it is read as
the replacement character. So a byte that is a character of its own is never part of what is broken before it. -/

namespace DexArchive.Text

/-- Some character begins with these bytes, or is them. -/
def Begins (part : List UInt8) : Prop := ∃ c, part <+: String.utf8EncodeChar c

/-- The bytes `part`, where `rest` comes after them, are broken: no character stands there, and they are all that some
character begins with, or else one byte. -/
structure IsBroken (part rest : List UInt8) : Prop where
  ne_nil : part ≠ []
  no_character : ∀ c, ¬ String.utf8EncodeChar c <+: part ++ rest
  begins : part.length = 1 ∨ Begins part
  longest : ∀ longer, longer <+: part ++ rest → Begins longer → longer.length ≤ part.length

/-- The bytes read character by character, with one replacement character for whatever is broken. -/
inductive Renders : List UInt8 → List Char → Prop
  | nil : Renders [] []
  | character (c : Char) {rest : List UInt8} {l : List Char} (h : Renders rest l) :
      Renders (String.utf8EncodeChar c ++ rest) (c :: l)
  | broken {part rest : List UInt8} {l : List Char} (hpart : IsBroken part rest) (h : Renders rest l) :
      Renders (part ++ rest) (replacement :: l)

/-! ### The bytes after the first one -/

/-- Bytes that may come next where `more` bytes follow, the first of them between bounds. -/
inductive Follows : Nat → UInt8 → UInt8 → List UInt8 → Prop
  | nil {more : Nat} {low high : UInt8} : Follows more low high []
  | cons {more : Nat} {low high b : UInt8} {taken : List UInt8} (hb : low ≤ b ∧ b ≤ high)
      (h : Follows more 0x80 0xBF taken) : Follows (more + 1) low high (b :: taken)

/-- The bits of a code point, six from each byte. -/
def codePoint (bits : Nat) (taken : List UInt8) : Nat := taken.foldl (fun n b => 64 * n + b.toNat % 64) bits

section Continuation

variable {more : Nat} {low high : UInt8} {taken : List UInt8}

namespace Follows

theorem of_isPrefix (h : Follows more low high taken) {part : List UInt8} (hpart : part <+: taken) :
    Follows more low high part := by
  induction h generalizing part with
  | nil =>
      rw [List.prefix_nil.1 hpart]
      exact .nil
  | cons hb h ih =>
      cases part with
      | nil => exact .nil
      | cons x part =>
          obtain ⟨rfl, hrest⟩ := List.cons_prefix_cons.1 hpart
          exact .cons hb (ih hrest)

theorem ge_of_mem (h : Follows more low high taken) (hlow : 0x80 ≤ low) {x : UInt8} (hx : x ∈ taken) :
    0x80 ≤ x := by
  induction h with
  | nil => cases hx
  | cons hb h ih =>
      cases hx with
      | head => exact UInt8.le_trans hlow hb.1
      | tail _ hx => exact ih (UInt8.le_refl _) hx

theorem exists_of_le (more : Nat) {low high : UInt8} (hle : low ≤ high) :
    ∃ rest, Follows more low high rest ∧ rest.length = more := by
  induction more generalizing low high with
  | zero => exact ⟨[], .nil, rfl⟩
  | succ more ih =>
      obtain ⟨rest, hrest, hlength⟩ := ih (show (0x80 : UInt8) ≤ 0xBF by decide)
      exact ⟨low :: rest, .cons ⟨UInt8.le_refl _, hle⟩ hrest, congrArg Nat.succ hlength⟩

/-- What is there can be completed. -/
theorem exists_append (h : Follows more low high taken) (hle : low ≤ high) :
    ∃ rest, Follows more low high (taken ++ rest) ∧ (taken ++ rest).length = more := by
  induction h with
  | @nil more _ _ => exact exists_of_le more hle
  | cons hb h ih =>
      obtain ⟨rest, hrest, hlength⟩ := ih (by decide)
      exact ⟨rest, .cons hb hrest, congrArg Nat.succ hlength⟩

end Follows

/-- A sequence is read to its end, or as far as the bytes may come next. -/
theorem exists_continuation (more : Nat) (low high : UInt8) (bits : Nat) (s : List UInt8) :
    ∃ taken rest, s = taken ++ rest ∧ Follows more low high taken ∧
      (taken.length = more ∧ continuation more low high bits s = (some (codePoint bits taken), rest) ∨
        (∀ b tail, rest = b :: tail → ¬ Follows more low high (taken ++ [b])) ∧ taken.length < more ∧
          continuation more low high bits s = (none, rest)) := by
  fun_induction continuation more low high bits s with
  | case1 low high bits rest => exact ⟨[], rest, rfl, .nil, .inl ⟨rfl, rfl⟩⟩
  | case2 more low high bits =>
      refine ⟨[], [], rfl, .nil, .inr ⟨fun b tail h => ?_, Nat.succ_pos _, rfl⟩⟩
      cases h
  | case3 more low high bits b s hb ih =>
      obtain ⟨taken, rest, rfl, hfollows, hresult⟩ := ih
      refine ⟨b :: taken, rest, rfl, .cons hb hfollows, ?_⟩
      rcases hresult with ⟨hlength, hresult⟩ | ⟨hstops, hlt, hresult⟩
      · exact .inl ⟨congrArg Nat.succ hlength, hresult⟩
      · refine .inr ⟨fun x tail hx hcons => ?_, Nat.succ_lt_succ hlt, hresult⟩
        cases hcons with
        | cons _ h => exact hstops x tail hx h
  | case4 more low high bits b s hb =>
      refine ⟨[], b :: s, rfl, .nil, .inr ⟨fun x tail hx hcons => ?_, Nat.succ_pos _, rfl⟩⟩
      cases hx
      cases hcons with
      | cons hb' _ => exact hb hb'

/-- Where the bytes that may come next stop, no more of them may. -/
theorem length_le_of_follows {rest tail : List UInt8}
    (hstops : ∀ b tail, rest = b :: tail → ¬ Follows more low high (taken ++ [b]))
    (htail : tail <+: taken ++ rest) (h : Follows more low high tail) : tail.length ≤ taken.length := by
  apply Nat.le_of_not_lt
  intro hlt
  have htaken : taken <+: tail := List.prefix_of_prefix_length_le (List.prefix_append _ _) htail (Nat.le_of_lt hlt)
  obtain ⟨new, rfl⟩ := htaken
  cases new with
  | nil =>
      rw [List.append_nil] at hlt
      exact Nat.lt_irrefl _ hlt
  | cons b new =>
      obtain ⟨after, hafter⟩ := (List.prefix_append_right_inj taken).1 htail
      refine hstops b (new ++ after) hafter.symm (h.of_isPrefix ?_)
      rw [List.append_cons taken b new]
      exact List.prefix_append _ _

end Continuation

/-! ### Characters from their bytes -/

section Characters

variable {b x y z : UInt8}

theorem val_ofNat {v : Nat} (h : v.isValidChar) : (Char.ofNat v).val.toNat = v := by
  rw [Char.ofNat, dif_pos h]
  rfl

theorem ofNat_eq {n : Nat} (h : n = b.toNat) : UInt8.ofNat n = b := by
  rw [h, UInt8.ofNat_toNat]

theorem utf8EncodeChar_ofNat_one (hb : b.toNat < 0x80) :
    String.utf8EncodeChar (Char.ofNat b.toNat) = [b] := by
  rw [String.utf8EncodeChar, val_ofNat (.inl (by omega)), if_pos (by omega), ofNat_eq rfl]

theorem utf8EncodeChar_ofNat_two (hb : 0xC2 ≤ b.toNat ∧ b.toNat < 0xE0)
    (hx : 0x80 ≤ x.toNat ∧ x.toNat ≤ 0xBF) :
    String.utf8EncodeChar (Char.ofNat (codePoint (b.toNat - 0xC0) [x])) = [b, x] := by
  have hv : codePoint (b.toNat - 0xC0) [x] = 64 * (b.toNat - 0xC0) + x.toNat % 64 := rfl
  rw [String.utf8EncodeChar, val_ofNat (.inl (by omega)), if_neg (by omega), if_pos (by omega),
    ofNat_eq (b := b) (by omega), ofNat_eq (b := x) (by omega)]

/-- The bounds on the second byte leave out what two bytes can say, and surrogates. -/
theorem utf8EncodeChar_ofNat_three (hb : 0xE0 ≤ b.toNat ∧ b.toNat < 0xF0)
    (hx : 0x80 ≤ x.toNat ∧ x.toNat ≤ 0xBF) (hlow : b.toNat = 0xE0 → 0xA0 ≤ x.toNat)
    (hhigh : b.toNat = 0xED → x.toNat ≤ 0x9F) (hy : 0x80 ≤ y.toNat ∧ y.toNat ≤ 0xBF) :
    String.utf8EncodeChar (Char.ofNat (codePoint (b.toNat - 0xE0) [x, y])) = [b, x, y] := by
  have hv : codePoint (b.toNat - 0xE0) [x, y] = 64 * (64 * (b.toNat - 0xE0) + x.toNat % 64) + y.toNat % 64 := rfl
  rw [String.utf8EncodeChar, val_ofNat (show _ ∨ _ by omega), if_neg (by omega), if_neg (by omega),
    if_pos (by omega), ofNat_eq (b := b) (by omega), ofNat_eq (b := x) (by omega), ofNat_eq (b := y) (by omega)]

theorem utf8EncodeChar_ofNat_four (hb : 0xF0 ≤ b.toNat ∧ b.toNat ≤ 0xF4)
    (hx : 0x80 ≤ x.toNat ∧ x.toNat ≤ 0xBF) (hlow : b.toNat = 0xF0 → 0x90 ≤ x.toNat)
    (hhigh : b.toNat = 0xF4 → x.toNat ≤ 0x8F) (hy : 0x80 ≤ y.toNat ∧ y.toNat ≤ 0xBF)
    (hz : 0x80 ≤ z.toNat ∧ z.toNat ≤ 0xBF) :
    String.utf8EncodeChar (Char.ofNat (codePoint (b.toNat - 0xF0) [x, y, z])) = [b, x, y, z] := by
  have hv : codePoint (b.toNat - 0xF0) [x, y, z] =
    64 * (64 * (64 * (b.toNat - 0xF0) + x.toNat % 64) + y.toNat % 64) + z.toNat % 64 := rfl
  rw [String.utf8EncodeChar, val_ofNat (.inr (by omega)), if_neg (by omega), if_neg (by omega), if_neg (by omega),
    ofNat_eq (b := b) (by omega), ofNat_eq (b := x) (by omega), ofNat_eq (b := y) (by omega),
    ofNat_eq (b := z) (by omega)]

end Characters

/-! ### What a first byte says -/

section First

variable {b : UInt8} {lead : Lead} {tail : List UInt8} {c : Char}

/-- The forms of first bytes, by how many bytes follow. -/
inductive IsLead (b : UInt8) : Lead → Prop
  | one (hb : b.toNat < 0x80) : IsLead b ⟨0, 0x80, 0xBF, b.toNat⟩
  | two (hb : 0xC2 ≤ b.toNat ∧ b.toNat < 0xE0) : IsLead b ⟨1, 0x80, 0xBF, b.toNat - 0xC0⟩
  | three {low high : UInt8} (hb : 0xE0 ≤ b.toNat ∧ b.toNat < 0xF0) (hlow : 0x80 ≤ low) (hle : low ≤ high)
      (hhigh : high ≤ 0xBF) (hoverlong : b.toNat = 0xE0 → 0xA0 ≤ low.toNat)
      (hsurrogate : b.toNat = 0xED → high.toNat ≤ 0x9F) : IsLead b ⟨2, low, high, b.toNat - 0xE0⟩
  | four {low high : UInt8} (hb : 0xF0 ≤ b.toNat ∧ b.toNat ≤ 0xF4) (hlow : 0x80 ≤ low) (hle : low ≤ high)
      (hhigh : high ≤ 0xBF) (hoverlong : b.toNat = 0xF0 → 0x90 ≤ low.toNat)
      (hlarge : b.toNat = 0xF4 → high.toNat ≤ 0x8F) : IsLead b ⟨3, low, high, b.toNat - 0xF0⟩

theorem isLead_of_ofByte? (h : Lead.ofByte? b = some lead) : IsLead b lead := by
  rw [← UInt8.ofNat_toNat (x := b), ofByte?_ofNat b.toNat_lt] at h
  -- line by line through the table of first bytes
  split at h
  · cases h
    exact .one ‹_›
  split at h
  · cases h
  split at h
  · cases h
    exact .two (by omega)
  split at h
  · rename_i hb
    cases h
    have hthree : IsLead b ⟨2, 0xA0, 0xBF, b.toNat - 0xE0⟩ :=
      .three (by omega) (by decide) (by decide) (by decide) (fun _ => Nat.le_refl _) (by omega)
    rwa [hb] at hthree
  split at h
  · rename_i hb
    cases h
    have hthree : IsLead b ⟨2, 0x80, 0x9F, b.toNat - 0xE0⟩ :=
      .three (by omega) (by decide) (by decide) (by decide) (by omega) (fun _ => Nat.le_refl _)
    rwa [hb] at hthree
  split at h
  · cases h
    exact .three (by omega) (by decide) (by decide) (by decide) (by omega) (by omega)
  split at h
  · rename_i hb
    cases h
    have hfour : IsLead b ⟨3, 0x90, 0xBF, b.toNat - 0xF0⟩ :=
      .four (by omega) (by decide) (by decide) (by decide) (fun _ => Nat.le_refl _) (by omega)
    rwa [hb] at hfour
  split at h
  · cases h
    exact .four (by omega) (by decide) (by decide) (by decide) (by omega) (by omega)
  split at h
  · rename_i hb
    cases h
    have hfour : IsLead b ⟨3, 0x80, 0x8F, b.toNat - 0xF0⟩ :=
      .four (by omega) (by decide) (by decide) (by decide) (by omega) (fun _ => Nat.le_refl _)
    rwa [hb] at hfour
  · cases h

theorem IsLead.bounds (h : IsLead b lead) : 0x80 ≤ lead.low ∧ lead.low ≤ lead.high := by
  cases h with
  | one hb => exact ⟨UInt8.le_refl 0x80, show (0x80 : UInt8) ≤ 0xBF by decide⟩
  | two hb => exact ⟨UInt8.le_refl 0x80, show (0x80 : UInt8) ≤ 0xBF by decide⟩
  | three hb hlow hle => exact ⟨hlow, hle⟩
  | four hb hlow hle => exact ⟨hlow, hle⟩

theorem IsLead.lt_of_more_eq_zero (h : IsLead b lead) (hmore : lead.more = 0) : b.toNat < 0x80 := by
  cases h with
  | one hb => exact hb
  | two => cases hmore
  | three => cases hmore
  | four => cases hmore

/-- The bytes that a first byte asks for make a character with it. -/
theorem IsLead.utf8EncodeChar_eq (hlead : IsLead b lead) (h : Follows lead.more lead.low lead.high tail)
    (hlength : tail.length = lead.more) :
    String.utf8EncodeChar (Char.ofNat (codePoint lead.bits tail)) = b :: tail := by
  cases hlead with
  | one hb =>
      rw [List.length_eq_zero_iff.1 hlength]
      exact utf8EncodeChar_ofNat_one hb
  | two hb =>
      obtain ⟨x, rfl⟩ := List.length_eq_one_iff.1 hlength
      cases h with
      | cons hx _ => exact utf8EncodeChar_ofNat_two hb hx
  | three hb hlow hle hhigh hoverlong hsurrogate =>
      obtain ⟨x, y, rfl⟩ := List.length_eq_two.1 hlength
      cases h with
      | cons hx h =>
          cases h with
          | cons hy _ =>
              have hxlow := UInt8.le_iff_toNat_le.1 hx.1
              have hxhigh := UInt8.le_iff_toNat_le.1 hx.2
              exact utf8EncodeChar_ofNat_three hb ⟨Nat.le_trans hlow hxlow, Nat.le_trans hxhigh hhigh⟩
                (fun heq => Nat.le_trans (hoverlong heq) hxlow) (fun heq => Nat.le_trans hxhigh (hsurrogate heq)) hy
  | four hb hlow hle hhigh hoverlong hlarge =>
      obtain ⟨x, y, z, rfl⟩ := List.length_eq_three.1 hlength
      cases h with
      | cons hx h =>
          cases h with
          | cons hy h =>
              cases h with
              | cons hz _ =>
                  have hxlow := UInt8.le_iff_toNat_le.1 hx.1
                  have hxhigh := UInt8.le_iff_toNat_le.1 hx.2
                  exact utf8EncodeChar_ofNat_four hb ⟨Nat.le_trans hlow hxlow, Nat.le_trans hxhigh hhigh⟩
                    (fun heq => Nat.le_trans (hoverlong heq) hxlow) (fun heq => Nat.le_trans hxhigh (hlarge heq)) hy hz

theorem decodeUtf8_eq_nil {s : List UInt8} (h : decodeUtf8 s = []) : s = [] := by
  cases s with
  | nil => rfl
  | cons b s =>
      rw [decodeUtf8] at h
      split at h
      · cases h
      · cases h

theorem decodeUtf8_of_none {rest : List UInt8} (h : Lead.ofByte? b = none) :
    decodeUtf8 (b :: rest) = replacement :: decodeUtf8 rest := by
  rw [decodeUtf8, h]

theorem decodeUtf8_of_cut {rest rest' : List UInt8} (hlead : Lead.ofByte? b = some lead)
    (hrest : continuation lead.more lead.low lead.high lead.bits rest = (none, rest')) :
    decodeUtf8 (b :: rest) = replacement :: decodeUtf8 rest' := by
  rw [decodeUtf8, hlead]
  simp only [hrest, Option.map_none, Option.getD_none]

theorem utf8EncodeChar_injective {c c' : Char} (h : String.utf8EncodeChar c = String.utf8EncodeChar c') :
    c = c' := by
  have hc := decodeUtf8_utf8EncodeChar_append c []
  rw [h, decodeUtf8_utf8EncodeChar_append] at hc
  exact (List.cons.inj hc).1.symm

/-- The first byte of a character asks for those that come after it. -/
theorem exists_lead (h : String.utf8EncodeChar c = b :: tail) :
    ∃ lead, Lead.ofByte? b = some lead ∧ Follows lead.more lead.low lead.high tail ∧ tail.length = lead.more := by
  have hdecode := decodeUtf8_utf8EncodeChar_append c []
  rw [h, List.append_nil, decodeUtf8] at hdecode
  by_cases hc : c = replacement
  · rw [hc, show String.utf8EncodeChar replacement = [0xEF, 0xBF, 0xBD] from rfl] at h
    cases h
    exact ⟨⟨2, 0x80, 0xBF, 0xF⟩, rfl, .cons (by decide) (.cons (by decide) .nil), rfl⟩
  · cases hlead : Lead.ofByte? b with
    | none =>
        rw [decodeUtf8_of_none hlead] at hdecode
        exact absurd (List.cons.inj hdecode).1.symm hc
    | some lead =>
        obtain ⟨taken, rest, rfl, hfollows, ⟨hlength, hresult⟩ | ⟨-, -, hresult⟩⟩ :=
          exists_continuation lead.more lead.low lead.high lead.bits tail
        · rw [decodeUtf8_cons hlead hresult] at hdecode
          rw [decodeUtf8_eq_nil (List.cons.inj hdecode).2, List.append_nil]
          exact ⟨lead, rfl, hfollows, hlength⟩
        · rw [decodeUtf8_of_cut hlead hresult] at hdecode
          exact absurd (List.cons.inj hdecode).1.symm hc

theorem utf8EncodeChar_ne_nil (c : Char) : String.utf8EncodeChar c ≠ [] := by
  intro h
  have hdecode := decodeUtf8_utf8EncodeChar_append c []
  rw [h, List.nil_append, decodeUtf8] at hdecode
  cases hdecode

theorem begins_cons_iff :
    Begins (b :: tail) ↔ ∃ lead, Lead.ofByte? b = some lead ∧ Follows lead.more lead.low lead.high tail := by
  constructor
  · rintro ⟨c, rest, hc⟩
    obtain ⟨lead, hlead, hfollows, -⟩ := exists_lead hc.symm
    exact ⟨lead, hlead, hfollows.of_isPrefix (List.prefix_append _ _)⟩
  · rintro ⟨lead, hlead, hfollows⟩
    have hform := isLead_of_ofByte? hlead
    obtain ⟨rest, hwhole, hlength⟩ := hfollows.exists_append hform.bounds.2
    exact ⟨_, rest, (hform.utf8EncodeChar_eq hwhole hlength).symm⟩

theorem begins_of_utf8EncodeChar (h : String.utf8EncodeChar c = b :: tail) : Begins (b :: tail) :=
  ⟨c, h ▸ List.prefix_refl _⟩

theorem not_begins_of_none (h : Lead.ofByte? b = none) (tail : List UInt8) : ¬ Begins (b :: tail) := by
  intro hbegins
  obtain ⟨lead, hlead, -⟩ := begins_cons_iff.1 hbegins
  rw [h] at hlead
  cases hlead

theorem follows_of_begins (hlead : Lead.ofByte? b = some lead) (h : Begins (b :: tail)) :
    Follows lead.more lead.low lead.high tail := by
  obtain ⟨lead', hlead', hfollows⟩ := begins_cons_iff.1 h
  rw [hlead] at hlead'
  cases hlead'
  exact hfollows

theorem length_of_utf8EncodeChar (hlead : Lead.ofByte? b = some lead) (h : String.utf8EncodeChar c = b :: tail) :
    tail.length = lead.more := by
  obtain ⟨lead', hlead', -, hlength⟩ := exists_lead h
  rw [hlead] at hlead'
  cases hlead'
  exact hlength

/-- A byte that is a character of its own is in no other one. -/
theorem eq_of_mem_utf8EncodeChar {c' : Char} (hb : String.utf8EncodeChar c = [b])
    (h : b ∈ String.utf8EncodeChar c') : c' = c := by
  obtain ⟨lead, hlead, -, hmore⟩ := exists_lead hb
  obtain ⟨x, tail, hbytes⟩ := List.exists_cons_of_ne_nil (utf8EncodeChar_ne_nil c')
  rw [hbytes] at h
  cases h with
  | head =>
      have hnil : tail = [] := List.length_eq_zero_iff.1 ((length_of_utf8EncodeChar hlead hbytes).trans hmore.symm)
      rw [hnil, ← hb] at hbytes
      exact utf8EncodeChar_injective hbytes
  | tail _ hmem =>
      obtain ⟨lead', hlead', hfollows, -⟩ := exists_lead hbytes
      have hge := UInt8.le_iff_toNat_le.1 (hfollows.ge_of_mem (isLead_of_ofByte? hlead').bounds.1 hmem)
      have hlt := (isLead_of_ofByte? hlead).lt_of_more_eq_zero hmore.symm
      exact absurd hlt (Nat.not_lt_of_le hge)

end First

/-! ### The whole text -/

section Whole

variable {part rest s taken : List UInt8} {l : List Char} {b : UInt8} {c : Char} {lead : Lead}

theorem isBroken_cons (hbegins : taken = [] ∨ Begins (b :: taken))
    (hlongest : ∀ tail, b :: tail <+: b :: taken ++ rest → Begins (b :: tail) → tail.length ≤ taken.length)
    (hnot : ∀ tail, b :: tail <+: b :: taken ++ rest → ∀ c, String.utf8EncodeChar c ≠ b :: tail) :
    IsBroken (b :: taken) rest := by
  have hone : taken = [] → (b :: taken).length = 1 := congrArg fun taken => (b :: taken).length
  refine ⟨List.cons_ne_nil _ _, fun c hc => ?_, hbegins.imp_left hone, fun longer hlonger h => ?_⟩
  · obtain ⟨x, tail, hbytes⟩ := List.exists_cons_of_ne_nil (utf8EncodeChar_ne_nil c)
    rw [hbytes] at hc
    obtain ⟨rfl, -⟩ := List.cons_prefix_cons.1 hc
    exact hnot tail hc c hbytes
  · cases longer with
    | nil => exact Nat.zero_le _
    | cons x tail =>
        obtain ⟨rfl, -⟩ := List.cons_prefix_cons.1 hlonger
        exact Nat.succ_le_succ (hlongest tail hlonger h)

theorem isBroken_of_none (h : Lead.ofByte? b = none) (rest : List UInt8) : IsBroken [b] rest := by
  have hnot := not_begins_of_none h
  exact isBroken_cons (.inl rfl) (fun tail _ hbegins => absurd hbegins (hnot tail)) fun tail _ c hbytes =>
    hnot tail (begins_of_utf8EncodeChar hbytes)

theorem isBroken_of_cut (hlead : Lead.ofByte? b = some lead)
    (h : Follows lead.more lead.low lead.high taken) (hlt : taken.length < lead.more)
    (hstops : ∀ b tail, rest = b :: tail → ¬ Follows lead.more lead.low lead.high (taken ++ [b])) :
    IsBroken (b :: taken) rest := by
  have hlongest : ∀ tail, b :: tail <+: b :: taken ++ rest → Begins (b :: tail) → tail.length ≤ taken.length := by
    intro tail htail hbegins
    exact length_le_of_follows hstops (List.cons_prefix_cons.1 htail).2 (follows_of_begins hlead hbegins)
  refine isBroken_cons (.inr (begins_cons_iff.2 ⟨lead, hlead, h⟩)) hlongest fun tail htail c hbytes => ?_
  have hle := hlongest tail htail (begins_of_utf8EncodeChar hbytes)
  rw [length_of_utf8EncodeChar hlead hbytes] at hle
  exact absurd hlt (Nat.not_lt_of_le hle)

/-- What is broken is read as one replacement character. -/
theorem IsBroken.decodeUtf8_append (h : IsBroken part rest) :
    decodeUtf8 (part ++ rest) = replacement :: decodeUtf8 rest := by
  obtain ⟨b, tail, rfl⟩ := List.exists_cons_of_ne_nil h.ne_nil
  have hbegins : tail = [] ∨ Begins (b :: tail) :=
    h.begins.imp_left fun hlength => List.length_eq_zero_iff.1 (Nat.succ.inj hlength)
  rw [List.cons_append]
  cases hlead : Lead.ofByte? b with
  | none =>
      have hnil : tail = [] := hbegins.resolve_right (not_begins_of_none hlead tail)
      rw [hnil, List.nil_append, decodeUtf8_of_none hlead]
  | some lead =>
      have htail : Follows lead.more lead.low lead.high tail := by
        rcases hbegins with rfl | hbegins
        · exact .nil
        · exact follows_of_begins hlead hbegins
      obtain ⟨taken, rest', hsplit, hfollows, hresult⟩ :=
        exists_continuation lead.more lead.low lead.high lead.bits (tail ++ rest)
      have hprefix : b :: taken <+: b :: tail ++ rest := by
        rw [List.cons_append, hsplit]
        exact List.cons_prefix_cons.2 ⟨rfl, List.prefix_append _ _⟩
      rcases hresult with ⟨hlength, -⟩ | ⟨hstops, -, hresult⟩
      · have hchar := (isLead_of_ofByte? hlead).utf8EncodeChar_eq hfollows hlength
        exact absurd (hchar ▸ hprefix) (h.no_character _)
      · have hle := length_le_of_follows hstops (hsplit ▸ List.prefix_append tail rest) htail
        have hge := h.longest (b :: taken) hprefix (begins_cons_iff.2 ⟨lead, hlead, hfollows⟩)
        have hsame := List.append_inj hsplit (Nat.le_antisymm hle (Nat.le_of_succ_le_succ hge))
        rw [decodeUtf8_of_cut hlead hresult, hsame.2]

theorem Renders.eq_decodeUtf8 (h : Renders s l) : l = decodeUtf8 s := by
  induction h with
  | nil => rw [decodeUtf8]
  | character c h ih => rw [decodeUtf8_utf8EncodeChar_append, ih]
  | broken hpart h ih => rw [hpart.decodeUtf8_append, ih]

theorem renders_decodeUtf8 (s : List UInt8) : Renders s (decodeUtf8 s) := by
  fun_induction decodeUtf8 s with
  | case1 => exact .nil
  | case2 b rest hlead ih => exact .broken (isBroken_of_none hlead rest) ih
  | case3 b s lead hlead result ih =>
      obtain ⟨taken, rest, rfl, hfollows, ⟨hlength, hresult⟩ | ⟨hstops, hlt, hresult⟩⟩ :=
        exists_continuation lead.more lead.low lead.high lead.bits s
      · change result = _ at hresult
        rw [hresult] at ih ⊢
        have hchar := (isLead_of_ofByte? hlead).utf8EncodeChar_eq hfollows hlength
        rw [← List.cons_append, ← hchar]
        exact .character _ ih
      · change result = _ at hresult
        rw [hresult] at ih ⊢
        exact .broken (isBroken_of_cut hlead hfollows hlt hstops) ih

theorem renders_iff : Renders s l ↔ decodeUtf8 s = l :=
  ⟨fun h => h.eq_decodeUtf8.symm, fun h => h ▸ renders_decodeUtf8 s⟩

/-- A byte that is a character of its own is in no broken part. -/
theorem IsBroken.not_mem (h : IsBroken part rest) (hb : String.utf8EncodeChar c = [b]) : b ∉ part := by
  intro hmem
  have hnot : part ≠ [b] := by
    rintro rfl
    exact h.no_character c (hb ▸ List.prefix_append _ _)
  rcases h.begins with hlength | ⟨c', hc'⟩
  · obtain ⟨x, rfl⟩ := List.length_eq_one_iff.1 hlength
    exact hnot (List.mem_singleton.1 hmem ▸ rfl)
  · have hchar := eq_of_mem_utf8EncodeChar hb (hc'.mem hmem)
    rw [hchar, hb] at hc'
    rcases List.prefix_cons_iff.1 hc' with hnil | ⟨tail, hcons, htail⟩
    · exact h.ne_nil hnil
    · exact hnot (hcons.trans (congrArg (b :: ·) (List.prefix_nil.1 htail)))

theorem Renders.eq_nil_iff (h : Renders s l) : l = [] ↔ s = [] := by
  cases h with
  | nil => exact iff_of_true rfl rfl
  | character c h => exact iff_of_false nofun fun hnil => utf8EncodeChar_ne_nil c (List.append_eq_nil_iff.1 hnil).1
  | broken hpart h => exact iff_of_false nofun fun hnil => hpart.ne_nil (List.append_eq_nil_iff.1 hnil).1

/-- A character that is one byte is the last one iff that byte is, whatever is broken before it. -/
theorem Renders.getLast?_eq_some_iff (h : Renders s l) (hb : String.utf8EncodeChar c = [b]) :
    l.getLast? = some c ↔ s.getLast? = some b := by
  have hlast : ∀ {part rest : List UInt8} {x : Char} {l : List Char}, Renders rest l →
      (x = c ↔ part.getLast? = some b) → (l.getLast? = some c ↔ rest.getLast? = some b) →
        ((x :: l).getLast? = some c ↔ (part ++ rest).getLast? = some b) := by
    intro part rest x l hrenders hpart hrest
    by_cases hnil : rest = []
    · rw [hnil, hrenders.eq_nil_iff.2 hnil, List.append_nil, List.getLast?_singleton, Option.some_inj, hpart]
    · have hl : l ≠ [] := fun hl => hnil (hrenders.eq_nil_iff.1 hl)
      rw [List.getLast?_append_of_ne_nil _ hnil, ← hrest, ← List.singleton_append,
        List.getLast?_append_of_ne_nil _ hl]
  induction h with
  | nil => exact iff_of_false nofun nofun
  | @character c' rest l h ih =>
      refine hlast h ⟨?_, fun hmem => ?_⟩ ih
      · rintro rfl
        rw [hb]
        rfl
      · exact eq_of_mem_utf8EncodeChar hb (List.mem_of_getLast? hmem)
  | broken hpart h ih =>
      refine hlast h (iff_of_false ?_ fun hmem => ?_) ih
      · rintro rfl
        cases hb
      · exact hpart.not_mem hb (List.mem_of_getLast? hmem)

end Whole

/-- What is not broken is written back as the same bytes, and nothing else is. -/
theorem toUTF8_ofUtf8_eq_iff {b : ByteArray} : (ofUtf8 b).toUTF8 = b ↔ b.IsValidUTF8 := by
  constructor
  · intro h
    rw [← h]
    exact (ofUtf8 b).isValidUTF8
  · intro h
    exact congrArg String.toUTF8 (ofUtf8_toUTF8 (.ofByteArray b h))

end DexArchive.Text
