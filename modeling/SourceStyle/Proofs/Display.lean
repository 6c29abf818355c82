import Mathlib.Algebra.Ring.Nat
import SourceStyle.Path

/-!
How a path is shown. A path that is text is shown as it is. Any name can be a path, and it is shown
as its bytes are read.
-/

namespace SourceStyle

/-! ### Characters read back from their bytes -/

namespace Text

variable {n : Nat}

theorem toNat_ofNat (h : n < 256) : (UInt8.ofNat n).toNat = n := by
  rw [UInt8.toNat_ofNat', Nat.mod_eq_of_lt h]

theorem isContinuation_iff (b : UInt8) : isContinuation b = true ↔ 0x80 ≤ b.toNat ∧ b.toNat ≤ 0xBF := by
  rw [isContinuation, Bool.and_eq_true_iff, decide_eq_true_iff, decide_eq_true_iff,
    UInt8.le_iff_toNat_le, UInt8.le_iff_toNat_le]
  rfl

theorem isContinuation_ofNat (h : n < 64) : isContinuation (.ofNat (n + 0x80)) = true := by
  rw [isContinuation_iff, toNat_ofNat (by omega)]
  omega

theorem lead_payload {bits mark : Nat} (hb : 2 ^ bits ≤ 256) (h : n < 2 ^ bits)
    (hm : mark % 2 ^ bits = 0) (hs : n + mark < 256) :
    (UInt8.ofNat (n + mark) &&& UInt8.ofNat (2 ^ bits - 1)).toNat = n := by
  rw [UInt8.toNat_and, toNat_ofNat hs, toNat_ofNat (by omega), Nat.and_two_pow_sub_one_eq_mod,
    Nat.add_mod, hm, Nat.add_zero, Nat.mod_mod, Nat.mod_eq_of_lt h]

theorem continuation_payload (h : n < 64) : (UInt8.ofNat (n + 0x80) &&& 0x3F).toNat = n :=
  lead_payload (show 2 ^ 6 ≤ 256 by decide) h rfl (by omega)

theorem mayFollow_three {code : Nat} (h : 0x7FF < code) (h' : code ≤ 0xFFFF)
    (hs : code < 0xD800 ∨ 0xDFFF < code) :
    mayFollow (.ofNat (code / 4096 + 0xE0)) (.ofNat (code / 64 % 64 + 0x80)) = true := by
  have hl : (UInt8.ofNat (code / 4096 + 0xE0)).toNat = code / 4096 + 0xE0 := toNat_ofNat (by omega)
  have hb : (UInt8.ofNat (code / 64 % 64 + 0x80)).toNat = code / 64 % 64 + 0x80 :=
    toNat_ofNat (by omega)
  have hc := isContinuation_ofNat (n := code / 64 % 64) (by omega)
  unfold mayFollow
  simp only [← UInt8.toNat_inj, UInt8.le_iff_toNat_le, hl, hb, hc, UInt8.reduceToNat]
  split
  · simp; omega
  · split
    · simp; omega
    · rw [if_neg (by omega), if_neg (by omega)]

theorem mayFollow_four {code : Nat} (h : 0xFFFF < code) (h' : code < 0x110000) :
    mayFollow (.ofNat (code / 262144 + 0xF0)) (.ofNat (code / 4096 % 64 + 0x80)) = true := by
  have hl : (UInt8.ofNat (code / 262144 + 0xF0)).toNat = code / 262144 + 0xF0 :=
    toNat_ofNat (by omega)
  have hb : (UInt8.ofNat (code / 4096 % 64 + 0x80)).toNat = code / 4096 % 64 + 0x80 :=
    toNat_ofNat (by omega)
  have hc := isContinuation_ofNat (n := code / 4096 % 64) (by omega)
  unfold mayFollow
  simp only [← UInt8.toNat_inj, UInt8.le_iff_toNat_le, hl, hb, hc, UInt8.reduceToNat]
  rw [if_neg (by omega), if_neg (by omega)]
  split
  · simp; omega
  · split
    · simp; omega
    · rfl

theorem firstChar_one {code : Nat} (h : code ≤ 0x7F) (rest : List UInt8) :
    firstChar (.ofNat code) rest = (Char.ofNat code, 0) := by
  have hl : (UInt8.ofNat code).toNat = code := toNat_ofNat (by omega)
  have ha : UInt8.ofNat code < 0x80 := UInt8.lt_iff_toNat_lt.2 (by rw [hl]; exact Nat.lt_succ_of_le h)
  unfold firstChar
  rw [if_pos ha, hl]

theorem firstChar_two {code : Nat} (h : 0x7F < code) (h' : code ≤ 0x7FF) (rest : List UInt8) :
    firstChar (.ofNat (code / 64 + 0xC0)) (.ofNat (code % 64 + 0x80) :: rest) =
      (Char.ofNat code, 1) := by
  have hl : (UInt8.ofNat (code / 64 + 0xC0)).toNat = code / 64 + 0xC0 := toNat_ofNat (by omega)
  have hp : (UInt8.ofNat (code / 64 + 0xC0) &&& 0x1F).toNat = code / 64 :=
    lead_payload (show 2 ^ 5 ≤ 256 by decide) (by omega) rfl (by omega)
  unfold firstChar
  simp only [UInt8.lt_iff_toNat_lt, UInt8.le_iff_toNat_le, hl, UInt8.reduceToNat,
    isContinuation_ofNat (Nat.mod_lt code (show 64 > 0 by decide)),
    assemble, List.foldl_cons, List.foldl_nil, hp,
    continuation_payload (Nat.mod_lt code (show 64 > 0 by decide)), if_true]
  rw [if_neg (by omega), if_pos (by simp; omega), Nat.div_add_mod']

theorem firstChar_three {code : Nat} (h : 0x7FF < code) (h' : code ≤ 0xFFFF)
    (hs : code < 0xD800 ∨ 0xDFFF < code) (rest : List UInt8) :
    firstChar (.ofNat (code / 4096 + 0xE0))
        (.ofNat (code / 64 % 64 + 0x80) :: .ofNat (code % 64 + 0x80) :: rest) =
      (Char.ofNat code, 2) := by
  have hl : (UInt8.ofNat (code / 4096 + 0xE0)).toNat = code / 4096 + 0xE0 := toNat_ofNat (by omega)
  have hp : (UInt8.ofNat (code / 4096 + 0xE0) &&& 0x0F).toNat = code / 4096 :=
    lead_payload (show 2 ^ 4 ≤ 256 by decide) (by omega) rfl (by omega)
  unfold firstChar
  simp only [UInt8.lt_iff_toNat_lt, UInt8.le_iff_toNat_le, hl, UInt8.reduceToNat,
    isContinuation_ofNat (Nat.mod_lt code (show 64 > 0 by decide)), mayFollow_three h h' hs,
    assemble, List.foldl_cons, List.foldl_nil, hp,
    continuation_payload (Nat.mod_lt code (show 64 > 0 by decide)),
    continuation_payload (Nat.mod_lt (code / 64) (show 64 > 0 by decide)), if_true]
  rw [if_neg (by omega), if_neg (by simp), if_pos (by simp; omega)]
  congr 2
  omega

theorem firstChar_four {code : Nat} (h : 0xFFFF < code) (h' : code < 0x110000)
    (rest : List UInt8) :
    firstChar (.ofNat (code / 262144 + 0xF0))
        (.ofNat (code / 4096 % 64 + 0x80) :: .ofNat (code / 64 % 64 + 0x80) ::
          .ofNat (code % 64 + 0x80) :: rest) =
      (Char.ofNat code, 3) := by
  have hl : (UInt8.ofNat (code / 262144 + 0xF0)).toNat = code / 262144 + 0xF0 :=
    toNat_ofNat (by omega)
  have hp : (UInt8.ofNat (code / 262144 + 0xF0) &&& 0x07).toNat = code / 262144 :=
    lead_payload (show 2 ^ 3 ≤ 256 by decide) (by omega) rfl (by omega)
  unfold firstChar
  simp only [UInt8.lt_iff_toNat_lt, UInt8.le_iff_toNat_le, hl, UInt8.reduceToNat,
    isContinuation_ofNat (Nat.mod_lt code (show 64 > 0 by decide)),
    isContinuation_ofNat (Nat.mod_lt (code / 64) (show 64 > 0 by decide)), mayFollow_four h h',
    assemble, List.foldl_cons, List.foldl_nil, hp,
    continuation_payload (Nat.mod_lt code (show 64 > 0 by decide)),
    continuation_payload (Nat.mod_lt (code / 64) (show 64 > 0 by decide)),
    continuation_payload (Nat.mod_lt (code / 4096) (show 64 > 0 by decide)), if_true]
  rw [if_neg (by omega), if_neg (by simp), if_neg (by simp), if_pos (by simp; omega)]
  congr 2
  omega

/-- A character is read back from its bytes, whatever follows. -/
theorem decodeChars_utf8EncodeChar_append (c : Char) (rest : List UInt8) :
    decodeChars (String.utf8EncodeChar c ++ rest) = c :: decodeChars rest := by
  have hv : c.toNat < 0xD800 ∨ 0xDFFF < c.toNat ∧ c.toNat < 0x110000 := c.valid
  have hc : c.val.toNat = c.toNat := rfl
  rw [String.utf8EncodeChar, hc]
  split
  · rw [List.singleton_append, decodeChars, firstChar_one ‹_›, Char.ofNat_toNat]
    rfl
  · split
    · rw [Nat.mod_eq_of_lt (by omega), List.cons_append, List.singleton_append, decodeChars,
        firstChar_two (by omega) ‹_›, Char.ofNat_toNat]
      rfl
    · split
      · rw [Nat.mod_eq_of_lt (by omega), List.cons_append, List.cons_append, List.singleton_append,
          decodeChars, firstChar_three (by omega) ‹_› (by omega), Char.ofNat_toNat]
        rfl
      · rw [Nat.mod_eq_of_lt (show c.toNat / 262144 < 8 by omega), List.cons_append,
          List.cons_append, List.cons_append, List.singleton_append, decodeChars,
          firstChar_four (by omega) (by omega), Char.ofNat_toNat]
        rfl

theorem decodeChars_flatMap (text : List Char) :
    decodeChars (text.flatMap String.utf8EncodeChar) = text := by
  induction text with
  | nil => rw [List.flatMap_nil, decodeChars]
  | cons c rest ih => rw [List.flatMap_cons, decodeChars_utf8EncodeChar_append, ih]

end Text

/-! ### Paths and their bytes -/

namespace Path

variable {path : String} {bytes : List UInt8}

/-- No byte of the path is spelled on its own. -/
def IsText (path : String) : Prop :=
  byteSign ∉ path.toList

instance (path : String) : Decidable (IsText path) :=
  inferInstanceAs (Decidable (_ ∉ _))

theorem octetsOf_cons {c : Char} (h : c ≠ byteSign) (rest : List Char) :
    octetsOf (c :: rest) = String.utf8EncodeChar c ++ octetsOf rest := by
  cases rest with
  | nil => simp [octetsOf]
  | cons d rest => rw [octetsOf, if_neg fun hs => h hs.1]

theorem octetsOf_of_not_mem {text : List Char} (h : byteSign ∉ text) :
    octetsOf text = text.flatMap String.utf8EncodeChar := by
  induction text with
  | nil => rfl
  | cons c rest ih =>
      obtain ⟨hc, hr⟩ := not_or.1 (mt List.mem_cons.2 h)
      rw [octetsOf_cons (Ne.symm hc), ih hr, List.flatMap_cons]

theorem octets_of_isText (h : IsText path) : octets path = path.toUTF8.data.toList := by
  rw [octets, octetsOf_of_not_mem h, String.toUTF8_eq_toByteArray, ← String.utf8Encode_toList,
    List.utf8Encode]
  simp

/-- Text is shown as it is. -/
theorem display_of_isText (h : IsText path) : display path = path := by
  rw [display, octets, octetsOf_of_not_mem h, Text.decodeLossy, Text.decodeChars_flatMap,
    String.ofList_toList]

theorem octetsOf_spellByte_append {b : UInt8} (hb : b ≠ 0) (rest : List Char) :
    octetsOf (spellByte b ++ rest) = b :: octetsOf rest := by
  have hl := b.toNat_lt
  have hn : (Char.ofNat b.toNat).toNat = b.toNat := by
    rw [Char.ofNat, dif_pos (.inl (by omega))]
    rfl
  rw [spellByte]
  split
  · have hs : b.toNat < 0x80 := UInt8.lt_iff_toNat_lt.1 ‹_›
    have hc : Char.ofNat b.toNat ≠ byteSign := fun he => by
      rw [he] at hn
      exact hb (UInt8.toNat_inj.1 hn.symm)
    have hv : (Char.ofNat b.toNat).val.toNat = b.toNat := hn
    rw [List.singleton_append, octetsOf_cons hc, String.utf8EncodeChar, hv, if_pos (by omega),
      UInt8.ofNat_toNat, List.singleton_append]
  · have hs : ¬b.toNat < 0x80 := fun hs => ‹¬b < 0x80› (UInt8.lt_iff_toNat_lt.2 hs)
    rw [List.cons_append, List.singleton_append, octetsOf, if_pos ⟨rfl, by omega, by omega⟩, hn,
      UInt8.ofNat_toNat]

theorem octetsOf_flatMap_spellByte (h : 0 ∉ bytes) : octetsOf (bytes.flatMap spellByte) = bytes := by
  induction bytes with
  | nil => rfl
  | cons b rest ih =>
      obtain ⟨hb, hr⟩ := not_or.1 (mt List.mem_cons.2 h)
      rw [List.flatMap_cons, octetsOf_spellByte_append (Ne.symm hb), ih hr]

theorem toUTF8_of_decode? {bytes : ByteArray} {text : String} (h : Text.decode? bytes = some text) :
    text.toUTF8 = bytes := by
  rw [Text.decode?, String.fromUTF8?] at h
  split at h
  · cases h
    rfl
  · cases h

/-- Any name is the bytes of a path. -/
theorem octets_ofOctets (h : 0 ∉ bytes) : octets (ofOctets bytes) = bytes := by
  rw [ofOctets]
  cases hd : Text.decode? ⟨bytes.toArray⟩ with
  | none =>
      dsimp only
      rw [octets, String.toList_ofList, octetsOf_flatMap_spellByte h]
  | some text =>
      dsimp only
      have hb : text.toUTF8.data.toList = bytes := by rw [toUTF8_of_decode? hd]
      have ht : IsText text := by
        intro hm
        refine h (hb ▸ ?_)
        rw [String.toUTF8_eq_toByteArray, ← String.utf8Encode_toList, List.utf8Encode]
        simp only [List.data_toByteArray, List.mem_flatMap]
        exact ⟨byteSign, hm, by decide⟩
      rw [octets_of_isText ht, hb]

theorem display_ofOctets (h : 0 ∉ bytes) : display (ofOctets bytes) = Text.decodeLossy bytes := by
  rw [display, octets_ofOctets h]

end Path
end SourceStyle
