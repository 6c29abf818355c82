import SourceStyle.Listing.Walk

/-!
The order of names and of the ways that they make up. Names are compared character by character,
which is how their bytes compare: the first byte of a character tells how many follow, and the more
there are, the later the character comes.
-/

namespace SourceStyle

/-! ### Characters and their bytes -/

namespace Text

def leadByte (code : Nat) : Nat :=
  if code ≤ 0x7f then code
  else if code ≤ 0x7ff then code / 64 % 32 + 0xc0
  else if code ≤ 0xffff then code / 4096 % 16 + 0xe0
  else code / 262144 % 8 + 0xf0

/-- How many bytes follow the first one of a character. -/
def trailCount (code : Nat) : Nat :=
  if code ≤ 0x7f then 0 else if code ≤ 0x7ff then 1 else if code ≤ 0xffff then 2 else 3

/-- The last bytes of a character, six bits of its code in each. -/
def trailBytes : Nat → Nat → List UInt8
  | _, 0 => []
  | code, count + 1 => trailBytes (code / 64) count ++ [UInt8.ofNat (code % 64 + 0x80)]

/-- What the last bytes leave of a code to the first one. -/
def leadBits : Nat → Nat → Nat
  | code, 0 => code
  | code, count + 1 => leadBits (code / 64) count

theorem utf8EncodeChar_eq (c : Char) :
    String.utf8EncodeChar c =
      UInt8.ofNat (leadByte c.toNat) :: trailBytes c.toNat (trailCount c.toNat) := by
  rw [String.utf8EncodeChar, leadByte, trailCount]
  simp only [Char.toNat_val]
  split
  · rfl
  · split
    · simp [trailBytes]
    · split <;> simp [trailBytes, Nat.div_div_eq_div_mul]

theorem leadByte_lt {code : Nat} : leadByte code < 256 := by
  rw [leadByte]
  repeat' split
  all_goals omega

/-- A later character has a later first byte, or the same one and then as many bytes. -/
theorem leadByte_lt_or_eq {code other : Nat} (h : code < other) (ho : other < 0x110000) :
    leadByte code < leadByte other ∨
      leadByte code = leadByte other ∧ trailCount code = trailCount other ∧
        leadBits code (trailCount code) = leadBits other (trailCount other) := by
  simp only [leadByte, trailCount]
  repeat' split
  all_goals
    simp only [leadBits, true_and]
    omega

theorem ofNat_cons_lt {value other : Nat} {bytes more : List UInt8} (ho : other < 256)
    (h : value < other ∨ value = other ∧ bytes < more) :
    UInt8.ofNat value :: bytes < UInt8.ofNat other :: more := by
  rw [List.cons_lt_cons_iff]
  rcases h with h | ⟨rfl, h⟩
  · left
    rw [UInt8.lt_iff_toNat_lt, UInt8.toNat_ofNat', UInt8.toNat_ofNat']
    omega
  · exact .inr ⟨rfl, h⟩

theorem append_lt_append_iff (front after more : List UInt8) :
    front ++ after < front ++ more ↔ after < more := by
  induction front with
  | nil => rfl
  | cons byte rest ih => rw [List.cons_append, List.cons_append, List.cons_lt_cons_self, ih]

/-- If the first bytes are the same, the last bytes of the later character come later. -/
theorem trailBytes_append_lt {code other count : Nat} (h : code < other)
    (hl : leadBits code count = leadBits other count) (after more : List UInt8) :
    trailBytes code count ++ after < trailBytes other count ++ more := by
  induction count generalizing code other after more with
  | zero => exact absurd hl (Nat.ne_of_lt h)
  | succ count ih =>
      rw [trailBytes, trailBytes, List.append_assoc, List.append_assoc]
      rcases Nat.lt_or_eq_of_le (Nat.div_le_div_right (c := 64) (Nat.le_of_lt h)) with hd | hd
      · exact ih hd hl _ _
      · rw [hd, append_lt_append_iff]
        apply ofNat_cons_lt (by omega)
        left
        omega

theorem toNat_lt_of_char (c : Char) : c.toNat < 0x110000 := by
  obtain hv | ⟨-, hv⟩ := c.valid
  · have : c.toNat < 0xd800 := hv
    omega
  · exact hv

/-- Bytes that begin with a later character come later. -/
theorem utf8EncodeChar_append_lt {c d : Char} (h : c.toNat < d.toNat) (after more : List UInt8) :
    String.utf8EncodeChar c ++ after < String.utf8EncodeChar d ++ more := by
  rw [utf8EncodeChar_eq, utf8EncodeChar_eq, List.cons_append, List.cons_append]
  apply ofNat_cons_lt leadByte_lt
  obtain hl | ⟨hl, hc, hr⟩ := leadByte_lt_or_eq h (toNat_lt_of_char d)
  · exact .inl hl
  · rw [hc] at hr ⊢
    exact .inr ⟨hl, trailBytes_append_lt h hr after more⟩

end Text

/-! ### Names and ways -/

namespace FileTree

theorem octets_eq (name : String) : octets name = name.toList.flatMap String.utf8EncodeChar := by
  rw [octets, String.toUTF8_eq_toByteArray, ← String.utf8Encode_toList, List.utf8Encode]
  simp

theorem octets_injective : Function.Injective octets := by
  intro name other h
  rw [octets, octets, Array.toList_inj] at h
  exact String.toByteArray_inj.1 (ByteArray.ext h)

/-- Texts compare character by character as their bytes do. -/
theorem comesBefore_toNat_iff (text other : List Char) :
    comesBefore (fun c d => c.toNat < d.toNat) text other = true ↔
      text.flatMap String.utf8EncodeChar < other.flatMap String.utf8EncodeChar := by
  induction text generalizing other with
  | nil =>
      cases other with
      | nil => simp [comesBefore]
      | cons d more => simp [comesBefore, Text.utf8EncodeChar_eq]
  | cons c rest ih =>
      cases other with
      | nil => simp [comesBefore]
      | cons d more =>
          simp only [List.flatMap_cons]
          rw [comesBefore, Bool.or_eq_true_iff, Bool.and_eq_true_iff, ih]
          obtain hc | hc | hc := Nat.lt_trichotomy c.toNat d.toNat
          · simp [hc, Text.utf8EncodeChar_append_lt hc]
          · obtain rfl := Char.toNat_inj.1 hc
            simp [Text.append_lt_append_iff]
          · have hd := List.lt_asymm (Text.utf8EncodeChar_append_lt hc
              (more.flatMap String.utf8EncodeChar) (rest.flatMap String.utf8EncodeChar))
            simp only [hc, Nat.lt_asymm hc, hd, decide_true, decide_false, Bool.not_true,
              Bool.false_eq_true, false_and, or_self]

theorem nameBefore_iff (name other : String) :
    nameBefore name other = true ↔ octets name < octets other := by
  rw [nameBefore, octets_eq, octets_eq]
  exact comesBefore_toNat_iff name.toList other.toList

theorem comesBefore_nameBefore_iff (way other : List String) :
    comesBefore nameBefore way other = true ↔ way.map octets < other.map octets := by
  induction way generalizing other with
  | nil => cases other <;> simp [comesBefore]
  | cons name rest ih =>
      cases other with
      | nil => simp [comesBefore]
      | cons first more =>
          rw [comesBefore, Bool.or_eq_true_iff, Bool.and_eq_true_iff, ih, Bool.not_eq_eq_eq_not,
            Bool.not_true, Bool.eq_false_iff, Ne, nameBefore_iff, nameBefore_iff, List.map_cons,
            List.map_cons, List.cons_lt_cons_iff]
          obtain hn | hn | hn := Std.lt_trichotomy (octets name) (octets first)
          · simp only [hn, true_or]
          · simp only [hn, List.lt_irrefl, not_false_eq_true, true_and, false_or]
          · have he : octets name ≠ octets first := by
              intro he
              exact List.lt_irrefl _ (he ▸ hn)
            simp only [hn, List.lt_asymm hn, he, not_true_eq_false, false_and, or_self]

theorem inOrder_iff (way other : List String) :
    inOrder way other = true ↔ way.map octets ≤ other.map octets := by
  rw [inOrder, Bool.not_eq_eq_eq_not, Bool.not_true, Bool.eq_false_iff, Ne,
    comesBefore_nameBefore_iff, Std.not_lt]

end FileTree
end SourceStyle
