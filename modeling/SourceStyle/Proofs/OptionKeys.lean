import Mathlib
import SourceStyle.Batch

/-!
What stands for options and contents in a cache. Options are spelled flag by flag, so no two options
are spelled alike, and a key is as long as any other, so contents after it begin where it ends.
-/

namespace SourceStyle

namespace Options

theorem not_mem_indentValue {c : Char} (hc : c.isDigit = false) (width : Nat) :
    c ∉ (indentValue (.spaces width)).toList := by
  intro h
  have hd := Nat.isDigit_of_mem_toDigits (by decide) (by decide) (Nat.toList_repr ▸ h)
  exact Bool.false_ne_true (hc.symm.trans hd)

theorem indentValue_injective : Function.Injective indentValue := by
  intro first second h
  cases first with
  | tab =>
      cases second with
      | tab => rfl
      | spaces width =>
          refine absurd ?_ (not_mem_indentValue (by decide : 't'.isDigit = false) width)
          rw [← h]
          decide
  | spaces width =>
      cases second with
      | tab =>
          refine absurd ?_ (not_mem_indentValue (by decide : 't'.isDigit = false) width)
          rw [h]
          decide
      | spaces other => exact congrArg _ (Nat.repr_inj.1 h)

theorem linebreakName_injective : Function.Injective Linebreak.name := by
  intro first second h
  cases first <;> cases second <;> first | rfl | exact absurd h (by decide)

theorem directiveName_injective : Function.Injective DirectiveIndent.name := by
  intro first second h
  cases first <;> cases second <;> first | rfl | exact absurd h (by decide)

theorem eq_of_choice_eq {first second : Bool} {yes no : String} (hn : yes ≠ no)
    (h : (if first then yes else no) = if second then yes else no) : first = second := by
  cases first <;> cases second <;> simp_all [eq_comm]

theorem flags_injective : Function.Injective flags := by
  intro first second h
  simp only [flags, List.cons.injEq, Prod.mk.injEq, true_and, and_true] at h
  obtain ⟨hi, ha, hl, hs, hc, hm, hr, hv, ht, hb, hd, hh, hp, hx, he, hf⟩ := h
  obtain ⟨⟩ := first
  obtain ⟨⟩ := second
  congr
  · exact indentValue_injective hi
  · exact eq_of_choice_eq (by decide) ha
  · exact eq_of_choice_eq (by decide) hs
  · exact eq_of_choice_eq (by decide) hc
  · exact eq_of_choice_eq (by decide) hm
  · exact linebreakName_injective hl
  · exact eq_of_choice_eq (by decide) hr
  · exact eq_of_choice_eq (by decide) hv
  · exact eq_of_choice_eq (by decide) ht
  · exact eq_of_choice_eq (by decide) hb
  · exact eq_of_choice_eq (by decide) hd
  · exact eq_of_choice_eq (by decide) hh
  · exact directiveName_injective hp
  · exact eq_of_choice_eq (by decide) hx
  · exact eq_of_choice_eq (by decide) he
  · exact eq_of_choice_eq (by decide) hf

def isPlainChar (c : Char) : Bool :=
  c.isLower || c.isDigit || c == '-'

/-- Whether a word is plain: small letters, digits and hyphens, no hyphen in front. -/
def isPlainWord (word : String) : Bool :=
  match word.toList with
  | [] => false
  | c :: rest => c != '-' && isPlainChar c && rest.all isPlainChar

theorem isPlainWord_eq_true {word : String} (h : isPlainWord word = true) :
    ∃ c rest, word.toList = c :: rest ∧ c ≠ '-' ∧ ∀ d ∈ word.toList, isPlainChar d = true := by
  unfold isPlainWord at h
  split at h
  · cases h
  · rename_i c rest he
    simp only [Bool.and_eq_true, bne_iff_ne, List.all_eq_true] at h
    obtain ⟨⟨hn, hc⟩, hr⟩ := h
    exact ⟨c, rest, he, hn, he ▸ List.forall_mem_cons.2 ⟨hc, hr⟩⟩

theorem notMem_of_isPlainWord {word : String} (h : isPlainWord word = true) {c : Char}
    (hc : isPlainChar c = false) : c ∉ word.toList := by
  obtain ⟨-, -, -, -, hp⟩ := isPlainWord_eq_true h
  intro hm
  exact Bool.false_ne_true (hc.symm.trans (hp c hm))

theorem isPlainWord_choice (choice : Bool) {yes no : String} (hy : isPlainWord yes = true)
    (hn : isPlainWord no = true) : isPlainWord (if choice then yes else no) = true := by
  cases choice with
  | true => exact hy
  | false => exact hn

theorem isPlainWord_indentValue (indent : Indent) : isPlainWord (indentValue indent) = true := by
  cases indent with
  | tab => decide
  | spaces width =>
      have hl : (indentValue (.spaces width)).toList = Nat.toDigits 10 width := Nat.toList_repr
      have hd : ∀ c ∈ Nat.toDigits 10 width, c.isDigit = true :=
        fun c => Nat.isDigit_of_mem_toDigits (by decide) (by decide)
      unfold isPlainWord
      rw [hl]
      cases he : Nat.toDigits 10 width with
      | nil => exact absurd he Nat.toDigits_ne_nil
      | cons c rest =>
          rw [he, List.forall_mem_cons] at hd
          have hn : c ≠ '-' := by
            rintro rfl
            exact absurd hd.1 (by decide)
          have plain {d : Char} (h : d.isDigit = true) : isPlainChar d = true := by
            rw [isPlainChar, h, Bool.or_true, Bool.true_or]
          simp only [bne_iff_ne.2 hn, plain hd.1, Bool.and_self, Bool.true_and]
          exact List.all_eq_true.2 fun d hm => plain (hd.2 d hm)

theorem isPlainWord_of_mem_flags {options : Options} :
    ∀ flag ∈ options.flags, isPlainWord flag.1 = true ∧ isPlainWord flag.2 = true := by
  simp only [flags, List.forall_mem_cons]
  refine ⟨?_, ?_, ?_, ?_, ?_, ?_, ?_, ?_, ?_, ?_, ?_, ?_, ?_, ?_, ?_, ?_, nofun⟩
  case refine_1 => exact ⟨by decide, isPlainWord_indentValue _⟩
  case refine_3 => cases options.linebreak <;> decide
  case refine_13 => cases options.directiveIndent <;> decide
  all_goals exact ⟨by decide, isPlainWord_choice _ (by decide) (by decide)⟩

theorem semicolon_notMem_of_mem_flags {options : Options} :
    ∀ flag ∈ options.flags, ';' ∉ flag.2.toList :=
  fun flag hm => notMem_of_isPlainWord (isPlainWord_of_mem_flags flag hm).2 (by decide)

def spell (flags : List (String × String)) : String :=
  String.join (flags.map fun (key, value) => key ++ "=" ++ value ++ ";")

theorem append_semicolon_inj {value other rest more : List Char} (hv : ';' ∉ value) (ho : ';' ∉ other)
    (h : value ++ ';' :: rest = other ++ ';' :: more) : value = other ∧ rest = more := by
  induction value generalizing other with
  | nil =>
      cases other with
      | nil => exact ⟨rfl, (List.cons.inj h).2⟩
      | cons c other => exact absurd (List.mem_cons_self ..) ((List.cons.inj h).1 ▸ ho)
  | cons c value ih =>
      cases other with
      | nil => exact absurd (List.mem_cons_self ..) ((List.cons.inj h).1 ▸ hv)
      | cons d other =>
          obtain ⟨rfl, ht⟩ := List.cons.inj h
          obtain ⟨rfl, hr⟩ := ih (mt (List.mem_cons_of_mem c) hv) (mt (List.mem_cons_of_mem c) ho) ht
          exact ⟨rfl, hr⟩

/-- Flags with the same keys that are spelled alike are the same. -/
theorem eq_of_spell_eq {first second : List (String × String)}
    (hk : first.map Prod.fst = second.map Prod.fst)
    (hf : ∀ flag ∈ first, ';' ∉ flag.2.toList) (hs : ∀ flag ∈ second, ';' ∉ flag.2.toList)
    (h : spell first = spell second) : first = second := by
  induction first generalizing second with
  | nil =>
      cases second with
      | nil => rfl
      | cons flag second => cases hk
  | cons flag first ih =>
      cases second with
      | nil => cases hk
      | cons other second =>
          obtain ⟨key, value⟩ := flag
          obtain ⟨same, held⟩ := other
          obtain ⟨hn, ht⟩ := List.cons.inj hk
          obtain rfl : key = same := hn
          obtain ⟨hv, hfs⟩ := List.forall_mem_cons.1 hf
          obtain ⟨hw, hss⟩ := List.forall_mem_cons.1 hs
          rw [spell, spell, List.map_cons, List.map_cons, String.join_cons, String.join_cons,
            ← spell, ← spell, ← String.toList_inj] at h
          simp only [String.toList_append, List.append_assoc, List.append_cancel_left_eq] at h
          obtain ⟨he, hr⟩ := append_semicolon_inj hv hw h
          obtain rfl : value = held := String.toList_inj.1 he
          rw [ih ht hfs hss (String.toList_inj.1 hr)]

/-- No two options are spelled alike. -/
theorem serial_injective : Function.Injective serial := fun _ _ h =>
  flags_injective (eq_of_spell_eq rfl semicolon_notMem_of_mem_flags semicolon_notMem_of_mem_flags h)

end Options

namespace Digest

/-- The texts that are hashed in a row are hashed as one. -/
theorem hex_pair (first second : String) : hex [first, second] = hex [first ++ second] := by
  simp [hex, String.toByteArray_append, ByteArray.data_append]

theorem length_bigEndian (length value : Nat) : (bigEndian length value).length = length := by
  induction length generalizing value with
  | zero => rfl
  | succ length ih => rw [bigEndian, List.length_append, ih, List.length_singleton]

theorem length_hex (texts : List String) : (hex texts).toList.length = 64 := by
  rw [hex, String.toList_ofList, List.length_flatMap]
  simp [hexByte, digest, length_bigEndian]

/-- What follows a digest is told apart from it. -/
theorem append_hex_inj {texts others : List String} {first second : String}
    (h : hex texts ++ first = hex others ++ second) : hex texts = hex others ∧ first = second := by
  rw [← String.toList_inj, String.toList_append, String.toList_append] at h
  obtain ⟨ht, hf⟩ := List.append_inj h (by rw [length_hex, length_hex])
  exact ⟨String.toList_inj.1 ht, String.toList_inj.1 hf⟩

end Digest

end SourceStyle
