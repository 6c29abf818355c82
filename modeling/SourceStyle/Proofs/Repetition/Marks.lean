import Mathlib
import SourceStyle.Proofs.Essence.Rules
import SourceStyle.Proofs.Headers
import SourceStyle.Proofs.ReadBack

/-!
Headers, semicolons and commas are counted by their characters. A rule that settles them changes the
count or nothing at all, and no other rule changes it.
-/

namespace SourceStyle

open Token Rule Essence

/-- The characters of comments, semicolons and commas. -/
def IsMark (mark : Char) : Prop :=
  mark = '/' ∨ mark = ';' ∨ mark = ','

/-- The times a character stands in the code and comments of tokens. -/
def tally (mark : Char) (tokens : List Token) : Nat :=
  (renderChars (content tokens)).count mark

section
variable {mark : Char}

theorem count_dropWhile {p : Char → Bool} (h : p mark = false) (text : List Char) :
    (text.dropWhile p).count mark = text.count mark := by
  induction text with
  | nil => rfl
  | cons c text ih =>
      rw [List.dropWhile_cons]
      split
      · rename_i hc
        have hn : c ≠ mark := by
          rintro rfl
          rw [h] at hc
          cases hc
        rw [ih, List.count_cons_of_ne hn]
      · rfl

theorem toLower_beq (h : IsMark mark) (c : Char) : (c.toLower == mark) = (c == mark) := by
  by_cases hc : c.toNat < 0x80
  · rcases h with rfl | rfl | rfl <;> exact Text.of_ascii hc (by decide)
  · have hn : ¬(c.val ≥ 'A'.val ∧ c.val ≤ 'Z'.val) :=
      fun hz => hc (Nat.lt_of_le_of_lt hz.2 (by decide))
    rw [Char.toLower, dif_neg hn]

theorem count_plainNumber (h : IsMark mark) (text : List Char) :
    (plainNumber text).count mark = text.count mark := by
  have hm : (text.map Char.toLower).count mark = text.count mark := by
    induction text with
    | nil => rfl
    | cons c text ih => rw [List.map_cons, List.count_cons, List.count_cons, ih, toLower_beq h]
  unfold plainNumber
  split
  · exact hm
  · rfl

theorem count_trimEnd (h : IsMark mark) (text : List Char) :
    (Text.trimEnd text).count mark = text.count mark := by
  have hb : Text.isBlank mark = false := by
    rcases h with rfl | rfl | rfl <;> decide
  rw [Text.trimEnd, List.count_reverse, count_dropWhile hb, List.count_reverse]

theorem count_flushLines (h : IsMark mark) (text : List Char) :
    (flushLines text).count mark = text.count mark := by
  have hs : Lexer.isSpace mark = false := by
    rcases h with rfl | rfl | rfl <;> decide
  fun_induction flushLines text with
  | case1 => rfl
  | case2 rest ih => rw [List.count_cons, List.count_cons, ih, count_dropWhile hs]
  | case3 c rest _ ih => rw [List.count_cons, List.count_cons, ih]

theorem count_respell (h : IsMark mark) (ending : Linebreak) (text : List Char) :
    (ending.respell text).count mark = text.count mark := by
  have hc : ending.chars.count mark = 0 := by
    rcases h with rfl | rfl | rfl <;> cases ending <;> rfl
  have hn : mark ≠ '\r' ∧ mark ≠ '\n' := by
    rcases h with rfl | rfl | rfl <;> decide
  fun_induction Linebreak.respell ending text with
  | case1 => rfl
  | case2 rest ih =>
      rw [List.count_append, hc, ih, List.count_cons_of_ne hn.1.symm,
        List.count_cons_of_ne hn.2.symm, Nat.zero_add]
  | case3 c rest _ ht ih =>
      have hm : c ≠ mark := by
        rintro rfl
        exact ht.elim hn.1 hn.2
      rw [List.count_append, hc, ih, List.count_cons_of_ne hm, Nat.zero_add]
  | case4 c rest _ _ ih => rw [List.count_cons, List.count_cons, ih]

theorem count_chars_plain (h : IsMark mark) (token : Token) :
    (plain token).chars.count mark = token.chars.count mark := by
  cases token with
  | number text => simp only [plain, chars, Token.text, String.toList_ofList, count_plainNumber h]
  | lineComment text => simp only [plain, chars, Token.text, String.toList_ofList, count_trimEnd h]
  | blockComment text =>
      simp only [plain, chars, Token.text, String.toList_ofList, count_flushLines h, count_respell h]
  | _ => rfl

theorem tally_cons (token : Token) (tokens : List Token) :
    tally mark (token :: tokens) =
      (if token.isLayout = true then 0 else (plain token).chars.count mark) + tally mark tokens := by
  unfold tally
  rw [content_cons]
  split
  · rw [Nat.zero_add]
  · rw [renderChars_cons, List.count_append]

theorem tally_layout {token : Token} (h : token.isLayout = true) (tokens : List Token) :
    tally mark (token :: tokens) = tally mark tokens := by
  rw [tally_cons, if_pos h, Nat.zero_add]

theorem tally_append (first second : List Token) :
    tally mark (first ++ second) = tally mark first + tally mark second := by
  unfold tally
  rw [content_append, renderChars_append, List.count_append]

theorem tally_skipSpace (tokens : List Token) :
    tally mark (skipSpace tokens) = tally mark tokens := by
  rw [tally, content_skipSpace, tally]

theorem count_renderChars (h : IsMark mark) {tokens : List Token}
    (hb : ∀ token ∈ tokens, Lexer.Begins token token.chars) :
    (renderChars tokens).count mark = tally mark tokens := by
  induction tokens with
  | nil => rfl
  | cons token tokens ih =>
      obtain ⟨ht, hb⟩ := List.forall_mem_cons.1 hb
      rw [renderChars_cons, List.count_append, ih hb, tally_cons]
      split
      · have hc : token.chars.count mark = 0 := by
          cases token with
          | whitespace text =>
              refine List.count_eq_zero.2 fun hm => absurd (ht.2 mark hm) ?_
              rcases h with rfl | rfl | rfl <;> decide
          | linebreak ending =>
              rw [chars_linebreak]
              rcases h with rfl | rfl | rfl <;> cases ending <;> rfl
          | _ => simp [isLayout, isWhitespace, isLinebreak] at *
        rw [hc]
      · rw [count_chars_plain h]

end

/-- The second tokens are the first, or they hold more of a mark, or less. -/
def Shifts (grows : Bool) (mark : Char) (first second : List Token) : Prop :=
  second = first ∨
    if grows = true then tally mark first < tally mark second
    else tally mark second < tally mark first

namespace Shifts
variable {grows : Bool} {mark : Char} {first second third : List Token}

theorem refl (tokens : List Token) : Shifts grows mark tokens tokens :=
  .inl rfl

theorem eq_of_tally (h : Shifts grows mark first second)
    (ht : tally mark second = tally mark first) : second = first := by
  rcases h with h | h
  · exact h
  · rw [ht] at h
    split at h <;> exact absurd h (Nat.lt_irrefl _)

theorem trans (h : Shifts grows mark first second) (k : Shifts grows mark second third) :
    Shifts grows mark first third := by
  rcases h with rfl | h
  · exact k
  · rcases k with rfl | k
    · exact .inr h
    · refine .inr ?_
      cases grows with
      | true => exact Nat.lt_trans h k
      | false => exact Nat.lt_trans k h

theorem append (h : Shifts grows mark first second) (after : List Token) :
    Shifts grows mark (first ++ after) (second ++ after) := by
  rcases h with rfl | h
  · exact .refl _
  · refine .inr ?_
    rw [tally_append, tally_append]
    cases grows with
    | true => exact Nat.add_lt_add_right h _
    | false => exact Nat.add_lt_add_right h _

theorem prepend (h : Shifts grows mark first second) (before : List Token) :
    Shifts grows mark (before ++ first) (before ++ second) := by
  rcases h with rfl | h
  · exact .refl _
  · refine .inr ?_
    rw [tally_append, tally_append]
    cases grows with
    | true => exact Nat.add_lt_add_left h _
    | false => exact Nat.add_lt_add_left h _

theorem cons (h : Shifts grows mark first second) (token : Token) :
    Shifts grows mark (token :: first) (token :: second) :=
  h.prepend [token]

theorem tally_le (h : Shifts false mark first second) : tally mark second ≤ tally mark first := by
  rcases h with rfl | h
  · exact Nat.le_refl _
  · exact Nat.le_of_lt h

end Shifts

section
variable {options : Options} {tokens : List Token}

theorem shifts_header (hb : ∀ token ∈ tokens, Lexer.Begins token token.chars) :
    Shifts false '/' tokens (header options tokens) := by
  unfold header
  split
  · cases ha : afterHeader? true false tokens with
    | none => exact .refl tokens
    | some rest =>
        obtain ⟨lead, rfl, -, hl, -⟩ := stripped_of_afterHeader? ha
        obtain ⟨comment, hm, hk⟩ : ∃ token ∈ lead, token.isComment = true := by simpa using hl
        refine .inr ?_
        have hc := hb comment (List.mem_append_left rest hm)
        have hs : '/' ∈ renderChars lead := List.mem_flatMap.2
          ⟨comment, hm, List.mem_of_mem_head? (Lexer.head?_of_isComment hc hk)⟩
        have hp := List.count_pos_iff.2 hs
        rw [count_renderChars (.inl rfl) (List.forall_mem_append.1 hb).1] at hp
        rw [if_neg Bool.false_ne_true, tally_append, Option.getD_some]
        omega
  · exact .refl tokens

theorem shifts_semicolonsFrom (nesting : Nat) :
    Shifts false ';' tokens (semicolonsFrom options nesting tokens) := by
  have hs : ∀ rest, tally ';' (.separator .semicolon :: rest) = 1 + tally ';' rest :=
    fun rest => tally_cons _ rest
  fun_induction semicolonsFrom options nesting tokens with
  | case1 => exact .refl []
  | case2 nesting rest _ ih | case6 nesting text rest _ ih | case7 nesting token rest _ _ ih =>
      exact ih.cons _
  | case3 nesting rest _ ih =>
      have hl := ih.tally_le
      refine .inr ?_
      rw [if_neg Bool.false_ne_true, hs]
      omega
  | case4 nesting rest _ ih =>
      have hl := ih.tally_le
      rw [tally_skipSpace] at hl
      refine .inr ?_
      rw [if_neg Bool.false_ne_true, hs, tally_layout rfl]
      omega
  | case5 nesting text rest hb ih =>
      have hn : semicolonsFrom options nesting rest ≠ rest := by
        unfold beginsSplit at hb
        split at hb
        · rename_i following
          rw [semicolonsFrom, beq_iff_eq.1 hb]
          intro h
          cases h
        · cases hb
      have hl := ih.resolve_left hn
      refine .inr ?_
      rw [if_neg Bool.false_ne_true, tally_layout rfl]
      exact hl

theorem shifts_settleComma (inside : List Token) :
    Shifts options.trailingCommas ',' inside (settleComma options inside) := by
  have hs : ∀ before trivia,
      tally ',' (before ++ .separator .comma :: trivia) = tally ',' (before ++ trivia) + 1 := by
    intro before trivia
    have hc : tally ',' (.separator .comma :: trivia) = 1 + tally ',' trivia := tally_cons _ trivia
    rw [tally_append, tally_append, hc]
    omega
  rcases settleComma_cases options inside with
    he | ⟨before, trivia, -, -, ⟨ho, hi, -, he⟩ | ⟨ho, hi, he⟩⟩
  · exact .inl he
  · refine .inr ?_
    rw [if_pos ho, he, hi, hs]
    exact Nat.lt_succ_self _
  · refine .inr ?_
    rw [if_neg (by simp [ho]), he, hi, hs]
    exact Nat.lt_succ_self _

theorem shifts_trailingCommas :
    Shifts options.trailingCommas ',' tokens (trailingCommas options tokens) := by
  fun_induction trailingCommas options tokens with
  | case1 => exact .refl []
  | case2 rest split hs _ _ ihInside ihAfter =>
      rw [← Scope.append_of_splitAtClose hs]
      have hi := (ihInside.trans (shifts_settleComma _)).append (.closing split.close :: split.after)
      have ha := (ihAfter.cons (.closing split.close)).prepend
        (settleComma options (trailingCommas options split.inside))
      exact (hi.trans ha).cons _
  | case3 rest _ ih | case4 token rest _ ih => exact ih.cons _

theorem count_dropSemicolons {mark : Char} (hm : mark ≠ ';') (nesting : Nat) (tokens : List Token) :
    (renderChars (dropSemicolons nesting tokens)).count mark = (renderChars tokens).count mark := by
  induction tokens generalizing nesting with
  | nil => rfl
  | cons token tokens ih =>
      rw [dropSemicolons]
      split
      · rename_i hs
        rw [hs.1, ih, renderChars_cons, chars_separator, List.singleton_append]
        exact (List.count_cons_of_ne hm.symm).symm
      · rw [renderChars_cons, renderChars_cons, List.count_append, List.count_append, ih]

theorem tally_semicolons {mark : Char} (hm : mark ≠ ';') :
    tally mark (semicolons options tokens) = tally mark tokens := by
  rw [tally, ← count_dropSemicolons hm 0, semicolons, dropSemicolons_semicolonsFrom,
    count_dropSemicolons hm, tally]

theorem Essence.EmptyResult.count_renderChars {mark : Char} (hm : IsMark mark) {form : List Token}
    (h : EmptyResult form) : (renderChars form).count mark = 0 := by
  rcases hm with rfl | rfl | rfl <;> cases h <;> decide

theorem Essence.VoidAlike.count_renderChars {mark : Char} (hm : IsMark mark) {arrow : Bool}
    {first second : List Token} (h : VoidAlike arrow first second) :
    (renderChars first).count mark = (renderChars second).count mark := by
  induction h with
  | nil => rfl
  | cons _ ih => rw [renderChars_cons, renderChars_cons, List.count_append, List.count_append, ih]
  | result hf ho _ ih =>
      rw [renderChars_append, renderChars_append, List.count_append, List.count_append, ih,
        hf.count_renderChars hm, ho.count_renderChars hm]

theorem tally_voidTypes {mark : Char} (hm : IsMark mark) :
    tally mark (voidTypes options tokens) = tally mark tokens :=
  (voidAlike_voidTypes options false tokens).count_renderChars hm

theorem tally_trailingCommas {mark : Char} (hm : mark ≠ ',') :
    tally mark (trailingCommas options tokens) = tally mark tokens := by
  have hc : ∀ rest, tally mark (.separator .comma :: rest) = tally mark rest := by
    intro rest
    have ht : tally mark (.separator .comma :: rest) = [','].count mark + tally mark rest :=
      tally_cons _ rest
    rw [ht, List.count_singleton, if_neg (by simpa using hm.symm), Nat.zero_add]
  have hs : ∀ inside, tally mark (settleComma options inside) = tally mark inside := by
    intro inside
    rcases settleComma_cases options inside with
      he | ⟨before, trivia, -, -, ⟨-, hi, -, he⟩ | ⟨-, hi, he⟩⟩
    · rw [he]
    · rw [he, hi, tally_append, hc, tally_append]
    · rw [he, hi, tally_append, tally_append, hc]
  fun_induction trailingCommas options tokens with
  | case1 => rfl
  | case2 rest split ha _ _ ihInside ihAfter =>
      rw [← Scope.append_of_splitAtClose ha, tally_cons, tally_cons, tally_append, tally_append,
        tally_cons, tally_cons, hs, ihInside, ihAfter]
  | case3 rest _ ih | case4 token rest _ ih => rw [tally_cons, tally_cons, ih]

end

end SourceStyle
