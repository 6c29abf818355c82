import Mathlib
import SourceStyle.Proofs.Beginnings

/-!
Escapes in string literals. A literal of one line goes over the end of its line only where a
backslash escapes the terminator. Without such a backslash, a string that its line does not close is
refused.
-/

namespace SourceStyle

namespace Lexer

/-- Whether the character after this one is escaped, given whether this one is. -/
def escapes (escaped : Bool) (c : Char) : Bool :=
  c == '\\' && !escaped

/-- Whether the text ends in a backslash that escapes the character after it. -/
def endsEscaping (text : List Char) : Bool :=
  text.foldl escapes false

/-- Every line end in the text is escaped, where `escaped` tells whether the first character is. -/
def EndsEscaped (escaped : Bool) : List Char → Prop
  | [] => True
  | c :: rest => (isLineEnd c = true → escaped = true) ∧ EndsEscaped (escapes escaped c) rest

theorem EndsEscaped.escaped {escaped : Bool} {before after : List Char} {c : Char}
    (h : EndsEscaped escaped (before ++ c :: after)) (hc : isLineEnd c = true) :
    before.foldl escapes escaped = true := by
  induction before generalizing escaped with
  | nil => exact h.1 hc
  | cons d before ih => exact ih h.2

theorem EndsEscaped.cons {escaped : Bool} {c : Char} (hc : isLineEnd c = false) {rest : List Char}
    (h : EndsEscaped (escapes escaped c) rest) : EndsEscaped escaped (c :: rest) :=
  ⟨fun he => absurd he (by simp [hc]), h⟩

/-- The text of a literal leaves no line without an escape, and the code of an interpolation leaves
none at all, so that backslashes in code, which escape nothing, do not matter. -/
theorem endsEscaped_of_quotedString {state : QuoteState} {source : List Char} {lexeme : Lexeme}
    (h : quotedString state source = .ok lexeme) {escaped : Bool}
    (hs : ∀ outer, state = .text outer → escaped = false) : EndsEscaped escaped lexeme.chars := by
  have hcode : ∀ depth around escaped outer,
      QuoteState.code depth around = .text outer → escaped = false := by
    intro depth around escaped outer he
    cases he
  fun_induction quotedString state source generalizing lexeme escaped with
  | case1 | case6 | case8 | case13 => cases h
  | case2 =>
      cases h
      exact .cons rfl trivial
  | case3 _ _ _ ih | case9 _ _ _ ih | case11 _ _ _ ih =>
      obtain ⟨inner, hi, rfl⟩ := map_eq_ok h
      exact .cons rfl (ih hi (hcode _ _ _))
  | case4 outer _ ih =>
      obtain ⟨inner, hi, rfl⟩ := map_eq_ok h
      exact .cons rfl (.cons rfl (ih hi (hcode _ _ _)))
  | case5 outer c _ _ ih =>
      obtain ⟨inner, hi, rfl⟩ := map_eq_ok h
      cases hs outer rfl
      have ht : EndsEscaped false inner.chars := ih hi fun _ _ => rfl
      refine .cons rfl ⟨fun _ => rfl, ?_⟩
      rwa [show escapes (escapes false '\\') c = false from Bool.and_false _]
  | case7 outer c _ _ _ _ _ hc ih =>
      obtain ⟨inner, hi, rfl⟩ := map_eq_ok h
      simp only [Bool.or_eq_true, not_or, Bool.not_eq_true] at hc
      refine .cons hc.1 (ih hi fun _ _ => ?_)
      rw [escapes, hc.2, Bool.false_and]
  | case10 _ _ ih | case12 _ _ _ ih =>
      obtain ⟨inner, hi, rfl⟩ := map_eq_ok h
      exact .cons rfl (ih hi fun _ _ => rfl)
  | case14 _ _ c _ _ _ _ _ hc ih =>
      obtain ⟨inner, hi, rfl⟩ := map_eq_ok h
      exact .cons (Bool.eq_false_iff.2 hc) (ih hi (hcode _ _ _))

theorem fault_of_quotedString {state : QuoteState} {source : List Char} {fault : SyntaxFault}
    (h : quotedString state source = .error fault) :
    fault = .unterminatedString ∨ fault = .unterminatedInterpolation := by
  have hm : ∀ {result : Except SyntaxFault Lexeme} {taken : List Char} {lines : Nat},
      result.map (Lexeme.after taken lines) = .error fault → result = .error fault := by
    intro result taken lines hr
    cases result with
    | error other => exact congrArg _ (Except.error.inj hr)
    | ok inner => cases hr
  fun_induction quotedString state source with
  | case1 | case6 => exact .inl (Except.error.inj h).symm
  | case8 | case13 => exact .inr (Except.error.inj h).symm
  | case2 => cases h
  | case3 _ _ _ ih | case4 _ _ ih | case9 _ _ _ ih | case10 _ _ ih | case11 _ _ _ ih
  | case12 _ _ _ ih | case5 _ _ _ _ ih => exact ih (hm h)
  | case7 | case14 =>
      rename_i ih
      exact ih (hm h)

theorem next_quote (rest : List Char) : next '"' rest = afterQuote rest := rfl

/-- A literal that is read and is not one of several lines has its line ends escaped. -/
theorem Scans.endsEscaped {text : String} {after : List Char} (h : Scans (.stringLiteral text) after)
    (hq : ¬['"', '"', '"'] <+: text.toList) : EndsEscaped false text.toList := by
  obtain ⟨c, more, lines, -, hn⟩ := h
  cases reads_of_next hn with
  | @multiline _ lexeme => exact absurd ⟨lexeme.chars, by simp⟩ hq
  | quoted _ hl =>
      rw [String.toList_ofList]
      exact .cons rfl (endsEscaped_of_quotedString hl fun _ _ => rfl)

def lineOf (rest : List Char) : List Char :=
  rest.takeWhile (!isLineEnd ·)

theorem not_isLineEnd_of_mem_lineOf {rest : List Char} :
    ∀ c ∈ lineOf rest, (!isLineEnd c) = true := by
  intro c hm
  exact List.mem_takeWhile_imp (p := (!isLineEnd ·)) hm

/-- A text of several lines is its first line and what comes from the line end on. -/
theorem exists_eq_lineOf_append {text : List Char} (h : ∃ c ∈ text, isLineEnd c = true) :
    ∃ c more, isLineEnd c = true ∧ text = lineOf text ++ c :: more := by
  cases hd : text.dropWhile (!isLineEnd ·) with
  | nil =>
      obtain ⟨c, hm, hc⟩ := h
      have hn := List.dropWhile_eq_nil_iff.1 hd c hm
      rw [hc] at hn
      cases hn
  | cons c more =>
      have hc := List.head?_dropWhile_not (!isLineEnd ·) text
      rw [hd] at hc
      refine ⟨c, more, by simpa using hc, ?_⟩
      rw [lineOf, ← hd, List.takeWhile_append_dropWhile]

theorem lineOf_append_cons {line : List Char} (hl : ∀ c ∈ line, (!isLineEnd c) = true) {c : Char}
    (hc : isLineEnd c = true) (more : List Char) : lineOf (line ++ c :: more) = line := by
  have hs : Stops (!isLineEnd ·) (c :: more) := by
    rintro d ⟨⟩
    simp [hc]
  exact hs.takeWhile_append hl

/-- The string literal that goes on with these characters is not closed by them. -/
def Unclosed (line : List Char) : Prop :=
  ∀ lexeme, quotedString (.text []) line ≠ .ok lexeme

/-- A string that its line neither closes nor escapes from is refused. -/
theorem next_of_unclosed {rest : List Char} (hq : ¬['"', '"'] <+: rest)
    (ho : Unclosed (lineOf rest)) (he : endsEscaping (lineOf rest) = false) :
    ∃ fault, next '"' rest = .error fault ∧
      (fault = .unterminatedString ∨ fault = .unterminatedInterpolation) := by
  rw [next_quote]
  unfold afterQuote
  split
  · exact absurd ⟨_, rfl⟩ hq
  · split
    · rename_i lexeme hl
      have hr := quotedString_append hl
      by_cases h : ∃ c ∈ lexeme.chars, isLineEnd c = true
      · obtain ⟨c, more, hc, hs⟩ := exists_eq_lineOf_append h
        have hescaped : EndsEscaped false lexeme.chars :=
          endsEscaped_of_quotedString hl fun _ _ => rfl
        have hline : lineOf rest = lineOf lexeme.chars := by
          rw [← hr, hs, List.append_assoc, List.cons_append,
            lineOf_append_cons not_isLineEnd_of_mem_lineOf hc,
            lineOf_append_cons not_isLineEnd_of_mem_lineOf hc]
        rw [hs] at hescaped
        rw [hline, endsEscaping, hescaped.escaped hc] at he
        cases he
      · have hflat : ∀ c ∈ lexeme.chars, (!isLineEnd c) = true := by simpa using h
        rw [← hr, lineOf, List.takeWhile_append_of_pos hflat] at ho
        exact absurd (quotedString_before hl _) (ho _)
    · rename_i fault hl
      exact ⟨fault, rfl, fault_of_quotedString hl⟩

end Lexer

open Lexer

/-- String literals of one line go over its end only by escapes, and a string that is open at the end
of its line is refused unless an escape takes the terminator. -/
theorem tokenize_quoted_escapes (source : String) :
    (∀ tokens, tokenize source = .ok tokens → ∀ text, .stringLiteral text ∈ tokens →
      ¬['"', '"', '"'] <+: text.toList → ∀ before c after, text.toList = before ++ c :: after →
        isLineEnd c = true → endsEscaping before = true) ∧
    ∀ tokens rest, LexesUpTo ('"' :: rest) source.toList tokens → ¬['"', '"'] <+: rest →
      Unclosed (lineOf rest) → endsEscaping (lineOf rest) = false →
      ∃ error, tokenize source = .error error ∧
        (error.fault = .unterminatedString ∨ error.fault = .unterminatedInterpolation) := by
  constructor
  · intro tokens h text hm hq before c after ht hc
    obtain ⟨first, last, rfl⟩ := List.append_of_mem hm
    have he := (tokenize_eq_ok_iff.1 h).scans.endsEscaped hq
    rw [ht] at he
    exact he.escaped hc
  · intro tokens rest hl hq ho he
    obtain ⟨fault, hn, hf⟩ := next_of_unclosed hq ho he
    obtain ⟨error, ht, rfl⟩ := hl.tokensFrom_error hn 1
    exact ⟨error, ht, hf⟩

theorem tokenize_quoted_escapes_nested :
    endsEscaping ['"', '\\', '(', '"', '\\', '\\', '\\'] = true ∧
    ∃ error, tokenize "\n\"a\\(\")\n\"" = .error error ∧
      (error.fault = .unterminatedString ∨ error.fault = .unterminatedInterpolation) := by
  constructor
  · refine (tokenize_quoted_escapes "\"\\(\"\\\\\\\r\")\"").1
      [.stringLiteral "\"\\(\"\\\\\\\r\")\""] (by cbv) _ (List.mem_singleton.2 rfl) ?_ _ '\r'
      ['"', ')', '"'] ?_ rfl
    · decide
    · decide
  · have hs : "\n\"a\\(\")\n\"".toList = ['\n', '"', 'a', '\\', '(', '"', ')', '\n', '"'] := by decide
    have hl : LexesUpTo ['"', 'a', '\\', '(', '"', ')', '\n', '"'] "\n\"a\\(\")\n\"".toList
        [.linebreak .lf] := by
      have hn : next '\n' ['"', 'a', '\\', '(', '"', ')', '\n', '"'] =
          .ok { token := .linebreak .lf, rest := _, lines := 1 } := rfl
      rw [hs]
      exact .cons hn .nil
    have ho : Unclosed (lineOf ['a', '\\', '(', '"', ')', '\n', '"']) := by
      intro lexeme he
      cases he
    exact (tokenize_quoted_escapes "\n\"a\\(\")\n\"").2 _ _ hl (by decide) ho rfl

/-- An escape takes whatever follows the backslash, the end of the line too. -/
theorem tokenize_escaped_terminator :
    ¬∀ source tokens text, tokenize source = .ok tokens → .stringLiteral text ∈ tokens →
      ¬['"', '"', '"'] <+: text.toList → ∀ c ∈ text.toList, isLineEnd c = false := by
  intro h
  have ht : tokenize "\"a\\\n\"" = .ok [.stringLiteral "\"a\\\n\""] := by cbv
  have hn := h _ _ _ ht (List.mem_singleton.2 rfl) (by decide) '\n' (by decide)
  cases hn

end SourceStyle
