import Mathlib
import SourceStyle.Proofs.Escapes
import SourceStyle.Proofs.Respelling.Text

/-!
Lines. Terminators are counted token by token, since none is cut in two. Reading counts them all but
those that escapes take in string literals, and so refuses source on the wrong line behind one.
-/

namespace SourceStyle

namespace Linebreak

open Lexer

theorem count_cons (c : Char) (rest : List Char) :
    count (c :: rest) = lineEnds c rest + count rest := by
  cases rest with
  | nil => simp [count, lineEnds, or_comm]
  | cons d rest =>
      by_cases hr : c = '\r'
      · subst hr
        by_cases hd : d = '\n'
        · subst hd
          simp [count, lineEnds]
        · simp [count, lineEnds, hd, Nat.add_comm]
      · by_cases hn : c = '\n' <;> simp [count, lineEnds, hr, hn, Nat.add_comm]

theorem lineEnds_of_not {c : Char} (h : isLineEnd c = false) (rest : List Char) :
    lineEnds c rest = 0 := by
  simp only [isLineEnd, Bool.or_eq_false_iff, beq_eq_false_iff_ne] at h
  simp [lineEnds, h]

theorem count_cons_of_not {c : Char} (h : isLineEnd c = false) (rest : List Char) :
    count (c :: rest) = count rest := by
  rw [count_cons, lineEnds_of_not h, Nat.zero_add]

theorem count_eq_zero {text : List Char} (h : ∀ c ∈ text, isLineEnd c = false) :
    count text = 0 := by
  induction text with
  | nil => rfl
  | cons c rest ih =>
      obtain ⟨hc, hr⟩ := List.forall_mem_cons.1 h
      rw [count_cons_of_not hc, ih hr]

/-- Terminators are counted apart where none is cut in two. -/
theorem count_append {first second : List Char}
    (h : first.getLast? = some '\r' → second.head? ≠ some '\n') :
    count (first ++ second) = count first + count second := by
  induction first with
  | nil => simp [count]
  | cons c rest ih =>
      have hc : lineEnds c (rest ++ second) = lineEnds c rest := by
        cases rest with
        | nil =>
            by_cases hr : c = '\r'
            · subst hr
              simp [lineEnds, h rfl]
            · simp [lineEnds, hr]
        | cons d rest => exact lineEnds_congr rfl
      have hr : rest.getLast? = some '\r' → second.head? ≠ some '\n' := by
        intro hl
        apply h
        rw [List.getLast?_cons, hl]
        rfl
      rw [List.cons_append, count_cons, count_cons, hc, ih hr, Nat.add_assoc]

end Linebreak

namespace Lexer

open Linebreak

/-- The line terminators in a text that escapes take. -/
def escapedEnds (escaped : Bool) : List Char → Nat
  | [] => 0
  | c :: rest => (if escaped then lineEnds c rest else 0) + escapedEnds (escapes escaped c) rest

theorem escapedEnds_le_count (escaped : Bool) (text : List Char) :
    escapedEnds escaped text ≤ count text := by
  induction text generalizing escaped with
  | nil => exact Nat.zero_le _
  | cons c rest ih =>
      rw [escapedEnds, count_cons]
      have := ih (escapes escaped c)
      split <;> omega

theorem EndsEscaped.escapedEnds_eq {escaped : Bool} {text : List Char}
    (h : EndsEscaped escaped text) : escapedEnds escaped text = count text := by
  induction text generalizing escaped with
  | nil => rfl
  | cons c rest ih =>
      rw [escapedEnds, count_cons, ih h.2]
      cases escaped with
      | true => rfl
      | false =>
          have hc : isLineEnd c = false := by simpa using h.1
          rw [lineEnds_of_not hc]
          rfl

theorem escapedEnds_cons {c : Char} (hc : isLineEnd c = false) (hb : c ≠ '\\') (escaped : Bool)
    (rest : List Char) : escapedEnds escaped (c :: rest) = escapedEnds false rest := by
  have he : escapes escaped c = false := by simp [escapes, hb]
  rw [escapedEnds, lineEnds_of_not hc, he]
  cases escaped <;> exact Nat.zero_add _

theorem lines_of_blockComment? {depth : Nat} {source : List Char} {lexeme : Lexeme}
    (h : blockComment? depth source = some lexeme) : lexeme.lines = count lexeme.chars := by
  fun_induction blockComment? depth source generalizing lexeme with
  | case1 => cases h
  | case3 =>
      cases h
      rfl
  | case2 depth rest ih | case4 rest outer ih =>
      obtain ⟨inner, hi, rfl⟩ := Option.map_eq_some_iff.1 h
      simp only [Lexeme.after, List.cons_append, List.nil_append]
      rw [count_cons_of_not rfl, count_cons_of_not rfl, ih hi, Nat.zero_add]
  | case5 depth c rest _ _ ih =>
      obtain ⟨inner, hi, rfl⟩ := Option.map_eq_some_iff.1 h
      have hh : rest.head? = inner.chars.head? := by
        rw [← blockComment?_append hi, head?_append_of_ne_nil (blockComment?_ne_nil hi)]
      simp only [Lexeme.after, List.cons_append, List.nil_append]
      rw [count_cons, ih hi, lineEnds_congr hh]

theorem getLast?_blockComment? {depth : Nat} {source : List Char} {lexeme : Lexeme}
    (h : blockComment? depth source = some lexeme) : lexeme.chars.getLast? = some '/' := by
  fun_induction blockComment? depth source generalizing lexeme with
  | case1 => cases h
  | case3 =>
      cases h
      rfl
  | case2 _ _ ih | case4 _ _ ih | case5 _ _ _ _ _ ih =>
      obtain ⟨inner, hi, rfl⟩ := Option.map_eq_some_iff.1 h
      exact getLast?_after (ih hi)

/-- Reading a string of several lines passes the terminators that no escape takes. -/
theorem lines_of_multilineString? {source : List Char} {lexeme : Lexeme}
    (h : multilineString? source = some lexeme) :
    lexeme.lines + escapedEnds false lexeme.chars = count lexeme.chars := by
  have hh : ∀ {rest : List Char} {inner : Lexeme}, multilineString? rest = some inner →
      rest.head? = inner.chars.head? := by
    intro rest inner hi
    have hn : inner.chars ≠ [] := List.ne_nil_of_length_pos (by have := multilineString?_three hi; omega)
    rw [← multilineString?_append hi, head?_append_of_ne_nil hn]
  fun_induction multilineString? source generalizing lexeme with
  | case1 => cases h
  | case2 =>
      cases h
      rfl
  | case3 c rest ih =>
      obtain ⟨inner, hi, rfl⟩ := Option.map_eq_some_iff.1 h
      have he : escapes true c = false := Bool.and_false _
      simp only [Lexeme.after, List.cons_append, List.nil_append]
      rw [count_cons_of_not rfl, count_cons, ← ih hi]
      simp only [escapedEnds, he, show escapes false '\\' = true from rfl, if_true]
      simp
      omega
  | case4 c rest _ hescape ih =>
      obtain ⟨inner, hi, rfl⟩ := Option.map_eq_some_iff.1 h
      have hb : c ≠ '\\' := by
        rintro rfl
        cases rest with
        | nil => cases hi
        | cons d rest => exact hescape d rest rfl rfl
      have he : escapes false c = false := by simp [escapes, hb]
      simp only [Lexeme.after, List.cons_append, List.nil_append]
      rw [count_cons, ← ih hi, lineEnds_congr (hh hi), escapedEnds, he]
      simp
      omega

end Lexer

/-- The line terminators that escapes take in a string literal. -/
def Token.escapedEnds : Token → Nat
  | .stringLiteral text => Lexer.escapedEnds false text.toList
  | _ => 0

theorem Token.escapedEnds_le_count (token : Token) :
    token.escapedEnds ≤ Linebreak.count token.chars := by
  cases token with
  | stringLiteral text => exact Lexer.escapedEnds_le_count false text.toList
  | _ => exact Nat.zero_le _

namespace Lexer

open Linebreak

/-- What a step does with line terminators: it passes those of its token that no escape takes, its
token spans as many lines as it has terminators, and none is cut in two behind it. -/
structure Step.Counts (step : Step) : Prop where
  passed : step.lines + step.token.escapedEnds = count step.token.chars
  spanned : Scope.linesIn step.token = count step.token.chars
  uncut : step.token.chars.getLast? = some '\r' → step.rest.head? ≠ some '\n'

theorem Step.Counts.of_flat {step : Step} (h : ∀ c ∈ step.token.chars, isLineEnd c = false)
    (hl : step.lines = 0) : step.Counts where
  passed := by
    have := step.token.escapedEnds_le_count
    rw [count_eq_zero h] at this ⊢
    omega
  spanned := by
    have hc := count_eq_zero h
    rw [hc]
    cases ht : step.token with
    | linebreak ending =>
        rw [ht, Token.chars_linebreak] at hc
        cases ending <;> cases hc
    | blockComment text | stringLiteral text =>
        rw [ht] at hc
        exact hc
    | _ => rfl
  uncut := by
    intro hr
    have hc := h _ (List.mem_of_getLast? hr)
    cases hc

theorem count_linebreak (ending : Linebreak) : count ending.chars = 1 := by
  cases ending <;> rfl

theorem escapedEnds_quote (escaped : Bool) (rest : List Char) :
    escapedEnds escaped ('"' :: rest) = escapedEnds false rest :=
  escapedEnds_cons rfl (by decide) escaped rest

theorem counts_of_next {c : Char} {rest : List Char} {step : Step} (h : next c rest = .ok step) :
    step.Counts := by
  have hflat := Token.flat_of_next h
  have hlast : ∀ {text}, step.token = .stringLiteral text → text.toList.getLast? = some '"' :=
    Token.getLast?_of_next h
  cases reads_of_next h with
  | @linebreak ending after _ hcut =>
      have hc : count (Token.linebreak ending).chars = 1 := by
        rw [Token.chars_linebreak, count_linebreak]
      refine ⟨hc.symm, hc.symm, fun hr => hcut ?_⟩
      rw [Token.chars_linebreak] at hr
      cases ending with
      | cr => rfl
      | lf | crlf => cases hr
  | @blockComment _ lexeme _ hl =>
      have hc : count (Token.blockComment (String.ofList ('/' :: '*' :: lexeme.chars))).chars =
          lexeme.lines := by
        rw [Token.chars, Token.text, String.toList_ofList, count_cons_of_not rfl,
          count_cons_of_not rfl, lines_of_blockComment? hl]
      refine ⟨hc.symm, rfl, ?_⟩
      rw [Token.chars, Token.text, String.toList_ofList, List.getLast?_cons, List.getLast?_cons,
        getLast?_blockComment? hl]
      intro hr
      cases hr
  | multiline _ hl =>
      refine ⟨?_, rfl, fun hr => ?_⟩
      · rw [Token.escapedEnds, Token.chars, Token.text, String.toList_ofList, escapedEnds_quote,
          escapedEnds_quote, escapedEnds_quote, count_cons_of_not rfl, count_cons_of_not rfl,
          count_cons_of_not rfl]
        exact lines_of_multilineString? hl
      · cases (hlast rfl).symm.trans hr
  | @quoted lexeme _ hl =>
      refine ⟨?_, rfl, fun hr => ?_⟩
      · have he : EndsEscaped false lexeme.chars := endsEscaped_of_quotedString hl fun _ _ => rfl
        rw [Token.escapedEnds, Token.chars, Token.text, String.toList_ofList, escapedEnds_quote,
          count_cons_of_not rfl, he.escapedEnds_eq]
        exact Nat.zero_add _
      · cases (hlast rfl).symm.trans hr
  | space | lineComment | escaped | number | name | sign | opening | closing | separator | other =>
      exact .of_flat (hflat rfl rfl) rfl

theorem LexesUpTo.count_renderChars {rest source : List Char} {tokens : List Token}
    (h : LexesUpTo rest source tokens) :
    count (Token.renderChars tokens) = (tokens.map Scope.linesIn).sum := by
  induction h with
  | nil => rfl
  | @cons c following step tokens hs ht ih =>
      have hc := counts_of_next hs
      rw [Token.renderChars_cons, count_append, ih, List.map_cons, List.sum_cons, hc.spanned]
      intro hr hh
      apply hc.uncut hr
      rw [← ht.renderChars, List.head?_append, hh]
      rfl

/-- Source is refused where no token can be read, on the line that reading has come to. -/
theorem exists_of_tokensFrom_error {line : Nat} {source : List Char} {error : SyntaxError}
    (h : tokensFrom line source = .error error) :
    ∃ tokens c rest, LexesUpTo (c :: rest) source tokens ∧ next c rest = .error error.fault ∧
      error.line + (tokens.map Token.escapedEnds).sum = line + (tokens.map Scope.linesIn).sum := by
  fun_induction tokensFrom line source with
  | case1 => cases h
  | case2 line c rest fault hn =>
      cases h
      exact ⟨[], c, rest, .nil, hn, rfl⟩
  | case3 line c rest step hs _ ih =>
      have he : tokensFrom (line + step.lines) step.rest = .error error := by
        cases ht : tokensFrom (line + step.lines) step.rest with
        | error other =>
            rw [ht] at h
            cases h
            rfl
        | ok tokens =>
            rw [ht] at h
            cases h
      obtain ⟨tokens, d, following, hl, hn, hc⟩ := ih he
      refine ⟨step.token :: tokens, d, following, .cons hs hl, hn, ?_⟩
      have hp := (counts_of_next hs).passed
      rw [← (counts_of_next hs).spanned] at hp
      rw [List.map_cons, List.sum_cons, List.map_cons, List.sum_cons]
      omega

end Lexer

def Token.lineAfter (tokens : List Token) : Nat :=
  1 + Linebreak.count (renderChars tokens)

open Lexer Token

/-- Source is refused on the line of the token that cannot be read, less the line terminators that
escapes take in the string literals before it. -/
theorem tokenize_error_line {source : String} {error : SyntaxError}
    (h : tokenize source = .error error) :
    ∃ tokens c rest, LexesUpTo (c :: rest) source.toList tokens ∧
      source.toList = renderChars tokens ++ c :: rest ∧ next c rest = .error error.fault ∧
      error.line + (tokens.map Token.escapedEnds).sum = lineAfter tokens ∧
      (error.line = lineAfter tokens ↔ ∀ token ∈ tokens, token.escapedEnds = 0) := by
  obtain ⟨tokens, c, rest, hl, hn, hc⟩ := exists_of_tokensFrom_error h
  have hline : error.line + (tokens.map Token.escapedEnds).sum = lineAfter tokens := by
    rw [lineAfter, hl.count_renderChars]
    exact hc
  refine ⟨tokens, c, rest, hl, hl.renderChars.symm, hn, hline, ?_⟩
  have hz : (tokens.map Token.escapedEnds).sum = 0 ↔ ∀ token ∈ tokens, token.escapedEnds = 0 := by
    rw [List.sum_eq_zero_iff, List.forall_mem_map]
  rw [← hz]
  omega

theorem tokenize_error_line_escaped :
    ∃ tokens c rest, LexesUpTo (c :: rest) "\"\"\"\\\n\n\"\"\"\r\n\"a".toList tokens ∧
      "\"\"\"\\\n\n\"\"\"\r\n\"a".toList = renderChars tokens ++ c :: rest ∧
      next c rest = .error .unterminatedString ∧
      3 + (tokens.map Token.escapedEnds).sum = lineAfter tokens ∧
      (3 = lineAfter tokens ↔ ∀ token ∈ tokens, token.escapedEnds = 0) :=
  tokenize_error_line
    (show tokenize "\"\"\"\\\n\n\"\"\"\r\n\"a" = .error ⟨3, .unterminatedString⟩ by cbv)

/-- Behind a string of several lines that escapes a terminator, the line is one too small. -/
theorem tokenize_error_line_behind :
    ¬∀ source error, tokenize source = .error error →
      ∃ tokens c rest, LexesUpTo (c :: rest) source.toList tokens ∧
        next c rest = .error error.fault ∧ error.line = lineAfter tokens := by
  intro h
  have ht : tokenize "\"\"\"\\\n\"\"\"\n\"a" = .error ⟨2, .unterminatedString⟩ := by cbv
  obtain ⟨tokens, c, rest, hl, hn, hc⟩ := h _ _ ht
  have hs : "\"\"\"\\\n\"\"\"\n\"a".toList =
      ['"', '"', '"', '\\', '\n', '"', '"', '"', '\n', '"', 'a'] := by decide
  have hliteral : next '"' ['"', '"', '\\', '\n', '"', '"', '"', '\n', '"', 'a'] =
      .ok { token := .stringLiteral (String.ofList ['"', '"', '"', '\\', '\n', '"', '"', '"'])
            rest := ['\n', '"', 'a'] } := rfl
  have hend : next '\n' ['"', 'a'] =
      .ok { token := .linebreak .lf, rest := ['"', 'a'], lines := 1 } := rfl
  have hstop : next '"' ['a'] = .error .unterminatedString := rfl
  rw [hs] at hl
  cases hl.unique hn (.cons hliteral (.cons hend .nil)) hstop
  revert hc
  decide

end SourceStyle
