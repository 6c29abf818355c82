import SourceStyle.Proofs.LineNumbers

/-!
Text put together at the end of a line. A token that has ended does not look past a line feed, so
what stands in front of one reads as it does alone, and so does what stands behind it, on lines that
are counted on.
-/

namespace SourceStyle

namespace Lexer

/-- A line feed behind other characters is not looked at. -/
theorem any_head?_lineFeed {p : Char → Bool} (hp : p '\n' = false) (after rest : List Char) :
    (after ++ '\n' :: rest).head?.any p = after.head?.any p := by
  cases after with
  | nil => exact hp
  | cons c after => rfl

theorem Stops.lineFeed {p : Char → Bool} (hp : p '\n' = false) {after : List Char}
    (h : Stops p after) (rest : List Char) : Stops p (after ++ '\n' :: rest) := by
  cases after with
  | nil =>
      rintro c ⟨⟩
      exact hp
  | cons c after => exact h

theorem numberTail_lineFeed {after : List Char} (h : (numberTail after).1 = [])
    (rest : List Char) : (numberTail (after ++ '\n' :: rest)).1 = [] := by
  cases after with
  | nil =>
      have hn : isIdentifierTail '\n' = false := by decide
      simp [numberTail_cons, hn]
  | cons c after =>
      rw [numberTail_cons] at h
      rw [List.cons_append, numberTail_cons, any_head?_lineFeed (by decide)]
      split at h
      · cases h
      · rw [if_neg ‹_›]

theorem operatorTail_lineFeed {after : List Char} (h : (operatorTail after).1 = [])
    (rest : List Char) : (operatorTail (after ++ '\n' :: rest)).1 = [] := by
  cases after with
  | nil => rfl
  | cons c after =>
      rw [operatorTail_cons, opensComment] at h
      rw [List.cons_append, operatorTail_cons, opensComment, any_head?_lineFeed (by decide)]
      split at h
      · rw [if_pos ‹_›]
      · cases h

/-- A token that ends also ends with a line feed behind what follows it. Only a carriage return
that nothing follows would go on with the line feed. -/
theorem Ends.lineFeed {token : Token} {after : List Char} (h : Ends token after)
    (hr : token = .linebreak .cr → after ≠ []) (rest : List Char) :
    Ends token (after ++ '\n' :: rest) := by
  cases token with
  | whitespace text => exact Stops.lineFeed (by decide) h rest
  | linebreak ending =>
      cases ending with
      | cr =>
          cases after with
          | nil => exact absurd rfl (hr rfl)
          | cons c after => exact h
      | lf => trivial
      | crlf => trivial
  | identifier name => exact fun hn => (h hn).lineFeed (by decide) rest
  | number text => exact numberTail_lineFeed h rest
  | stringLiteral text =>
      intro ht hq
      cases after with
      | nil => cases hq
      | cons c after => exact h ht hq
  | operator text =>
      intro ho
      refine ⟨operatorTail_lineFeed (h ho).1 rest, fun hs => ?_⟩
      rw [opensComment, any_head?_lineFeed (by decide)]
      exact (h ho).2 hs
  | lineComment text => exact Stops.lineFeed (by decide) h rest
  | _ => trivial

/-- Source that reads by itself reads as the same tokens in front of a line feed. -/
theorem Lexes.upTo_lineFeed {source : List Char} {tokens : List Token} (h : Lexes source tokens)
    (hr : source.getLast? ≠ some '\r') (rest : List Char) :
    LexesUpTo ('\n' :: rest) (source ++ '\n' :: rest) tokens := by
  induction h with
  | nil => exact .nil
  | @cons c following step tokens hs _ ih =>
      obtain ⟨more, hc, rfl⟩ := next_takes hs
      have hscans : Scans step.token step.rest := ⟨c, more, step.lines, hc, hs⟩
      have hends : Ends step.token (step.rest ++ '\n' :: rest) := by
        refine ((hscans.iff_ends step.rest).1 hscans).lineFeed ?_ rest
        intro ht hn
        rw [ht, Token.chars_linebreak] at hc
        rw [hn, List.append_nil, ← hc] at hr
        exact hr rfl
      have htail : step.rest.getLast? ≠ some '\r' := by
        intro hl
        rw [← List.cons_append, List.getLast?_append, hl] at hr
        exact hr rfl
      obtain ⟨lines, hn⟩ := (scans_iff hc _).1 ((hscans.iff_ends _).2 hends)
      rw [List.cons_append, List.append_assoc]
      exact @LexesUpTo.cons _ c _ { token := step.token, rest := _, lines } _ hn (ih htail)

/-- Behind the line feed reading begins anew. -/
theorem Lexes.upTo_next_line {source : List Char} {tokens : List Token} (h : Lexes source tokens)
    (hr : source.getLast? ≠ some '\r') (rest : List Char) :
    LexesUpTo rest (source ++ '\n' :: rest) (tokens ++ [.linebreak .lf]) := by
  have hn : next '\n' rest = .ok { token := .linebreak .lf, rest, lines := 1 } := rfl
  exact (h.upTo_lineFeed hr rest).append (.cons hn .nil)

end Lexer

open Lexer Token

theorem toList_append_line (first second : String) :
    (first ++ "\n" ++ second).toList = first.toList ++ '\n' :: second.toList := by
  simp

/-- Behind source that reads and a line feed, a text is read as it is alone, or refused for the same
fault on a line counted on. As in any refusal, terminators that escapes take are not counted. -/
theorem tokenize_append_line {first : String} {tokens : List Token}
    (h : tokenize first = .ok tokens) (hr : first.toList.getLast? ≠ some '\r') (second : String) :
    (∀ more, tokenize second = .ok more →
      tokenize (first ++ "\n" ++ second) = .ok (tokens ++ [.linebreak .lf] ++ more)) ∧
    ∀ error, tokenize second = .error error →
      ∃ line, tokenize (first ++ "\n" ++ second) = .error { error with line } ∧
        line + (tokens.map Token.escapedEnds).sum = lineAfter tokens + error.line := by
  have hl := tokenize_eq_ok_iff.1 h
  have hup := hl.upTo_next_line hr second.toList
  rw [← toList_append_line] at hup
  constructor
  · intro more hm
    exact tokenize_eq_ok_iff.2 (hup.lexes (tokenize_eq_ok_iff.1 hm))
  · intro error he
    obtain ⟨behind, c, rest, hbehind, hn, hline⟩ := exists_of_tokensFrom_error he
    have hstop := hup.append hbehind
    obtain ⟨joined, hj, hf⟩ := hstop.tokensFrom_error hn 1
    obtain ⟨read, d, following, hread, hd, hjoined⟩ := exists_of_tokensFrom_error hj
    obtain rfl := hread.unique hd hstop hn
    refine ⟨joined.line, ?_, ?_⟩
    · rw [tokenize, hj, ← hf]
    · have hcount : lineAfter tokens = 1 + (tokens.map Scope.linesIn).sum := by
        rw [lineAfter, (hl.upTo_lineFeed hr []).count_renderChars]
      simp only [List.map_append, List.map_cons, List.map_nil, List.sum_append, List.sum_cons,
        List.sum_nil, Scope.linesIn, Token.escapedEnds] at hjoined
      omega

/-- A literal that escapes a terminator, and a number with a point behind it. -/
def firstText : String :=
  "\"\"\"\\\n\"\"\"+1."

def firstTokens : List Token :=
  [.stringLiteral "\"\"\"\\\n\"\"\"", .operator "+", .number "1", .operator "."]

set_option maxRecDepth 4000 in
theorem tokenize_append_line_point :
    tokenize firstText = .ok firstTokens ∧ firstText.toList.getLast? ≠ some '\r' ∧
      tokenize "5/*\r*/" = .ok [.number "5", .blockComment "/*\r*/"] ∧
      tokenize (firstText ++ "\n" ++ "5/*\r*/") =
        .ok (firstTokens ++ [.linebreak .lf] ++ [.number "5", .blockComment "/*\r*/"]) ∧
      tokenize "\r\"" = .error { line := 2, fault := .unterminatedString } ∧
      tokenize (firstText ++ "\n" ++ "\r\"") =
        .error { line := 3, fault := .unterminatedString } := by
  have h : tokenize firstText = .ok firstTokens := by cbv
  have hr : firstText.toList.getLast? ≠ some '\r' := by decide
  have hread : tokenize "5/*\r*/" = .ok [.number "5", .blockComment "/*\r*/"] := by cbv
  have hopen : tokenize "\r\"" = .error { line := 2, fault := .unterminatedString } := by cbv
  obtain ⟨line, hj, hline⟩ := (tokenize_append_line h hr "\r\"").2 _ hopen
  have hescaped : (firstTokens.map Token.escapedEnds).sum = 1 := by decide
  have hafter : lineAfter firstTokens = 2 := by decide
  obtain rfl : line = 3 := by
    simp only [hescaped, hafter] at hline
    omega
  exact ⟨h, hr, hread, (tokenize_append_line h hr "5/*\r*/").1 _ hread, hopen, hj⟩

end SourceStyle
