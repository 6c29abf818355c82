import Mathlib
import SourceStyle.Token.Lexer

/-!
Reading as a relation between characters and tokens, one step a token. Lines matter to errors
alone, so they are left out of it. Nothing is lost: the tokens of a source render to it.
-/

namespace SourceStyle

namespace Lexer

/-- The characters read as exactly these tokens. -/
inductive Lexes : List Char → List Token → Prop
  | nil : Lexes [] []
  | cons {c : Char} {rest : List Char} {step : Step} {tokens : List Token} :
      next c rest = .ok step → Lexes step.rest tokens → Lexes (c :: rest) (step.token :: tokens)

theorem lexes_of_tokensFrom {line : Nat} {source : List Char} {tokens : List Token}
    (h : tokensFrom line source = .ok tokens) : Lexes source tokens := by
  fun_induction tokensFrom line source generalizing tokens with
  | case1 =>
      cases h
      exact .nil
  | case2 => cases h
  | case3 line c rest step hs _ ih =>
      cases ht : tokensFrom (line + step.lines) step.rest with
      | error fault => simp [ht, Except.map] at h
      | ok following =>
          simp only [ht, Except.map, Except.ok.injEq] at h
          subst h
          exact .cons hs (ih ht)

theorem tokensFrom_of_next {c : Char} {rest : List Char} {step : Step}
    (h : next c rest = .ok step) (line : Nat) :
    tokensFrom line (c :: rest) =
      (tokensFrom (line + step.lines) step.rest).map (step.token :: ·) := by
  rw [Lexer.tokensFrom]
  split
  · rename_i fault he
    cases h.symm.trans he
  · rename_i other he
    cases h.symm.trans he
    rfl

theorem tokensFrom_of_next_error {c : Char} {rest : List Char} {fault : SyntaxFault}
    (h : next c rest = .error fault) (line : Nat) :
    tokensFrom line (c :: rest) = .error { line, fault } := by
  rw [Lexer.tokensFrom]
  split
  · rename_i other he
    cases h.symm.trans he
    rfl
  · rename_i step he
    cases h.symm.trans he

theorem Lexes.tokensFrom {source : List Char} {tokens : List Token} (h : Lexes source tokens)
    (line : Nat) : tokensFrom line source = .ok tokens := by
  induction h generalizing line with
  | nil => rw [Lexer.tokensFrom]
  | cons hs _ ih =>
      rw [tokensFrom_of_next hs, ih]
      rfl

theorem Lexes.renderChars {source : List Char} {tokens : List Token} (h : Lexes source tokens) :
    Token.renderChars tokens = source := by
  induction h with
  | nil => rfl
  | cons hs _ ih =>
      obtain ⟨more, hc, hr⟩ := next_takes hs
      rw [Token.renderChars_cons, ih, hc, List.cons_append, hr]

/-- Reading takes exactly these tokens off the front of the characters and comes to the rest. -/
inductive LexesUpTo (rest : List Char) : List Char → List Token → Prop
  | nil : LexesUpTo rest rest []
  | cons {c : Char} {following : List Char} {step : Step} {tokens : List Token} :
      next c following = .ok step → LexesUpTo rest step.rest tokens →
      LexesUpTo rest (c :: following) (step.token :: tokens)

theorem LexesUpTo.renderChars {rest source : List Char} {tokens : List Token}
    (h : LexesUpTo rest source tokens) : Token.renderChars tokens ++ rest = source := by
  induction h with
  | nil => rfl
  | cons hs _ ih =>
      obtain ⟨more, hc, hr⟩ := next_takes hs
      rw [Token.renderChars_cons, List.append_assoc, ih, hc, List.cons_append, hr]

theorem LexesUpTo.append {rest following source : List Char} {tokens more : List Token}
    (h : LexesUpTo following source tokens) (k : LexesUpTo rest following more) :
    LexesUpTo rest source (tokens ++ more) := by
  induction h with
  | nil => exact k
  | cons hs _ ih => exact .cons hs ih

theorem LexesUpTo.lexes {rest source : List Char} {tokens more : List Token}
    (h : LexesUpTo rest source tokens) (k : Lexes rest more) : Lexes source (tokens ++ more) := by
  induction h with
  | nil => exact k
  | cons hs _ ih => exact .cons hs ih

theorem Lexes.upTo {source : List Char} {before after : List Token}
    (h : Lexes source (before ++ after)) :
    LexesUpTo (Token.renderChars after) source before := by
  induction before generalizing source with
  | nil =>
      rw [← h.renderChars, List.nil_append]
      exact .nil
  | cons token before ih =>
      cases h with
      | cons hs ht => exact .cons hs (ih ht)

theorem LexesUpTo.tokensFrom_error {c : Char} {rest source : List Char} {tokens : List Token}
    {fault : SyntaxFault} (h : LexesUpTo (c :: rest) source tokens)
    (hn : next c rest = .error fault) (line : Nat) :
    ∃ error, tokensFrom line source = .error error ∧ error.fault = fault := by
  induction h generalizing line with
  | nil => exact ⟨_, tokensFrom_of_next_error hn line, rfl⟩
  | @cons d following step tokens hs _ ih =>
      obtain ⟨error, he, hf⟩ := ih (line + step.lines)
      refine ⟨error, ?_, hf⟩
      rw [tokensFrom_of_next hs, he]
      rfl

/-- There is one place at most where no token can be read. -/
theorem LexesUpTo.unique {c d : Char} {rest following source : List Char}
    {tokens others : List Token} {fault other : SyntaxFault}
    (h : LexesUpTo (c :: rest) source tokens) (hn : next c rest = .error fault)
    (k : LexesUpTo (d :: following) source others) (kn : next d following = .error other) :
    tokens = others := by
  induction h generalizing others with
  | nil =>
      cases k with
      | nil => rfl
      | cons hs _ => cases hn.symm.trans hs
  | cons hs _ ih =>
      cases k with
      | nil => cases kn.symm.trans hs
      | cons ks kt =>
          cases hs.symm.trans ks
          rw [ih kt]

theorem Lexes.chars_ne_nil {source : List Char} {tokens : List Token} (h : Lexes source tokens) :
    ∀ token ∈ tokens, token.chars ≠ [] := by
  induction h with
  | nil => simp
  | cons hs _ ih =>
      obtain ⟨more, hc, -⟩ := next_takes hs
      simpa [hc] using ih

end Lexer

theorem tokenize_eq_ok_iff {source : String} {tokens : List Token} :
    tokenize source = .ok tokens ↔ Lexer.Lexes source.toList tokens :=
  ⟨Lexer.lexes_of_tokensFrom, fun h => h.tokensFrom 1⟩

/-- Reading loses nothing and always moves on. -/
theorem tokenize_lossless {source : String} {tokens : List Token}
    (h : tokenize source = .ok tokens) :
    Token.render tokens = source ∧ ∀ token ∈ tokens, token.text ≠ "" := by
  have hl := tokenize_eq_ok_iff.1 h
  refine ⟨?_, fun token hm he => hl.chars_ne_nil token hm ?_⟩
  · rw [Token.render, hl.renderChars, String.ofList_toList]
  · simp [Token.chars, he]

set_option maxRecDepth 4000 in
theorem tokenize_lossless_interpolation :
    Token.render
        [.identifier "print", .opening .round,
         .stringLiteral "\"a\\(f(\"b\\n\"))\"", .closing .round, .linebreak .crlf] =
      "print(\"a\\(f(\"b\\n\"))\")\r\n" ∧
    ∀ token ∈ [Token.identifier "print", .opening .round,
         .stringLiteral "\"a\\(f(\"b\\n\"))\"", .closing .round, .linebreak .crlf],
      token.text ≠ "" :=
  tokenize_lossless (by cbv)

end SourceStyle
