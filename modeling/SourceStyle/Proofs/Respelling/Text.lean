import Mathlib
import SourceStyle.Proofs.LineEnds
import SourceStyle.Proofs.Repetition
import SourceStyle.Proofs.Respelling.Indentation

/-!
The text of respelled tokens. Respelling a text respells its tokens one by one: no carriage return
at the end of one token meets a line feed at the beginning of the next.
-/

namespace SourceStyle

namespace Linebreak

theorem respell_append (ending : Linebreak) {first second : List Char}
    (h : first.getLast? = some '\r' → second.head? ≠ some '\n') :
    ending.respell (first ++ second) = ending.respell first ++ ending.respell second := by
  induction first with
  | nil => rfl
  | cons c rest ih =>
      have hr : rest.getLast? = some '\r' → second.head? ≠ some '\n' := by
        intro hl
        exact h (by rw [List.getLast?_cons, hl]; rfl)
      by_cases hc : c = '\r' ∨ c = '\n'
      · rcases hc with rfl | rfl
        · have hh : (rest ++ second).head? = some '\n' ↔ rest.head? = some '\n' := by
            cases rest with
            | nil => simpa using h rfl
            | cons d rest => rfl
          rw [List.cons_append, respell_cr_cons, respell_cr_cons, ih hr]
          simp only [hh]
          split
          · rfl
          · rw [List.append_assoc]
        · rw [List.cons_append, respell_lf_cons, respell_lf_cons, ih hr, List.append_assoc]
      · rw [List.cons_append, respell_cons_of_not hc, respell_cons_of_not hc, ih hr]
        rfl

end Linebreak

namespace Lexer

theorem getLast?_after {taken : List Char} {lines : Nat} {lexeme : Lexeme} {c : Char}
    (h : lexeme.chars.getLast? = some c) : (lexeme.after taken lines).chars.getLast? = some c := by
  rw [Lexeme.after, List.getLast?_append, h]
  rfl

theorem getLast?_multilineString? {source : List Char} {lexeme : Lexeme}
    (h : multilineString? source = some lexeme) : lexeme.chars.getLast? = some '"' := by
  fun_induction multilineString? source generalizing lexeme with
  | case1 => cases h
  | case2 =>
      cases h
      rfl
  | case3 _ _ ih | case4 _ _ _ _ ih =>
      obtain ⟨inner, hi, rfl⟩ := Option.map_eq_some_iff.1 h
      exact getLast?_after (ih hi)

theorem getLast?_map_after {result : Except SyntaxFault Lexeme} {taken : List Char} {lines : Nat}
    {lexeme : Lexeme} (h : result.map (.after taken lines) = .ok lexeme)
    (ih : ∀ {inner}, result = .ok inner → inner.chars.getLast? = some '"') :
    lexeme.chars.getLast? = some '"' := by
  cases result with
  | error => cases h
  | ok inner =>
      cases h
      exact getLast?_after (ih rfl)

theorem getLast?_quotedString {state : QuoteState} {source : List Char} {lexeme : Lexeme}
    (h : quotedString state source = .ok lexeme) : lexeme.chars.getLast? = some '"' := by
  fun_induction quotedString state source generalizing lexeme with
  | case1 | case6 | case8 | case13 => cases h
  | case2 =>
      cases h
      rfl
  | case3 _ _ _ ih | case4 _ _ ih | case9 _ _ _ ih | case10 _ _ ih | case11 _ _ _ ih
  | case12 _ _ _ ih | case5 _ _ _ _ ih => exact getLast?_map_after h ih
  | case7 | case14 =>
      rename_i ih
      exact getLast?_map_after h ih

end Lexer

namespace Token

/-- What can be told of the characters that end a token. -/
def Sealed : Token → Prop
  | .number text => ∀ c ∈ text.toList, Lexer.isLineEnd c = false
  | .identifier text | .stringLiteral text => text.toList.getLast? ≠ some '\r'
  | _ => True

theorem getLast?_ne_return {text : List Char} (h : ∀ c ∈ text, Lexer.isLineEnd c = false) :
    text.getLast? ≠ some '\r' := by
  intro hl
  exact absurd (h _ (List.mem_of_getLast? hl)) (by decide)

/-- A string literal ends in the quote that closes it. -/
theorem getLast?_of_next {c : Char} {rest : List Char} {step : Lexer.Step} {text : String}
    (h : Lexer.next c rest = .ok step) (ht : step.token = .stringLiteral text) :
    text.toList.getLast? = some '"' := by
  cases Lexer.reads_of_next h with
  | multiline _ hl =>
      cases ht
      rw [String.toList_ofList, List.getLast?_cons, List.getLast?_cons, List.getLast?_cons,
        Lexer.getLast?_multilineString? hl]
      rfl
  | quoted _ hl =>
      cases ht
      rw [String.toList_ofList, List.getLast?_cons, Lexer.getLast?_quotedString hl]
      rfl
  | _ => cases ht

theorem sealed_of_next {c : Char} {rest : List Char} {step : Lexer.Step}
    (h : Lexer.next c rest = .ok step) : Sealed step.token := by
  have hflat := flat_of_next h
  cases ht : step.token with
  | number text =>
      rw [ht] at hflat
      exact hflat rfl rfl
  | identifier text =>
      rw [ht] at hflat
      exact getLast?_ne_return (hflat rfl rfl)
  | stringLiteral text =>
      intro hr
      cases (getLast?_of_next h ht).symm.trans hr
  | _ => trivial

/-- The numbers among tokens change letter case, and no other token ends otherwise than before. -/
theorem kept_sealed (options : Options) : Rule.Kept options Sealed where
  terminator := trivial
  space _ _ _ := trivial
  comma := trivial
  name := by
    rw [Sealed]
    decide
  opening := trivial
  closing := trivial
  respelled token h := by
    cases token with
    | linebreak => trivial
    | blockComment => trivial
    | _ => exact h
  recased token h := by
    rcases Rule.recaseHex_cases options token with he | ⟨x, digits, -, rfl, he⟩
    · rwa [he]
    · have hs : ∀ c ∈ digits, Lexer.isLineEnd c = false := fun c hm => h c (by simp [hm])
      rw [he, Sealed, String.toList_ofList, List.forall_mem_cons, List.forall_mem_cons]
      exact ⟨rfl, rfl, Text.not_of_mem_recase Text.toNat_of_isLineEnd options hs⟩
  reindented level token h := by
    cases token with
    | blockComment => trivial
    | _ => exact h
  trimmed _ _ := trivial

/-- Of sealed tokens only terminators and block comments may end in a carriage return. -/
theorem Sealed.getLast?_ne {token : Token} (h : Sealed token)
    (hb : Lexer.Begins token token.chars) (hl : token.isLinebreak = false)
    (hc : token.isBlockComment = false) : token.chars.getLast? ≠ some '\r' := by
  cases token with
  | identifier text => exact h
  | stringLiteral text => exact h
  | number text => exact getLast?_ne_return h
  | linebreak => cases hl
  | blockComment => cases hc
  | _ => exact getLast?_ne_return (flat_of_begins hb rfl rfl rfl)

theorem forall_mem_of_tokenize {P : Token → Prop}
    (hp : ∀ {c rest step}, Lexer.next c rest = .ok step → P step.token) {source : String}
    {tokens : List Token} (h : tokenize source = .ok tokens) : ∀ token ∈ tokens, P token := by
  intro token hm
  obtain ⟨before, after, rfl⟩ := List.append_of_mem hm
  obtain ⟨c, more, lines, -, hn⟩ := (tokenize_eq_ok_iff.1 h).scans
  exact hp hn

/-- Texts are respelled token by token where no terminator is cut in two. -/
theorem respell_renderChars (ending : Linebreak) {tokens : List Token}
    (hb : ∀ token ∈ tokens, Lexer.Begins token token.chars)
    (h : ∀ first ∈ tokens, ∀ second ∈ tokens,
      first.chars.getLast? = some '\r' → second.chars.head? ≠ some '\n') :
    ending.respell (renderChars tokens) = tokens.flatMap (ending.respell ·.chars) := by
  induction tokens with
  | nil => rfl
  | cons token rest ih =>
      rw [List.forall_mem_cons] at hb
      have hr := ih hb.2 fun first hf second hs =>
        h first (List.mem_cons_of_mem _ hf) second (List.mem_cons_of_mem _ hs)
      rw [renderChars_cons, Linebreak.respell_append, hr, List.flatMap_cons]
      intro hl
      cases rest with
      | nil => simp [renderChars]
      | cons second rest =>
          rw [Lexer.renderChars_head? (hb.2 second List.mem_cons_self)]
          exact h token List.mem_cons_self second (by simp) hl

end Token

namespace Rule

open Token

theorem respell_renderChars_run (ending : Linebreak) (options : Options) {source : String}
    {tokens : List Token} (h : tokenize source = .ok tokens) :
    ending.respell (renderChars (run all options tokens)) =
      (run all options tokens).flatMap (ending.respell ·.chars) := by
  have hb : ∀ token ∈ run all options tokens, Lexer.Begins token token.chars := fun token hm =>
    ((presentable_run options (presentable_of_tokenize h)).readable token hm).begins
  have hs := (kept_sealed options).forall_mem_run (forall_mem_of_tokenize sealed_of_next h)
  have hr := respelled_run options tokens
  refine respell_renderChars ending hb fun first hf second hm hl hn => ?_
  have he : options.linebreak = .lf := by
    have hk := Lexer.isLinebreak_of_isLineEnd (hb second hm) hn rfl
    have hu := hr second hm
    cases second with
    | linebreak other =>
        rw [← hu, respellToken, chars_linebreak] at hn
        cases ho : options.linebreak with
        | lf => rfl
        | _ =>
            rw [ho] at hn
            exact absurd hn (by decide)
    | _ => cases hk
  rw [he] at hr
  have hu := hr first hf
  cases first with
  | linebreak other =>
      rw [← hu, respellToken, chars_linebreak] at hl
      exact absurd hl (by decide)
  | blockComment text =>
      rw [← hu, respellToken, chars, Token.text, String.toList_ofList] at hl
      exact absurd (Linebreak.mem_respell (List.mem_of_getLast? hl)) (by decide)
  | _ => exact (hs _ hf).getLast?_ne (hb _ hf) rfl rfl hl

end Rule
end SourceStyle
