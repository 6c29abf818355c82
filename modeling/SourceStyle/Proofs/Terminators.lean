import Mathlib
import SourceStyle.Proofs.Essence.Preservation
import SourceStyle.Proofs.Repetition

/-!
Formatted source has one kind of line terminator, in comments too. Terminators inside string
literals are left as they are, and so is everything else in them.
-/

namespace SourceStyle

namespace Linebreak

/-- Whether every line terminator in a text is the given one. -/
def Only (ending : Linebreak) (text : List Char) : Prop :=
  match ending with
  | cr => '\n' ∉ text
  | lf => '\r' ∉ text
  | crlf => ∀ before after,
      (text = before ++ '\r' :: after → after.head? = some '\n') ∧
      (text = before ++ '\n' :: after → before.getLast? = some '\r')

theorem only_crlf_cons {c : Char} (hc : ¬(c = '\r' ∨ c = '\n')) {text : List Char}
    (h : crlf.Only text) : crlf.Only (c :: text) := by
  intro before after
  cases before with
  | nil =>
      constructor
      · intro he
        exact absurd (.inl (List.cons.inj he).1) hc
      · intro he
        exact absurd (.inr (List.cons.inj he).1) hc
  | cons d before =>
      obtain ⟨hr, hn⟩ := h before after
      constructor
      · intro he
        exact hr (List.cons.inj he).2
      · intro he
        rw [List.getLast?_cons, hn (List.cons.inj he).2]
        rfl

theorem only_crlf_terminator {text : List Char} (h : crlf.Only text) :
    crlf.Only ('\r' :: '\n' :: text) := by
  intro before after
  match before with
  | [] =>
      constructor
      · intro he
        rw [← (List.cons.inj he).2]
        rfl
      · intro he
        exact absurd (List.cons.inj he).1 (by decide)
  | [c] =>
      constructor
      · intro he
        exact absurd (List.cons.inj (List.cons.inj he).2).1 (by decide)
      · intro he
        rw [← (List.cons.inj he).1]
        rfl
  | c :: d :: before =>
      obtain ⟨hr, hn⟩ := h before after
      constructor
      · intro he
        exact hr (List.cons.inj (List.cons.inj he).2).2
      · intro he
        rw [List.getLast?_cons, List.getLast?_cons, hn (List.cons.inj (List.cons.inj he).2).2]
        rfl

theorem only_respell (ending : Linebreak) (text : List Char) :
    ending.Only (ending.respell text) := by
  cases ending with
  | cr => exact fun h => absurd (mem_respell h) (by decide)
  | lf => exact fun h => absurd (mem_respell h) (by decide)
  | crlf =>
      fun_induction respell crlf text with
      | case1 => exact fun before after => by simp
      | case2 rest ih => exact only_crlf_terminator ih
      | case3 c rest _ _ ih => exact only_crlf_terminator ih
      | case4 c rest _ hc ih => exact only_crlf_cons hc ih

end Linebreak

namespace Token

def isLiteral : Token → Bool
  | stringLiteral _ => true
  | _ => false

def literals (tokens : List Token) : List Token :=
  tokens.filter isLiteral

theorem literals_cons_congr (token : Token) {first second : List Token}
    (h : literals first = literals second) :
    literals (token :: first) = literals (token :: second) := by
  rw [literals, literals, List.filter_cons, List.filter_cons, ← literals, ← literals, h]

@[simp] theorem literals_append (first second : List Token) :
    literals (first ++ second) = literals first ++ literals second :=
  List.filter_append ..

end Token

namespace Essence

open Token Rule

theorem literals_content (tokens : List Token) : literals (content tokens) = literals tokens := by
  induction tokens with
  | nil => rfl
  | cons token tokens ih =>
      rw [content_cons]
      split
      · rename_i hl
        rw [ih]
        cases token <;> first | rfl | cases hl
      · rw [literals_cons_congr _ ih]
        cases token <;> rfl

theorem literals_dropSemicolons (nesting : Nat) (tokens : List Token) :
    literals (dropSemicolons nesting tokens) = literals tokens := by
  induction tokens generalizing nesting with
  | nil => rfl
  | cons token tokens ih =>
      rw [dropSemicolons]
      split
      · rename_i hs
        rw [ih, hs.1]
        rfl
      · exact literals_cons_congr token (ih _)

theorem literals_dropCommas (tokens : List Token) : literals (dropCommas tokens) = literals tokens := by
  induction tokens with
  | nil => rfl
  | cons token tokens ih =>
      rw [dropCommas]
      split
      · rename_i hs
        rw [ih, hs.1]
        rfl
      · exact literals_cons_congr token ih

theorem literals_spellOutVoid (arrow : Bool) (tokens : List Token) :
    literals (spellOutVoid arrow tokens) = literals tokens := by
  induction tokens generalizing arrow with
  | nil => rfl
  | cons token tokens ih =>
      rw [spellOutVoid]
      split
      · rename_i hv
        rw [hv.2]
        exact ih false
      · exact literals_cons_congr token (ih _)

theorem literals_essence (tokens : List Token) : literals (essence tokens) = literals tokens := by
  rw [essence, literals_spellOutVoid, core, literals_dropCommas, literals_dropSemicolons,
    literals_content]

theorem Sheds.literals {options : Options} {first second : List Token}
    (h : Sheds options first second) : literals second = literals first := by
  obtain ⟨removed, -, hf, he⟩ := h
  have hc : ∀ token ∈ removed, token.isComment = true := by
    intro token hm
    have hm' : token ∈ front first := hf ▸ List.mem_append_left _ hm
    exact List.mem_takeWhile_imp hm'
  have hn : Token.literals removed = [] := by
    refine List.filter_eq_nil_iff.2 fun token hm => ?_
    have ht := hc token hm
    cases token <;> first | exact Bool.false_ne_true | cases ht
  rw [← literals_essence first, he, literals_append, hn, List.nil_append, literals_essence]

end Essence

namespace Rule

open Token

theorem literals_hexLiterals (options : Options) (tokens : List Token) :
    literals (hexLiterals options tokens) = literals tokens := by
  induction tokens with
  | nil => rfl
  | cons token tokens ih =>
      rw [hexLiterals] at ih
      rw [hexLiterals, List.map_cons, literals_cons_congr _ ih]
      cases token with
      | number text =>
          rw [recaseHex]
          split <;> rfl
      | _ => rfl

theorem literals_apply (options : Options) {rule : Rule} (hr : rule ∈ all) (tokens : List Token) :
    literals (rule.apply options tokens) = literals tokens := by
  by_cases hx : rule.name = "hexLiterals"
  · have ha : rule.apply = hexLiterals := by
      cases hr using mem_all_cases with
      | hexLiterals => rfl
      | _ => exact absurd hx (by decide)
    rw [ha]
    exact literals_hexLiterals options tokens
  · exact (Essence.sheds_apply options hr fun h => absurd h hx).literals

/-- Rules in any order leave string literals as they are. -/
theorem literals_applyAll (options : Options) {rules : List Rule}
    (hr : ∀ rule ∈ rules, rule ∈ all) (tokens : List Token) :
    literals (applyAll rules options tokens) = literals tokens := by
  let Holds (result : List Token) : Prop := literals result = literals tokens
  have hs : ∀ rule ∈ all, ∀ result, Holds result → Holds (rule.apply options result) :=
    fun rule hm result h => (literals_apply options hm result).trans h
  exact applyAll_induction hs hr rfl

end Rule

open Token

theorem format_eq_ok {rules : List Rule} {options : Options} {source out : String} :
    format rules options source = .ok out ↔ ∃ tokens, readTokens options source = .ok tokens ∧
      out = render (Rule.run rules options tokens) := by
  unfold format
  cases readTokens options source with
  | error fault => simp [Except.map]
  | ok tokens => simp [Except.map, eq_comm]

/-- Formatted source has one line terminator, alone and inside block comments, and the string
literals that were read. -/
theorem format_terminators {options : Options} {source out : String}
    (h : format Rule.all options source = .ok out) :
    ∃ tokens, readTokens options source = .ok tokens ∧
      out = render (Rule.run Rule.all options tokens) ∧
      (∀ token ∈ Rule.run Rule.all options tokens, token.isLinebreak = true →
        token.text = options.linebreak.text) ∧
      (∀ text, .blockComment text ∈ Rule.run Rule.all options tokens →
        options.linebreak.Only text.toList) ∧
      literals (Rule.run Rule.all options tokens) = literals tokens := by
  obtain ⟨tokens, hr, ho⟩ := format_eq_ok.1 h
  refine ⟨tokens, hr, ho, ?_, ?_, ?_⟩
  · intro token hm ht
    have hs := Rule.respelled_run options tokens token hm
    cases token with
    | linebreak ending => rw [← Token.linebreak.inj hs, text]
    | _ => cases ht
  · intro text hm
    have hs := Token.blockComment.inj (Rule.respelled_run options tokens _ hm)
    rw [← hs, String.toList_ofList]
    exact Linebreak.only_respell options.linebreak text.toList
  · exact Rule.literals_applyAll options (fun _ hm => (List.mem_filter.1 hm).1) tokens

set_option maxRecDepth 10000 in
theorem format_terminators_mixed :
    ∃ tokens, readTokens { linebreak := .crlf } "/*a\n\r\n*/\r\"\"\"\n\"\"\"" = .ok tokens ∧
      "/*a\r\n\r\n */\r\n\"\"\"\n\"\"\"" =
        render (Rule.run Rule.all { linebreak := .crlf } tokens) ∧
      (∀ token ∈ Rule.run Rule.all { linebreak := .crlf } tokens, token.isLinebreak = true →
        token.text = Linebreak.crlf.text) ∧
      (∀ text, .blockComment text ∈ Rule.run Rule.all { linebreak := .crlf } tokens →
        Linebreak.crlf.Only text.toList) ∧
      literals (Rule.run Rule.all { linebreak := .crlf } tokens) = literals tokens :=
  format_terminators (by cbv)

end SourceStyle
