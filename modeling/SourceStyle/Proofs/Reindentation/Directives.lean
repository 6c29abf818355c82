import Mathlib
import SourceStyle.Proofs.Essence
import SourceStyle.Proofs.Reindentation.Lines

/-!
Indentation of directives. Where directives open no scopes, their own lines alone tell whether they
stand at the margin; and where no line begins with a directive, it does not matter what becomes of
directives.
-/

namespace SourceStyle

namespace Rule

open Token

def lineDirective? (line : List Token) : Option Directive :=
  (skipSpace line).head?.bind directive?

/-- The token without the space at the beginning of its later lines, if it is a block comment. -/
def flushToken : Token → Token
  | .blockComment text => .blockComment (String.ofList (Essence.flushLines text.toList))
  | token => token

/-- Lines are the same, but a line that begins with a directive begins at the margin on the one side
and perhaps with space on the other, and so do the later lines of its comments. -/
def SameButDirective (inside margin : List Token) : Prop :=
  if (lineDirective? inside).isSome then
    skipSpace margin = margin ∧ (skipSpace inside).map flushToken = margin.map flushToken
  else inside = margin

def indentationWith (style : DirectiveIndent) (options : Options) (tokens : List Token) :
    List Token :=
  indentation { options with directiveIndent := style } tokens

/-! ### Comments -/

theorem flushLines_dropWhile_reindentComment {indentation text : List Char}
    (h : Essence.flushLines (reindentComment indentation text) = Essence.flushLines text) :
    Essence.flushLines ((reindentComment indentation text).dropWhile Lexer.isSpace) =
      Essence.flushLines (text.dropWhile Lexer.isSpace) := by
  rw [Essence.flushLines_dropWhile, h, Essence.flushLines_dropWhile]

theorem flushLines_reindent {indentation : List Char}
    (hi : ∀ c ∈ indentation, Lexer.isSpace c = true) (text : List Char) :
    Essence.flushLines (reindentComment indentation text) = Essence.flushLines text := by
  fun_induction reindentComment indentation text with
  | case1 => rfl
  | case2 c rest hc ih =>
      obtain ⟨rfl, -⟩ := hc
      have hd : (indentation ++ ' ' :: reindentComment indentation
          (rest.dropWhile Lexer.isSpace)).dropWhile Lexer.isSpace =
            (reindentComment indentation
              (rest.dropWhile Lexer.isSpace)).dropWhile Lexer.isSpace := by
        rw [List.dropWhile_append_of_pos hi, List.dropWhile_cons_of_pos (by decide)]
      rw [Essence.flushLines, if_pos rfl, hd, flushLines_dropWhile_reindentComment ih,
        List.dropWhile_idempotent, Essence.flushLines, if_pos rfl]
  | case3 c rest _ ih =>
      by_cases hc : c = '\n'
      · rw [Essence.flushLines, if_pos hc, flushLines_dropWhile_reindentComment ih,
          Essence.flushLines, if_pos hc]
      · rw [Essence.flushLines, if_neg hc, ih, Essence.flushLines, if_neg hc]

theorem flushToken_respelledAt (options : Options) (level : Nat) (token : Token) :
    flushToken (respelledAt options level token) = flushToken token := by
  unfold respelledAt
  split
  · cases token with
    | blockComment text =>
        simp only [reindentToken, flushToken, String.toList_ofList,
          flushLines_reindent isSpace_of_mem_levels]
    | _ => rfl
  · rfl

/-! ### A line -/

section
variable {line : List Token}

theorem lineDirective?_of_trim (h : Trim line) :
    lineDirective? line = (lineContent line).head?.bind directive? := by
  rw [lineDirective?, skipSpace_of_trim h]

theorem lineDirective?_indentLine {options : Options} {state : IndentState} (h : Trim line) :
    lineDirective? (indentLine options state line) = lineDirective? line := by
  rw [lineDirective?, skipSpace_indentLine h, newContent,
    bind_directive?_map (alike_respelledAt options _), lineDirective?_of_trim h]

theorem indentLine_congr {options : Options} {state : IndentState} {first second : DirectiveIndent}
    (h : levelOf { options with directiveIndent := first } state line =
      levelOf { options with directiveIndent := second } state line) :
    indentLine { options with directiveIndent := first } state line =
      indentLine { options with directiveIndent := second } state line := by
  simp only [indentLine_eq_append, newLead, newContent, h]
  rfl

section
variable (options : Options) (state : IndentState) (first second : DirectiveIndent)

/-- Where a line does not begin with a directive, the style of directives does not matter. -/
theorem indentLine_of_no_directive (h : Trim line) (hd : lineDirective? line = none) :
    indentLine { options with directiveIndent := first } state line =
      indentLine { options with directiveIndent := second } state line := by
  rw [lineDirective?_of_trim h] at hd
  apply indentLine_congr
  simp only [levelOf, lineLevel, hd]

theorem afterLine_of_no_directive (h : Trim line) (hd : lineDirective? line = none) :
    state.afterLine { options with directiveIndent := first } line =
      state.afterLine { options with directiveIndent := second } line := by
  rw [lineDirective?_of_trim h] at hd
  simp only [IndentState.afterLine, IndentState.afterDirective, hd]

/-- Only where directives indent do they open scopes. -/
theorem afterLine_of_not_indent (hf : first ≠ .indent) (hs : second ≠ .indent) (line : List Token) :
    state.afterLine { options with directiveIndent := first } line =
      state.afterLine { options with directiveIndent := second } line := by
  have hd (style : DirectiveIndent) (h : style ≠ .indent) (content : List Token) :
      state.afterDirective { options with directiveIndent := style } content = state := by
    unfold IndentState.afterDirective
    split
    · exact absurd ‹_› h
    · exact absurd ‹_› h
    · rfl
  simp only [IndentState.afterLine, hd first hf, hd second hs]

theorem indentLine_outdent (h : Trim line) (hd : (lineDirective? line).isSome = true) :
    indentLine { options with directiveIndent := .outdent } state line =
      newContent { options with directiveIndent := .outdent } state line := by
  rw [lineDirective?_of_trim h] at hd
  obtain ⟨directive, hdir⟩ := Option.isSome_iff_exists.1 hd
  obtain ⟨token, ht, hk⟩ := Option.bind_eq_some_iff.1 hdir
  have hc : token.isComment = false := by
    cases token with
    | identifier => rfl
    | _ => cases hk
  have he : (lineContent line).isEmpty = false := by
    cases hl : lineContent line with
    | nil =>
        rw [hl] at ht
        cases ht
    | cons => rfl
  have hl : levelOf { options with directiveIndent := .outdent } state line = 0 := by
    simp only [levelOf, lineLevel, hdir]
  rw [indentLine_eq_append, newLead, ht, Option.any_some, hc, he, hl]
  rfl

/-- Where directives open no scopes, a line is the same in both styles, directives aside. -/
theorem sameButDirective_indentLine (h : Trim line) :
    SameButDirective (indentLine { options with directiveIndent := .noindent } state line)
      (indentLine { options with directiveIndent := .outdent } state line) := by
  rw [SameButDirective, lineDirective?_indentLine h]
  split
  · rename_i hd
    have hm : skipSpace (indentLine { options with directiveIndent := .outdent } state line) =
        newContent { options with directiveIndent := .outdent } state line := skipSpace_indentLine h
    rw [← indentLine_outdent options state h hd] at hm
    refine ⟨hm, ?_⟩
    rw [skipSpace_indentLine h, indentLine_outdent options state h hd, newContent, newContent,
      List.map_map, List.map_map]
    apply List.map_congr_left
    intro token _
    rw [Function.comp_apply, Function.comp_apply, flushToken_respelledAt, flushToken_respelledAt]
  · rename_i hd
    exact indentLine_of_no_directive options state _ _ h (by simpa using hd)

end

end

/-! ### Line after line -/

section
variable (options : Options) (state : IndentState)

theorem forall₂_indentLines {ls : List (List Token)} (h : ∀ line ∈ ls, Trim line) :
    List.Forall₂ SameButDirective
      (indentLines { options with directiveIndent := .noindent } state ls)
      (indentLines { options with directiveIndent := .outdent } state ls) := by
  induction ls generalizing state with
  | nil => exact .nil
  | cons line rest ih =>
      obtain ⟨hl, hr⟩ := List.forall_mem_cons.1 h
      by_cases hn : rest = []
      · subst hn
        rw [indentLines, indentLines]
        refine .cons ?_ .nil
        split
        · exact rfl
        · exact sameButDirective_indentLine options state hl
      · rw [indentLines_cons _ _ _ hn, indentLines_cons _ _ _ hn,
          afterLine_of_not_indent options state .outdent .noindent (by decide) (by decide)]
        exact .cons (sameButDirective_indentLine options state hl) (ih _ hr)

theorem indentFrom_of_no_directive {tokens : List Token} (h : Merged tokens)
    (hd : ∀ line ∈ lines tokens, lineDirective? line = none) (first second : DirectiveIndent) :
    indentFrom { options with directiveIndent := first } state tokens =
      indentFrom { options with directiveIndent := second } state tokens := by
  induction tokens using line_induction generalizing state with
  | nil => rw [indentFrom_nil, indentFrom_nil]
  | last line hn hl =>
      rw [lines_last hl, List.forall_mem_singleton] at hd
      rw [indentFrom_of_last hl state hn, indentFrom_of_last hl state hn,
        indentLine_of_no_directive options state first second (trim_of_merged h) hd]
  | line line ending rest hl he ih =>
      rw [lines_line hl he, List.forall_mem_cons] at hd
      have ht : Trim line := trim_of_merged (h.front (List.prefix_append _ _))
      rw [indentFrom_of_line hl state he, indentFrom_of_line hl state he,
        indentLine_of_no_directive options state first second ht hd.1,
        afterLine_of_no_directive options state first second ht hd.1,
        ih _ h.suffix.tail hd.2]

end

/-- Directives that stay inside and directives at the margin leave the same tokens on all lines that
do not begin with a directive, which are the lines that did not; on the others, space in front of
code and of the lines of comments is all that differs. Where no line begins with a directive, all
styles come to the same. -/
theorem indentationWith_agree (options : Options) {tokens : List Token} (h : Merged tokens) :
    List.Forall₂ SameButDirective (lines (indentationWith .noindent options tokens))
        (lines (indentationWith .outdent options tokens)) ∧
      terminators (indentationWith .noindent options tokens) =
        terminators (indentationWith .outdent options tokens) ∧
      (∀ style, (lines (indentationWith style options tokens)).map lineDirective? =
        (lines tokens).map lineDirective?) ∧
      ((∀ line ∈ lines tokens, lineDirective? line = none) →
        ∀ style, indentationWith style options tokens = indentation options tokens) := by
  have ht : ∀ line ∈ lines tokens, Trim line :=
    fun line hm => trim_of_merged (merged_of_mem_lines h line hm)
  have hview (options : Options) (level : Nat) (token : Token) :
      (some (respelledAt options level token)).bind directive? = (some token).bind directive? :=
    (alike_respelledAt options level token).directive?_eq
  refine ⟨?_, ?_, ?_, ?_⟩
  · rw [indentationWith, indentation, lines_indentFrom, indentationWith, indentation,
      lines_indentFrom]
    exact forall₂_indentLines options {} ht
  · rw [indentationWith, indentation, terminators_indentFrom, indentationWith, indentation,
      terminators_indentFrom]
  · intro style
    rw [indentationWith, indentation, lines_indentFrom]
    exact map_first_indentLines (·.bind directive?) {} hview ht
  · intro hd style
    exact indentFrom_of_no_directive options {} h hd style options.directiveIndent

def directiveTokens : List Token :=
  [.opening .curly, .linebreak .lf, .whitespace " ", .identifier "#if", .blockComment "/*\n* a*/",
    .linebreak .lf, .identifier "b", .linebreak .lf, .identifier "#endif", .linebreak .lf,
    .closing .curly]

theorem indentationWith_agree_comment :
    List.Forall₂ SameButDirective (lines (indentationWith .noindent {} directiveTokens))
        (lines (indentationWith .outdent {} directiveTokens)) ∧
      terminators (indentationWith .noindent {} directiveTokens) =
        terminators (indentationWith .outdent {} directiveTokens) := by
  have hm : Merged directiveTokens := by simp [Merged, directiveTokens, isWhitespace]
  obtain ⟨hl, ht, -, -⟩ := indentationWith_agree {} hm
  exact ⟨hl, ht⟩

end Rule

end SourceStyle
