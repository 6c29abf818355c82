import Mathlib
import SourceStyle.Proofs.Readable
import SourceStyle.Proofs.Respelling.Indentation

/-!
Indentation over indentation. A line is indented by what it holds, whatever space it began with, and
an indented line stays as it is.
-/

namespace SourceStyle.Rule

open Token

/-- The tokens without the space token that each line begins with; `lineStart` tells whether a line
begins here. -/
def flushLeft (lineStart : Bool) : List Token → List Token
  | [] => []
  | token :: rest =>
    if lineStart && token.isWhitespace then flushLeft false rest
    else token :: flushLeft token.isLinebreak rest

/-! ### Comments indented again -/

theorem dropWhile_reindentComment (indentation text : List Char) :
    (reindentComment indentation text).dropWhile Lexer.isSpace =
      reindentComment indentation (text.dropWhile Lexer.isSpace) := by
  induction text with
  | nil => rw [List.dropWhile_nil, reindentComment, List.dropWhile_nil]
  | cons c rest ih =>
      by_cases hc : Lexer.isSpace c = true
      · rw [reindentComment_of_space hc, List.dropWhile_cons_of_pos hc, ih,
          List.dropWhile_cons_of_pos hc]
      · rw [List.dropWhile_cons_of_neg hc]
        cases he : reindentComment indentation (c :: rest) with
        | nil => rfl
        | cons d more =>
            have hh := head?_reindentComment indentation (c :: rest)
            rw [he] at hh
            cases hh
            exact List.dropWhile_cons_of_neg hc

theorem reindentComment_reindentComment {indentation : List Char}
    (hi : ∀ c ∈ indentation, Lexer.isSpace c = true) (text : List Char) :
    reindentComment indentation (reindentComment indentation text) =
      reindentComment indentation text := by
  fun_induction reindentComment indentation text with
  | case1 => rw [reindentComment]
  | case2 c rest hc ih =>
      have hspace : ∀ d ∈ indentation ++ [' '], Lexer.isSpace d = true := by
        intro d hd
        rcases List.mem_append.1 hd with hd | hd
        · exact hi d hd
        · rw [List.mem_singleton.1 hd]
          rfl
      have hdrop : (indentation ++ ' ' :: reindentComment indentation
          (rest.dropWhile Lexer.isSpace)).dropWhile Lexer.isSpace =
            reindentComment indentation (rest.dropWhile Lexer.isSpace) := by
        rw [← List.singleton_append, ← List.append_assoc, List.dropWhile_append_of_pos hspace,
          dropWhile_reindentComment, (Lexer.stops_dropWhile Lexer.isSpace rest).dropWhile]
      have hstar : c = '\n' ∧ ((indentation ++ ' ' :: reindentComment indentation
          (rest.dropWhile Lexer.isSpace)).dropWhile Lexer.isSpace).head? = some '*' := by
        refine ⟨hc.1, ?_⟩
        rw [hdrop, head?_reindentComment]
        exact hc.2
      rw [reindentComment, if_pos hstar, hdrop, ih]
  | case3 c rest hc ih =>
      have hstar : ¬(c = '\n' ∧
          ((reindentComment indentation rest).dropWhile Lexer.isSpace).head? = some '*') := by
        rw [dropWhile_reindentComment, head?_reindentComment]
        exact hc
      rw [reindentComment, if_neg hstar, ih]

theorem reindentToken_reindentToken (options : Options) (level : Nat) (token : Token) :
    reindentToken (levels options level) (reindentToken (levels options level) token) =
      reindentToken (levels options level) token := by
  cases token with
  | blockComment text =>
      simp only [reindentToken, String.toList_ofList,
        reindentComment_reindentComment isSpace_of_mem_levels]
  | _ => rfl

/-! ### Lines indented again -/

def respelledAt (options : Options) (level : Nat) : Token → Token :=
  if options.indentComments then reindentToken (levels options level) else id

theorem alike_respelledAt (options : Options) (level : Nat) (token : Token) :
    Alike token (respelledAt options level token) := by
  unfold respelledAt
  split
  · exact alike_reindentToken _ token
  · exact .same token

theorem respelledAt_respelledAt (options : Options) (level : Nat) (token : Token) :
    respelledAt options level (respelledAt options level token) =
      respelledAt options level token := by
  unfold respelledAt
  split
  · exact reindentToken_reindentToken options level token
  · rfl

section
variable (options : Options) (state : IndentState) {line : List Token}

def levelOf (line : List Token) : Nat :=
  lineLevel options state.scopes (lineContent line)

def newLead (line : List Token) : List Token :=
  if (lineContent line).head?.any isComment && !options.indentComments then lineLead line
  else if (lineContent line).isEmpty && options.truncateBlankLines then []
  else indentationTokens (levels options (levelOf options state line))

def newContent (line : List Token) : List Token :=
  (lineContent line).map (respelledAt options (levelOf options state line))

theorem indentLine_eq_append (line : List Token) :
    indentLine options state line = newLead options state line ++ newContent options state line := by
  unfold newContent respelledAt
  cases hc : options.indentComments with
  | true => simp only [indentLine, newLead, levelOf, levels, hc, if_true]
  | false =>
      simp only [indentLine, newLead, levelOf, levels, hc, Bool.false_eq_true, if_false, List.map_id]

theorem newLead_cases (line : List Token) :
    newLead options state line = [] ∨ ∃ text, newLead options state line = [.whitespace text] := by
  have hlead : lineLead line = [] ∨ ∃ text, lineLead line = [.whitespace text] := by
    unfold lineLead
    split
    · exact .inr ⟨_, rfl⟩
    · exact .inl rfl
  have hindent (indentation : List Char) : indentationTokens indentation = [] ∨
      ∃ text, indentationTokens indentation = [.whitespace text] := by
    unfold indentationTokens
    split
    · exact .inl rfl
    · exact .inr ⟨_, rfl⟩
  unfold newLead
  split
  · exact hlead
  · split
    · exact .inl rfl
    · exact hindent _

end

/-- A line whose content does not begin with space, as where no space stands beside space. -/
def Trim (line : List Token) : Prop :=
  ∀ token ∈ (lineContent line).head?, token.isWhitespace = false

theorem trim_of_merged {line : List Token} (h : Merged line) : Trim line := by
  intro token hm
  cases line with
  | nil => cases hm
  | cons first rest =>
      cases hw : first.isWhitespace with
      | true =>
          cases first with
          | whitespace text => exact (List.isChain_cons.1 h).1 token hm hw
          | _ => cases hw
      | false =>
          rw [lineContent_of_not hw] at hm
          cases hm
          exact hw

theorem lineContent_lineContent {line : List Token} (h : Trim line) :
    lineContent (lineContent line) = lineContent line := by
  unfold Trim at h
  cases hc : lineContent line with
  | nil => rfl
  | cons token rest =>
      rw [hc] at h
      exact lineContent_of_not (h token rfl) rest

section
variable {options : Options} {state : IndentState} {line : List Token}

theorem parts_of_lead {lead content : List Token}
    (hl : lead = [] ∨ ∃ text, lead = [.whitespace text])
    (hc : ∀ token ∈ content.head?, token.isWhitespace = false) :
    lineLead (lead ++ content) = lead ∧ lineContent (lead ++ content) = content := by
  rcases hl with rfl | ⟨text, rfl⟩
  · cases content with
    | nil => exact ⟨rfl, rfl⟩
    | cons token rest =>
        have ht := hc token rfl
        refine ⟨?_, lineContent_of_not ht rest⟩
        cases token with
        | whitespace => cases ht
        | _ => rfl
  · exact ⟨rfl, rfl⟩

theorem parts_indentLine (options : Options) (state : IndentState) (h : Trim line) :
    lineLead (indentLine options state line) = newLead options state line ∧
      lineContent (indentLine options state line) = newContent options state line := by
  rw [indentLine_eq_append]
  apply parts_of_lead (newLead_cases options state line)
  intro token hm
  rw [newContent, List.head?_map, Option.mem_def, Option.map_eq_some_iff] at hm
  obtain ⟨first, hf, rfl⟩ := hm
  rw [(alike_respelledAt options _ first).isWhitespace_eq]
  exact h first hf

theorem levelOf_indentLine (h : Trim line) :
    levelOf options state (indentLine options state line) = levelOf options state line := by
  rw [levelOf, (parts_indentLine options state h).2, newContent,
    lineLevel_map (alike_respelledAt options _), ← levelOf]

theorem indentLine_indentLine (h : Trim line) :
    indentLine options state (indentLine options state line) = indentLine options state line := by
  obtain ⟨hlead, hcontent⟩ := parts_indentLine options state h
  have hl : newLead options state (indentLine options state line) = newLead options state line := by
    have hany : (newContent options state line).head?.any isComment =
        (lineContent line).head?.any isComment := by
      rw [newContent, List.head?_map]
      cases (lineContent line).head? with
      | none => rfl
      | some token => exact (alike_respelledAt options _ token).isComment_eq
    have hempty : (newContent options state line).isEmpty = (lineContent line).isEmpty :=
      List.isEmpty_map
    rw [newLead, hlead, hcontent, hany, hempty, levelOf_indentLine h]
    by_cases hk : ((lineContent line).head?.any isComment && !options.indentComments) = true
    · rw [if_pos hk]
    · rw [if_neg hk, newLead, if_neg hk]
  have hc : newContent options state (indentLine options state line) =
      newContent options state line := by
    rw [newContent, hcontent, levelOf_indentLine h, newContent, List.map_map]
    apply List.map_congr_left
    intro token _
    exact respelledAt_respelledAt options _ token
  rw [indentLine_eq_append, hl, hc, ← indentLine_eq_append]

theorem afterLine_congr {other : List Token} (h : lineContent other = lineContent line) :
    state.afterLine options other = state.afterLine options line := by
  simp only [IndentState.afterLine, h]

theorem afterLine_indentLine (h : Trim line) :
    state.afterLine options (indentLine options state line) = state.afterLine options line := by
  let respell := respelledAt options (levelOf options state line)
  have hr : ∀ token, Alike token (respell token) := alike_respelledAt options _
  have hc : lineContent (indentLine options state line) = lineContent (line.map respell) := by
    rw [(parts_indentLine options state h).2, lineContent_map hr, newContent]
  rw [afterLine_congr hc, afterLine_map hr]

/-- Where comments are indented, the space that a line begins with does not matter. -/
theorem indentLine_lineContent (hi : options.indentComments = true) (h : Trim line) :
    indentLine options state (lineContent line) = indentLine options state line := by
  have hc := lineContent_lineContent h
  have hlevel : levelOf options state (lineContent line) = levelOf options state line := by
    rw [levelOf, hc, ← levelOf]
  simp only [indentLine_eq_append, newLead, newContent, hc, hlevel, hi, Bool.not_true,
    Bool.and_false, Bool.false_eq_true, if_false]

theorem indentLine_of_blank (hi : options.indentComments = true)
    (ht : options.truncateBlankLines = true) (h : lineContent line = []) :
    indentLine options state line = [] := by
  simp [indentLine_eq_append, newLead, newContent, h, hi, ht]

end

/-! ### Line after line -/

section
variable {options : Options} {line rest : List Token} {ending : Token}
  (hl : ∀ token ∈ line, token.isLinebreak = false)
include hl

theorem flushLeft_false_append (rest : List Token) :
    flushLeft false (line ++ rest) = line ++ flushLeft false rest := by
  induction line with
  | nil => rfl
  | cons token line ih =>
      obtain ⟨ht, hr⟩ := List.forall_mem_cons.1 hl
      rw [List.cons_append, flushLeft, ht, ih hr]
      rfl

theorem flushLeft_true_append (hr : ∀ token ∈ rest.head?, token.isWhitespace = false) :
    flushLeft true (line ++ rest) = lineContent line ++ flushLeft false rest := by
  cases line with
  | nil =>
      cases rest with
      | nil => rfl
      | cons token rest =>
          have ht := hr token rfl
          simp [flushLeft, ht, lineContent]
  | cons token line =>
      obtain ⟨ht, hline⟩ := List.forall_mem_cons.1 hl
      cases hw : token.isWhitespace with
      | true =>
          cases token with
          | whitespace text => exact flushLeft_false_append hline rest
          | _ => cases hw
      | false =>
          rw [lineContent_of_not hw, List.cons_append, flushLeft, hw, ht,
            flushLeft_false_append hline rest]
          rfl

theorem indentFrom_of_last (state : IndentState) (hn : line ≠ []) :
    indentFrom options state line = indentLine options state line := by
  have hg : ∀ token ∈ line, (!token.isLinebreak) = true := by
    intro token hm
    rw [hl token hm]
    rfl
  rw [indentFrom_last state hn (List.dropWhile_eq_nil_iff.2 hg), List.takeWhile_eq_self_iff.2 hg]

theorem indentFrom_of_line (state : IndentState) (he : ending.isLinebreak = true)
    (rest : List Token) :
    indentFrom options state (line ++ ending :: rest) =
      indentLine options state line ++
        ending :: indentFrom options (state.afterLine options line) rest := by
  have hg : ∀ token ∈ line, (!token.isLinebreak) = true := by
    intro token hm
    rw [hl token hm]
    rfl
  have hdrop : (line ++ ending :: rest).dropWhile (fun token => !token.isLinebreak) =
      ending :: rest := by
    rw [List.dropWhile_append_of_pos hg]
    simp [he]
  have htake : (line ++ ending :: rest).takeWhile (fun token => !token.isLinebreak) = line := by
    rw [List.takeWhile_append_of_pos hg]
    simp [he]
  rw [indentFrom_line state hdrop, htake]

theorem flushLeft_line (he : ending.isLinebreak = true) (rest : List Token) :
    flushLeft true (line ++ ending :: rest) = lineContent line ++ ending :: flushLeft true rest := by
  have hw : ∀ token ∈ (ending :: rest).head?, token.isWhitespace = false := by
    rintro token ⟨⟩
    cases ending with
    | linebreak => rfl
    | _ => cases he
  rw [flushLeft_true_append hl hw, flushLeft, he]
  rfl

theorem flushLeft_last : flushLeft true line = lineContent line := by
  have h : flushLeft true (line ++ []) = lineContent line ++ flushLeft false [] :=
    flushLeft_true_append hl nofun
  rwa [List.append_nil, flushLeft, List.append_nil] at h

theorem not_isLinebreak_of_mem_lineContent :
    ∀ token ∈ lineContent line, token.isLinebreak = false := by
  intro token hm
  apply hl
  rw [← lineLead_append_lineContent line]
  exact List.mem_append_right _ hm

theorem not_isLinebreak_of_mem_indentLine (options : Options) (state : IndentState) :
    ∀ token ∈ indentLine options state line, token.isLinebreak = false := by
  intro token hm
  rw [indentLine_eq_append, newContent] at hm
  rcases List.mem_append.1 hm with hm | hm
  · rcases newLead_cases options state line with hlead | ⟨text, hlead⟩
    · rw [hlead] at hm
      cases hm
    · rw [hlead, List.mem_singleton] at hm
      rw [hm]
      rfl
  · obtain ⟨first, hf, rfl⟩ := List.mem_map.1 hm
    rw [(alike_respelledAt options _ first).isLinebreak_eq]
    exact not_isLinebreak_of_mem_lineContent hl first hf

end

/-- Tokens cut into lines in which no space stands beside space. -/
inductive Lines : List Token → Prop
  | nil : Lines []
  | last {line : List Token} : line ≠ [] → (∀ token ∈ line, token.isLinebreak = false) →
      Merged line → Lines line
  | cons {line rest : List Token} {ending : Token} : (∀ token ∈ line, token.isLinebreak = false) →
      ending.isLinebreak = true → Merged line → Lines rest → Lines (line ++ ending :: rest)

theorem lines_of_merged {tokens : List Token} (h : Merged tokens) : Lines tokens := by
  induction tokens with
  | nil => exact .nil
  | cons token tokens ih =>
      cases hk : token.isLinebreak with
      | true =>
          rw [← List.nil_append (token :: tokens)]
          exact .cons nofun hk .nil (ih h.tail)
      | false =>
          have hcons {line : List Token} (hl : ∀ other ∈ line, other.isLinebreak = false) :
              ∀ other ∈ token :: line, other.isLinebreak = false := List.forall_mem_cons.2 ⟨hk, hl⟩
          cases ih h.tail with
          | nil => exact .last (List.cons_ne_nil _ _) (hcons nofun) h
          | last _ hl _ => exact .last (List.cons_ne_nil _ _) (hcons hl) h
          | @cons line rest ending hl he _ hr =>
              have hm : Merged (token :: line) := List.IsChain.prefix h ⟨ending :: rest, rfl⟩
              exact .cons (hcons hl) he hm hr

section
variable {options : Options} {tokens : List Token}

/-- Indentation sees the content of lines only. -/
theorem indentFrom_flushLeft (hi : options.indentComments = true)
    (ht : options.truncateBlankLines = true) (state : IndentState) (h : Lines tokens) :
    indentFrom options state (flushLeft true tokens) = indentFrom options state tokens := by
  induction h generalizing state with
  | nil => rfl
  | @last line hn hl hm =>
      rw [flushLeft_last hl, indentFrom_of_last hl state hn]
      by_cases hb : lineContent line = []
      · rw [hb, indentFrom_nil, indentLine_of_blank hi ht hb]
      · rw [indentFrom_of_last (not_isLinebreak_of_mem_lineContent hl) state hb,
          indentLine_lineContent hi (trim_of_merged hm)]
  | @cons line rest ending hl he hm _ ih =>
      have hc : lineContent (lineContent line) = lineContent line :=
        lineContent_lineContent (trim_of_merged hm)
      rw [flushLeft_line hl he, indentFrom_of_line hl state he,
        indentFrom_of_line (not_isLinebreak_of_mem_lineContent hl) state he,
        indentLine_lineContent hi (trim_of_merged hm), afterLine_congr hc, ih]

theorem indentFrom_indentFrom (state : IndentState) (h : Lines tokens) :
    indentFrom options state (indentFrom options state tokens) =
      indentFrom options state tokens := by
  induction h generalizing state with
  | nil => rw [indentFrom_nil, indentFrom_nil]
  | @last line hn hl hm =>
      rw [indentFrom_of_last hl state hn]
      by_cases hb : indentLine options state line = []
      · rw [hb, indentFrom_nil]
      · rw [indentFrom_of_last (not_isLinebreak_of_mem_indentLine hl options state) state hb,
          indentLine_indentLine (trim_of_merged hm)]
  | @cons line rest ending hl he hm _ ih =>
      rw [indentFrom_of_line hl state he,
        indentFrom_of_line (not_isLinebreak_of_mem_indentLine hl options state) state he,
        indentLine_indentLine (trim_of_merged hm), afterLine_indentLine (trim_of_merged hm), ih]

end

/-- Where comments are indented and blank lines are emptied, tokens that differ in the space at the
beginning of lines alone are indented alike; and with any options, indenting again changes nothing.
-/
theorem indentation_settles (options : Options) :
    (options.indentComments = true → options.truncateBlankLines = true →
      ∀ first second, Merged first → Merged second → flushLeft true first = flushLeft true second →
        indentation options first = indentation options second) ∧
    ∀ tokens, Merged tokens →
      indentation options (indentation options tokens) = indentation options tokens := by
  constructor
  · intro hi ht first second hf hs he
    calc indentation options first
        = indentation options (flushLeft true first) :=
          (indentFrom_flushLeft hi ht {} (lines_of_merged hf)).symm
      _ = indentation options (flushLeft true second) := by rw [he]
      _ = indentation options second := indentFrom_flushLeft hi ht {} (lines_of_merged hs)
  · intro tokens hm
    exact indentFrom_indentFrom {} (lines_of_merged hm)

/-- A scope with a comment, a blank line and a case, unevenly indented. -/
def unevenTokens : List Token :=
  [.whitespace "  ", .identifier "switch", .opening .curly, .linebreak .lf, .whitespace "\t",
    .blockComment "/*\n* a\n*/", .linebreak .lf, .whitespace " ", .linebreak .lf,
    .identifier "case", .separator .colon, .linebreak .lf, .whitespace " ", .closing .curly]

theorem indentation_settles_uneven :
    indentation {} unevenTokens = indentation {} (flushLeft true unevenTokens) ∧
      indentation { indentComments := false } (indentation { indentComments := false } unevenTokens) =
        indentation { indentComments := false } unevenTokens := by
  have hm : Merged unevenTokens := by simp [Merged, unevenTokens, isWhitespace]
  have hf : Merged (flushLeft true unevenTokens) := by
    simp [Merged, unevenTokens, flushLeft, isWhitespace, isLinebreak]
  have he : flushLeft true unevenTokens = flushLeft true (flushLeft true unevenTokens) := by decide
  exact ⟨(indentation_settles {}).1 rfl rfl _ _ hm hf he, (indentation_settles _).2 _ hm⟩

end SourceStyle.Rule
