import Mathlib
import SourceStyle.Proofs.Reindentation

/-!
Indentation line by line. What a line is indented by depends on the lines before it through the
scopes that they leave open, and what ends a line stays as it is.
-/

namespace SourceStyle

namespace Token

def lines (tokens : List Token) : List (List Token) :=
  tokens.splitOnP isLinebreak

/-- The number of the line that goes on behind the tokens. The first line has the number zero. -/
def lineNumber (before : List Token) : Nat :=
  before.countP isLinebreak

/-- A line begins behind the tokens. -/
def EndsLine (tokens : List Token) : Prop :=
  ∀ token ∈ tokens.getLast?, token.isLinebreak = true

instance (tokens : List Token) : Decidable (EndsLine tokens) :=
  inferInstanceAs (Decidable (∀ token ∈ tokens.getLast?, token.isLinebreak = true))

@[simp] theorem lines_nil : lines [] = [[]] := rfl

theorem lines_last {line : List Token} (h : ∀ token ∈ line, token.isLinebreak = false) :
    lines line = [line] :=
  List.splitOnP_eq_singleton h

theorem lines_line {line : List Token} (h : ∀ token ∈ line, token.isLinebreak = false)
    {ending : Token} (he : ending.isLinebreak = true) (rest : List Token) :
    lines (line ++ ending :: rest) = line :: lines rest :=
  List.splitOnP_append_cons_of_forall_mem h ending he rest

theorem lines_ne_nil (tokens : List Token) : lines tokens ≠ [] :=
  List.splitOnP_ne_nil isLinebreak tokens

@[simp] theorem lineNumber_append (first second : List Token) :
    lineNumber (first ++ second) = lineNumber first + lineNumber second :=
  List.countP_append

theorem lineNumber_line {line : List Token} (h : ∀ token ∈ line, token.isLinebreak = false) :
    lineNumber line = 0 := by
  rw [lineNumber, List.countP_eq_zero]
  intro token hm
  simp [h token hm]

theorem lineNumber_line_append {line rest : List Token} {ending : Token}
    (h : ∀ token ∈ line, token.isLinebreak = false) (he : ending.isLinebreak = true) :
    lineNumber (line ++ ending :: rest) = lineNumber rest + 1 := by
  rw [lineNumber_append, lineNumber_line h, Nat.zero_add, lineNumber, List.countP_cons_of_pos he,
    lineNumber]

/-- Tokens are nothing, or a line that nothing ends, or a line, its terminator and other tokens. -/
@[elab_as_elim]
theorem line_induction {motive : List Token → Prop} (nil : motive [])
    (last : ∀ line, line ≠ [] → (∀ token ∈ line, token.isLinebreak = false) → motive line)
    (line : ∀ line ending rest, (∀ token ∈ line, token.isLinebreak = false) →
      ending.isLinebreak = true → motive rest → motive (line ++ ending :: rest))
    (tokens : List Token) : motive tokens := by
  induction hn : tokens.length using Nat.strong_induction_on generalizing tokens with
  | _ n ih =>
      have hl : ∀ token ∈ tokens.takeWhile (!·.isLinebreak), token.isLinebreak = false := by
        intro token hm
        simpa using List.mem_takeWhile_imp hm
      have ht := List.takeWhile_append_dropWhile (p := (!·.isLinebreak)) (l := tokens)
      cases hd : tokens.dropWhile (!·.isLinebreak) with
      | nil =>
          rw [hd, List.append_nil] at ht
          rw [ht] at hl
          by_cases he : tokens = []
          · rw [he]
            exact nil
          · exact last tokens he hl
      | cons ending rest =>
          rw [hd] at ht
          have hlt : rest.length < n := by
            rw [← hn, ← ht, List.length_append, List.length_cons]
            omega
          rw [← ht]
          exact line _ ending rest hl (Rule.isLinebreak_of_dropWhile hd) (ih _ hlt rest rfl)

theorem not_endsLine {line : List Token} (hn : line ≠ [])
    (hl : ∀ token ∈ line, token.isLinebreak = false) : ¬EndsLine line := by
  intro h
  have hg := List.getLast?_eq_some_getLast hn
  have hb := h _ hg
  rw [hl _ (List.getLast_mem hn)] at hb
  cases hb

theorem endsLine_line_iff {ending : Token} (he : ending.isLinebreak = true)
    (line rest : List Token) : EndsLine (line ++ ending :: rest) ↔ EndsLine rest := by
  have hg : (line ++ ending :: rest).getLast? = some (rest.getLast?.getD ending) := by
    rw [List.getLast?_append, List.getLast?_cons, Option.some_or]
  rw [EndsLine, hg, EndsLine]
  cases rest.getLast? with
  | none => simp [he]
  | some token => simp

theorem getElem?_lines_append {before : List Token} (h : EndsLine before) (rest : List Token)
    (number : Nat) :
    (lines (before ++ rest))[lineNumber before + number]? = (lines rest)[number]? := by
  induction before using line_induction with
  | nil => simp [lineNumber]
  | last line hn hl => exact absurd h (not_endsLine hn hl)
  | line line ending before hl he ih =>
      rw [List.append_assoc, List.cons_append, lines_line hl he, lineNumber_line_append hl he,
        Nat.add_right_comm, List.getElem?_cons_succ]
      exact ih ((endsLine_line_iff he _ _).1 h)

theorem exists_eq_append_of_line {tokens line : List Token} {number : Nat}
    (h : (lines tokens)[number]? = some line) :
    ∃ before after, tokens = before ++ (line ++ after) ∧ EndsLine before ∧
      lineNumber before = number ∧ (∀ token ∈ line, token.isLinebreak = false) ∧
      ∀ token ∈ after.head?, token.isLinebreak = true := by
  induction tokens using line_induction generalizing number with
  | nil =>
      cases number with
      | zero =>
          cases h
          exact ⟨[], [], rfl, nofun, rfl, nofun, nofun⟩
      | succ number => cases h
  | last tokens hn hl =>
      rw [lines_last hl] at h
      cases number with
      | zero =>
          cases h
          exact ⟨[], [], (List.append_nil _).symm, nofun, rfl, hl, nofun⟩
      | succ number => cases h
  | line first ending rest hl he ih =>
      rw [lines_line hl he] at h
      cases number with
      | zero =>
          cases h
          refine ⟨[], ending :: rest, rfl, nofun, rfl, hl, ?_⟩
          rintro token ⟨⟩
          exact he
      | succ number =>
          obtain ⟨before, after, rfl, hb, rfl, hline, ha⟩ := ih h
          exact ⟨first ++ ending :: before, after, by simp, (endsLine_line_iff he _ _).2 hb,
            lineNumber_line_append hl he, hline, ha⟩

theorem Merged.front {line tokens : List Token} (h : Merged tokens) (hl : line <+: tokens) :
    Merged line :=
  List.IsChain.prefix h hl

def terminators (tokens : List Token) : List Token :=
  tokens.filter isLinebreak

theorem terminators_line {line : List Token} (h : ∀ token ∈ line, token.isLinebreak = false) :
    terminators line = [] := by
  rw [terminators, List.filter_eq_nil_iff]
  intro token hm
  simp [h token hm]

theorem terminators_append (first second : List Token) :
    terminators (first ++ second) = terminators first ++ terminators second :=
  List.filter_append ..

end Token

namespace Rule

open Token

/-- Indents lines, given without their terminators. Nothing behind the last terminator is no
line. -/
def indentLines (options : Options) : IndentState → List (List Token) → List (List Token)
  | _, [] => []
  | state, [line] => [if line = [] then [] else indentLine options state line]
  | state, line :: rest =>
    indentLine options state line :: indentLines options (state.afterLine options line) rest

theorem indentLines_cons (options : Options) (state : IndentState) (line : List Token)
    {rest : List (List Token)} (h : rest ≠ []) :
    indentLines options state (line :: rest) =
      indentLine options state line :: indentLines options (state.afterLine options line) rest := by
  cases rest with
  | nil => exact absurd rfl h
  | cons => rfl

theorem lines_indentFrom (options : Options) (state : IndentState) (tokens : List Token) :
    lines (indentFrom options state tokens) = indentLines options state (lines tokens) := by
  induction tokens using line_induction generalizing state with
  | nil => rw [indentFrom_nil, lines_nil, indentLines, if_pos rfl]
  | last line hn hl =>
      rw [indentFrom_of_last hl state hn,
        lines_last (not_isLinebreak_of_mem_indentLine hl options state), lines_last hl, indentLines,
        if_neg hn]
  | line line ending rest hl he ih =>
      rw [indentFrom_of_line hl state he,
        lines_line (not_isLinebreak_of_mem_indentLine hl options state) he, ih, lines_line hl he,
        indentLines_cons options state line (lines_ne_nil rest)]

theorem terminators_indentFrom (options : Options) (state : IndentState) (tokens : List Token) :
    terminators (indentFrom options state tokens) = terminators tokens := by
  induction tokens using line_induction generalizing state with
  | nil => rw [indentFrom_nil]
  | last line hn hl =>
      rw [indentFrom_of_last hl state hn,
        terminators_line (not_isLinebreak_of_mem_indentLine hl options state), terminators_line hl]
  | line line ending rest hl he ih =>
      have hcons (rest : List Token) : terminators (ending :: rest) = ending :: terminators rest :=
        List.filter_cons_of_pos he
      rw [indentFrom_of_line hl state he, terminators_append, terminators_append,
        terminators_line (not_isLinebreak_of_mem_indentLine hl options state), terminators_line hl,
        hcons, hcons, ih]

theorem lineNumber_indentFrom (options : Options) (state : IndentState) (tokens : List Token) :
    lineNumber (indentFrom options state tokens) = lineNumber tokens := by
  have hn (tokens : List Token) : lineNumber tokens = (terminators tokens).length :=
    List.countP_eq_length_filter
  rw [hn, terminators_indentFrom, ← hn]

theorem endsLine_indentFrom (options : Options) (state : IndentState) {tokens : List Token}
    (h : EndsLine tokens) : EndsLine (indentFrom options state tokens) := by
  induction tokens using line_induction generalizing state with
  | nil =>
      rw [indentFrom_nil]
      exact h
  | last line hn hl => exact absurd h (not_endsLine hn hl)
  | line line ending rest hl he ih =>
      rw [indentFrom_of_line hl state he, endsLine_line_iff he]
      exact ih _ ((endsLine_line_iff he _ _).1 h)

/-- The first line, unless it is empty, is indented by the state. -/
theorem getElem?_zero_lines_indentFrom (options : Options) (state : IndentState)
    {tokens : List Token} (hn : tokens.takeWhile (!·.isLinebreak) ≠ []) :
    (lines (indentFrom options state tokens))[0]? =
      some (indentLine options state (tokens.takeWhile (!·.isLinebreak))) := by
  have hl : ∀ token ∈ tokens.takeWhile (!·.isLinebreak), token.isLinebreak = false := by
    intro token hm
    simpa using List.mem_takeWhile_imp hm
  have hi := not_isLinebreak_of_mem_indentLine hl options state
  cases hd : tokens.dropWhile (!·.isLinebreak) with
  | nil =>
      have ht : tokens ≠ [] := by
        rintro rfl
        exact hn rfl
      rw [indentFrom_last state ht hd, lines_last hi]
      rfl
  | cons ending rest =>
      rw [indentFrom_line state hd, lines_line hi (isLinebreak_of_dropWhile hd)]
      rfl

/-! ### What indented lines begin with -/

section
variable {options : Options} {state : IndentState} {line : List Token}

theorem skipSpace_of_trim (h : Trim line) : skipSpace line = lineContent line := by
  have hc : skipSpace (lineContent line) = lineContent line := by
    unfold Trim at h
    cases hl : lineContent line with
    | nil => rfl
    | cons token rest =>
        rw [hl] at h
        exact List.dropWhile_cons_of_neg (by simp [h token rfl])
  cases line with
  | nil => rfl
  | cons token line =>
      cases token with
      | whitespace text => exact hc
      | _ => exact hc

theorem trim_indentLine (h : Trim line) : Trim (indentLine options state line) := by
  unfold Trim
  rw [(parts_indentLine options state h).2, newContent, List.head?_map]
  intro token hm
  obtain ⟨first, hf, rfl⟩ := Option.map_eq_some_iff.1 hm
  rw [(alike_respelledAt options _ first).isWhitespace_eq]
  exact h first hf

theorem skipSpace_indentLine (h : Trim line) :
    skipSpace (indentLine options state line) = newContent options state line := by
  rw [skipSpace_of_trim (trim_indentLine h), (parts_indentLine options state h).2]

end

theorem merged_of_mem_lines {tokens : List Token} (h : Merged tokens) :
    ∀ line ∈ lines tokens, Merged line := by
  induction tokens using line_induction with
  | nil => simp [Merged]
  | last line hn hl =>
      rw [lines_last hl, List.forall_mem_singleton]
      exact h
  | line line ending rest hl he ih =>
      rw [lines_line hl he, List.forall_mem_cons]
      exact ⟨h.front (List.prefix_append _ _), ih h.suffix.tail⟩

/-- Indented lines begin with the tokens that they began with, as far as a view of tokens goes that
does not see how comments are spelled. -/
theorem map_first_indentLines {options : Options} {View : Type} (view : Option Token → View)
    (state : IndentState)
    (hv : ∀ options level token, view (some (respelledAt options level token)) = view (some token))
    {ls : List (List Token)} (h : ∀ line ∈ ls, Trim line) :
    (indentLines options state ls).map (fun line => view (skipSpace line).head?) =
      ls.map fun line => view (skipSpace line).head? := by
  have hline (state : IndentState) {line : List Token} (hl : Trim line) :
      view (skipSpace (indentLine options state line)).head? = view (skipSpace line).head? := by
    rw [skipSpace_indentLine hl, skipSpace_of_trim hl, newContent, List.head?_map]
    cases (lineContent line).head? with
    | none => rfl
    | some token => exact hv options _ token
  induction ls generalizing state with
  | nil => rfl
  | cons line rest ih =>
      obtain ⟨hl, hr⟩ := List.forall_mem_cons.1 h
      by_cases hn : rest = []
      · subst hn
        rw [indentLines, List.map_singleton, List.map_singleton]
        split
        · rename_i he
          rw [he]
        · rw [hline state hl]
      · rw [indentLines_cons _ _ _ hn, List.map_cons, List.map_cons, hline state hl, ih _ hr]

/-! ### The state at the beginning of a line -/

/-- The state behind a token, where no line begins with a directive. -/
def IndentState.past (state : IndentState) (token : Token) : IndentState :=
  if token.isLinebreak then { state with line := state.line + 1 } else state.after token

section
variable {options : Options}

theorem after_lineContent (state : IndentState) (line : List Token) :
    (lineContent line).foldl IndentState.after state = line.foldl IndentState.after state := by
  cases line with
  | nil => rfl
  | cons token line =>
      cases token with
      | whitespace text => rfl
      | _ => rfl

@[simp] theorem line_after (state : IndentState) (token : Token) :
    (state.after token).line = state.line := by
  unfold IndentState.after
  split <;> (try split) <;> rfl

theorem line_foldl_after (state : IndentState) (tokens : List Token) :
    (tokens.foldl IndentState.after state).line = state.line := by
  induction tokens generalizing state with
  | nil => rfl
  | cons token tokens ih => rw [List.foldl_cons, ih, line_after]

theorem foldl_past_of_line {line : List Token} (h : ∀ token ∈ line, token.isLinebreak = false)
    (state : IndentState) :
    line.foldl IndentState.past state = line.foldl IndentState.after state := by
  induction line generalizing state with
  | nil => rfl
  | cons token line ih =>
      obtain ⟨ht, hl⟩ := List.forall_mem_cons.1 h
      rw [List.foldl_cons, List.foldl_cons, ih hl, IndentState.past, ht]
      rfl

theorem bind_directive?_eq_none {line : List Token} (hd : ∀ token ∈ line, directive? token = none) :
    (lineContent line).head?.bind directive? = none := by
  rw [Option.bind_eq_none_iff]
  intro token hm
  apply hd
  rw [← lineLead_append_lineContent line]
  exact List.mem_append_right _ (List.mem_of_mem_head? hm)

/-- Without a directive at its beginning, a line is read token by token. -/
theorem afterLine_eq_foldl {line : List Token} {ending : Token} (he : ending.isLinebreak = true)
    (hl : ∀ token ∈ line, token.isLinebreak = false) (hd : ∀ token ∈ line, directive? token = none)
    (state : IndentState) :
    state.afterLine options line = (line ++ [ending]).foldl IndentState.past state := by
  have hs : state.afterDirective options (lineContent line) = state := by
    rw [IndentState.afterDirective, bind_directive?_eq_none hd]
  rw [IndentState.afterLine, hs, after_lineContent, List.foldl_append, foldl_past_of_line hl,
    List.foldl_cons, List.foldl_nil, IndentState.past, if_pos he, line_foldl_after]

/-- What follows whole lines without directives is indented from the state that they leave. -/
theorem indentFrom_append {first : List Token} (h : EndsLine first)
    (hd : ∀ token ∈ first, directive? token = none) (state : IndentState) (second : List Token) :
    indentFrom options state (first ++ second) =
      indentFrom options state first ++
        indentFrom options (first.foldl IndentState.past state) second := by
  induction first using line_induction generalizing state with
  | nil => rw [indentFrom_nil, List.nil_append, List.nil_append, List.foldl_nil]
  | last line hn hl => exact absurd h (not_endsLine hn hl)
  | line line ending rest hl he ih =>
      obtain ⟨hline, hrest⟩ := List.forall_mem_append.1 hd
      have ha : state.afterLine options line = (line ++ [ending]).foldl IndentState.past state :=
        afterLine_eq_foldl he hl hline state
      have hf : (line ++ ending :: rest).foldl IndentState.past state =
          rest.foldl IndentState.past (state.afterLine options line) := by
        rw [ha, ← List.foldl_append, List.append_assoc, List.singleton_append]
      rw [List.append_assoc, List.cons_append, indentFrom_of_line hl state he,
        indentFrom_of_line hl state he, hf,
        ih ((endsLine_line_iff he _ _).1 h) (List.forall_mem_cons.1 hrest).2, List.append_assoc,
        List.cons_append]

end

end Rule

end SourceStyle
