import Mathlib
import SourceStyle.Proofs.Reindentation.Lines
import SourceStyle.Proofs.Repetition.Scopes

/-!
Indentation chunk by chunk. Whole lines that close the scopes they open leave nothing behind but the
number of lines, and indentation only compares the numbers of lines with each other.
-/

namespace SourceStyle

/-- How many scopes are open behind tokens that begin inside `depth` scopes, if each closing bracket
among them has a scope to close. Brackets of all kinds count alike. -/
def Scope.openAfter? (depth : Nat) : List Token → Option Nat
  | [] => some depth
  | .opening _ :: rest => openAfter? (depth + 1) rest
  | .closing _ :: rest =>
    match depth with
    | 0 => none
    | outer + 1 => openAfter? outer rest
  | _ :: rest => openAfter? depth rest

namespace Rule

open Token

/-! ### The same lines further down -/

def OpenScope.down (offset : Nat) (scope : OpenScope) : OpenScope :=
  { scope with line := scope.line + offset }

def IndentState.down (offset : Nat) (state : IndentState) : IndentState :=
  { state with scopes := state.scopes.map (·.down offset), line := state.line + offset }

section
variable {options : Options} (offset : Nat) (state : IndentState)

theorem depth_down (scopes : List OpenScope) :
    depth (scopes.map (·.down offset)) = depth scopes := by
  fun_induction depth scopes with
  | case1 => rfl
  | case2 => rfl
  | case3 scope outer rest ih =>
      rw [List.map_cons] at ih
      rw [List.map_cons, List.map_cons, depth, ih]
      simp only [OpenScope.down, Nat.add_right_cancel_iff]

theorem aroundConditional?_down (scopes : List OpenScope) :
    aroundConditional? (scopes.map (·.down offset)) =
      (aroundConditional? scopes).map (List.map (·.down offset)) := by
  have hp : (fun scope : OpenScope => !scope.isConditional) ∘ OpenScope.down offset =
      fun scope => !scope.isConditional := rfl
  rw [aroundConditional?, List.dropWhile_map, hp, aroundConditional?]
  cases scopes.dropWhile (!·.isConditional) <;> rfl

theorem getD_aroundConditional?_down (scopes : List OpenScope) :
    (aroundConditional? (scopes.map (·.down offset))).getD (scopes.map (·.down offset)) =
      ((aroundConditional? scopes).getD scopes).map (·.down offset) := by
  rw [aroundConditional?_down]
  cases aroundConditional? scopes <;> rfl

theorem codeLevel_down (scopes : List OpenScope) (line : List Token) :
    codeLevel (scopes.map (·.down offset)) line = codeLevel scopes line := by
  have hs : ((scopes.drop (leadingClosers line)).map (·.down offset)).head?.any (·.isSwitch) =
      (scopes.drop (leadingClosers line)).head?.any (·.isSwitch) := by
    cases scopes.drop (leadingClosers line) <;> rfl
  simp only [codeLevel, ← List.map_drop, depth_down, hs]

theorem lineLevel_down (scopes : List OpenScope) (line : List Token) :
    lineLevel options (scopes.map (·.down offset)) line = lineLevel options scopes line := by
  simp only [lineLevel, codeLevel_down, getD_aroundConditional?_down, depth_down]

theorem afterDirective_down (line : List Token) :
    (state.down offset).afterDirective options line =
      (state.afterDirective options line).down offset := by
  unfold IndentState.afterDirective
  split
  · rfl
  · simp only [IndentState.down, getD_aroundConditional?_down]
  · rfl

theorem after_down (token : Token) :
    (state.down offset).after token = (state.after token).down offset := by
  cases token with
  | opening bracket => cases bracket <;> rfl
  | closing bracket => simp [IndentState.after, IndentState.down, List.eraseP_map, OpenScope.down,
      Function.comp_def]
  | identifier name =>
      simp only [IndentState.after]
      split <;> rfl
  | _ => rfl

theorem foldl_after_down (tokens : List Token) :
    tokens.foldl IndentState.after (state.down offset) =
      (tokens.foldl IndentState.after state).down offset := by
  induction tokens generalizing state with
  | nil => rfl
  | cons token tokens ih => rw [List.foldl_cons, after_down, ih, List.foldl_cons]

theorem afterLine_down (line : List Token) :
    (state.down offset).afterLine options line = (state.afterLine options line).down offset := by
  simp only [IndentState.afterLine, afterDirective_down, foldl_after_down]
  simp only [IndentState.down, Nat.add_right_comm]

theorem indentLine_down (line : List Token) :
    indentLine options (state.down offset) line = indentLine options state line := by
  have hl : lineLevel options (state.down offset).scopes (lineContent line) =
      lineLevel options state.scopes (lineContent line) := lineLevel_down offset _ _
  simp only [indentLine, hl]

theorem indentFrom_down (tokens : List Token) :
    indentFrom options (state.down offset) tokens = indentFrom options state tokens := by
  induction tokens using line_induction generalizing state with
  | nil => rw [indentFrom_nil, indentFrom_nil]
  | last line hn hl =>
      rw [indentFrom_of_last hl _ hn, indentFrom_of_last hl _ hn, indentLine_down]
  | line line ending rest hl he ih =>
      rw [indentFrom_of_line hl _ he, indentFrom_of_line hl _ he, indentLine_down, afterLine_down,
        ih]

end

/-! ### What lines leave behind -/

/-- Brackets opened every scope around the state, and there are so many of them. -/
structure IndentState.Inside (state : IndentState) (depth : Nat) : Prop where
  length : state.scopes.length = depth
  bracket : ∀ scope ∈ state.scopes, scope.isConditional = false

section
variable {state : IndentState} {depth : Nat}

theorem IndentState.Inside.past_opening (h : state.Inside depth) (bracket : Bracket) :
    (state.past (.opening bracket)).Inside (depth + 1) := by
  have hc {scope : OpenScope} (hs : scope.isConditional = false) :
      { state with scopes := scope :: state.scopes }.Inside (depth + 1) :=
    ⟨congrArg Nat.succ h.length, List.forall_mem_cons.2 ⟨hs, h.bracket⟩⟩
  cases bracket with
  | round => exact hc rfl
  | square => exact hc rfl
  | curly => exact ⟨(hc rfl).length, (hc rfl).bracket⟩

theorem IndentState.Inside.past_closing (h : state.Inside (depth + 1)) (bracket : Bracket) :
    (state.past (.closing bracket)).Inside depth := by
  obtain ⟨scope, scopes, hs⟩ := List.exists_cons_of_length_eq_add_one h.length
  have hb := h.bracket
  have hl := h.length
  rw [hs, List.length_cons] at hl
  rw [hs, List.forall_mem_cons] at hb
  have he : (state.past (.closing bracket)).scopes = scopes := by
    simp [IndentState.past, IndentState.after, isLinebreak, hs, hb.1]
  refine ⟨?_, ?_⟩
  · rw [he]
    omega
  · rw [he]
    exact hb.2

theorem scopes_past_of_not {token : Token} (h : token.isBracket = false) :
    (state.past token).scopes = state.scopes := by
  cases token with
  | opening => cases h
  | closing => cases h
  | identifier name =>
      simp only [IndentState.past, IndentState.after, isLinebreak, Bool.false_eq_true, if_false]
      split <;> rfl
  | _ => rfl

theorem openAfter?_skip {token : Token} (h : token.isBracket = false) (depth : Nat)
    (rest : List Token) : Scope.openAfter? depth (token :: rest) = Scope.openAfter? depth rest := by
  cases token with
  | opening => cases h
  | closing => cases h
  | _ => rfl

theorem inside_foldl_past {tokens : List Token} {final : Nat}
    (h : Scope.openAfter? depth tokens = some final) (hi : state.Inside depth) :
    (tokens.foldl IndentState.past state).Inside final := by
  induction tokens generalizing state depth with
  | nil =>
      cases h
      exact hi
  | cons token tokens ih =>
      rw [List.foldl_cons]
      cases hb : token.isBracket with
      | false =>
          rw [openAfter?_skip hb] at h
          have hs : (state.past token).scopes = state.scopes := scopes_past_of_not hb
          exact ih h ⟨hs ▸ hi.length, hs ▸ hi.bracket⟩
      | true =>
          cases token with
          | opening bracket => exact ih h (hi.past_opening bracket)
          | closing bracket =>
              cases depth with
              | zero => cases h
              | succ outer => exact ih h (hi.past_closing bracket)
          | _ => cases hb

theorem line_foldl_past (state : IndentState) (tokens : List Token) :
    (tokens.foldl IndentState.past state).line = state.line + lineNumber tokens := by
  induction tokens generalizing state with
  | nil => rfl
  | cons token tokens ih =>
      have hl : (state.past token).line = state.line + if token.isLinebreak then 1 else 0 := by
        unfold IndentState.past
        split
        · rfl
        · rw [line_after, Nat.add_zero]
      have hn : lineNumber (token :: tokens) =
          lineNumber tokens + if token.isLinebreak then 1 else 0 := List.countP_cons
      rw [List.foldl_cons, ih, hl, hn]
      omega

/-- A curly bracket takes what a `switch` before it leaves. -/
theorem pendingSwitch_foldl_past {tokens : List Token}
    (hs : ∀ rest, .identifier "switch" :: rest <:+ tokens → .opening .curly ∈ rest)
    (hp : state.pendingSwitch = true → .opening .curly ∈ tokens) :
    (tokens.foldl IndentState.past state).pendingSwitch = false := by
  induction tokens generalizing state with
  | nil =>
      rw [List.foldl_nil, ← Bool.not_eq_true]
      intro h
      cases hp h
  | cons token tokens ih =>
      have hr : ∀ rest, .identifier "switch" :: rest <:+ tokens → .opening .curly ∈ rest :=
        fun rest h => hs rest (h.trans (List.suffix_cons token tokens))
      have hkeep (hn : token ≠ .opening .curly)
          (he : (state.past token).pendingSwitch = state.pendingSwitch) :
          (state.past token).pendingSwitch = true → .opening .curly ∈ tokens := by
        intro h
        rw [he] at h
        exact (List.mem_cons.1 (hp h)).resolve_left (Ne.symm hn)
      rw [List.foldl_cons]
      refine ih hr ?_
      cases token with
      | opening bracket =>
          cases bracket with
          | curly =>
              intro h
              cases h
          | _ => exact hkeep (by simp) rfl
      | identifier name =>
          by_cases hn : name = "switch"
          · subst hn
            exact fun _ => hs tokens (List.suffix_refl _)
          · refine hkeep (by simp) ?_
            simp [IndentState.past, IndentState.after, isLinebreak, hn]
      | _ => exact hkeep (by simp) rfl

end

/-- Closed chunks leave the state at the beginning, so many lines further down. -/
theorem foldl_past_of_closed {tokens : List Token} (ho : Scope.openAfter? 0 tokens = some 0)
    (hs : ∀ rest, .identifier "switch" :: rest <:+ tokens → .opening .curly ∈ rest) :
    tokens.foldl IndentState.past {} = IndentState.down (lineNumber tokens) {} := by
  have hi : (tokens.foldl IndentState.past {}).Inside 0 := inside_foldl_past ho ⟨rfl, nofun⟩
  have hp : (tokens.foldl IndentState.past {}).pendingSwitch = false :=
    pendingSwitch_foldl_past hs nofun
  have hl : (tokens.foldl IndentState.past {}).line = 0 + lineNumber tokens :=
    line_foldl_past {} tokens
  generalize tokens.foldl IndentState.past {} = state at hi hp hl
  obtain ⟨scopes, pending, line⟩ := state
  cases List.length_eq_zero_iff.1 hi.length
  cases hp
  cases hl
  rfl

/-- Whole lines that close each scope they open, whose brackets close no other scope, that give each
`switch` a curly bracket and that have no directives, are indented on their own, and so is what
follows them. -/
theorem indentation_append (options : Options) {first second : List Token} (he : EndsLine first)
    (ho : Scope.openAfter? 0 first = some 0) (hd : ∀ token ∈ first, directive? token = none)
    (hs : ∀ rest, .identifier "switch" :: rest <:+ first → .opening .curly ∈ rest) :
    indentation options (first ++ second) =
      indentation options first ++ indentation options second := by
  calc indentation options (first ++ second)
      = indentation options first ++
          indentFrom options (first.foldl IndentState.past {}) second :=
        indentFrom_append he hd {} second
    _ = indentation options first ++
          indentFrom options (IndentState.down (lineNumber first) {}) second := by
        rw [foldl_past_of_closed ho hs]
    _ = indentation options first ++ indentation options second := by
        rw [indentFrom_down]
        rfl

/-- Two lines of a switch, a case among them, whose brackets close in another order of kinds. -/
def switchTokens : List Token :=
  [.identifier "switch", .opening .round, .opening .curly, .linebreak .lf, .identifier "case",
    .separator .colon, .linebreak .crlf, .closing .round, .closing .curly, .linebreak .lf]

/-- An open scope, a directive and a bracket out of place. -/
def looseTokens : List Token :=
  [.identifier "#if", .opening .curly, .linebreak .lf, .identifier "case", .linebreak .lf,
    .closing .curly, .closing .round, .opening .square, .linebreak .lf, .number "1"]

theorem indentation_append_switch :
    indentation {} (switchTokens ++ looseTokens) =
      indentation {} switchTokens ++ indentation {} looseTokens := by
  have hs : ∀ rest, .identifier "switch" :: rest <:+ switchTokens → .opening .curly ∈ rest := by
    intro rest h
    simp only [switchTokens, List.suffix_cons_iff, List.cons.injEq, true_and, reduceCtorEq,
      false_and, identifier.injEq, String.reduceEq, List.suffix_nil, or_self, or_false] at h
    subst h
    decide
  exact indentation_append {} (by decide) (by decide) (by decide) hs

end Rule

end SourceStyle
