import SourceStyle.Options
import SourceStyle.Token.Lexer

/-!
Indentation by open scopes. Scopes opened on one line indent once; labels of a switch align with
it; directives of conditional compilation follow the options.
-/

namespace SourceStyle.Rule

open Token

/-- An open scope: the line it was opened on, whether it is the body of a switch, and whether a
directive opened it. -/
structure OpenScope where
  line : Nat
  isSwitch : Bool := false
  isConditional : Bool := false
deriving DecidableEq, Repr

inductive Directive where
  | begins
  | continues
  | ends
deriving DecidableEq, Repr

def directive? : Token → Option Directive
  | .identifier name =>
    if name = "#if" then some .begins
    else if name = "#else" ∨ name = "#elseif" then some .continues
    else if name = "#endif" then some .ends
    else none
  | _ => none

/-- The levels of indentation that scopes, innermost first, contribute. -/
def depth : List OpenScope → Nat
  | [] => 0
  | [_] => 1
  | scope :: outer :: rest => depth (outer :: rest) + if scope.line = outer.line then 0 else 1

/-- The closing brackets that a line begins with, whitespace aside. -/
def leadingClosers (line : List Token) : Nat :=
  ((line.filter (!·.isWhitespace)).takeWhile isClosing).length

def startsCase : List Token → Bool
  | .identifier name :: rest =>
    name == "case" ||
      (name == "default" && (skipSpace rest).head? == some (.separator .colon))
  | _ => false

def aroundConditional? (scopes : List OpenScope) : Option (List OpenScope) :=
  match scopes.dropWhile (!·.isConditional) with
  | [] => none
  | _ :: outer => some outer

/-- What indentation knows at the beginning of a line. -/
structure IndentState where
  scopes : List OpenScope := []
  pendingSwitch : Bool := false
  line : Nat := 0
deriving DecidableEq, Repr

/-- The level of a line of code, closing brackets and cases outdented. -/
def codeLevel (scopes : List OpenScope) (line : List Token) : Nat :=
  let kept := scopes.drop (leadingClosers line)
  if kept.head?.any (·.isSwitch) && startsCase line then depth kept - 1 else depth kept

def lineLevel (options : Options) (scopes : List OpenScope) (line : List Token) : Nat :=
  match line.head?.bind directive?, options.directiveIndent with
  | some _, .outdent => 0
  | some .continues, .indent | some .ends, .indent =>
    depth ((aroundConditional? scopes).getD scopes)
  | _, _ => codeLevel scopes line

/-- The state with the scope of a directive opened or closed, where directives indent. -/
def IndentState.afterDirective (options : Options) (state : IndentState) (line : List Token) :
    IndentState :=
  match line.head?.bind directive?, options.directiveIndent with
  | some .begins, .indent =>
    { state with scopes := { line := state.line, isConditional := true } :: state.scopes }
  | some .ends, .indent =>
    { state with scopes := (aroundConditional? state.scopes).getD state.scopes }
  | _, _ => state

/-- The state after a token. A closing bracket closes the innermost scope that a bracket opened. -/
def IndentState.after (state : IndentState) : Token → IndentState
  | .opening .curly =>
    { state with
      scopes := { line := state.line, isSwitch := state.pendingSwitch } :: state.scopes
      pendingSwitch := false }
  | .opening _ => { state with scopes := { line := state.line } :: state.scopes }
  | .closing _ => { state with scopes := state.scopes.eraseP (!·.isConditional) }
  | .identifier name => if name = "switch" then { state with pendingSwitch := true } else state
  | _ => state

/-- A block comment with those of its later lines that begin with a star set one column inside the
indentation. -/
def reindentComment (indentation : List Char) (text : List Char) : List Char :=
  match text with
  | [] => []
  | c :: rest =>
    if c = '\n' ∧ (rest.dropWhile Lexer.isSpace).head? = some '*' then
      c :: (indentation ++ ' ' :: reindentComment indentation (rest.dropWhile Lexer.isSpace))
    else c :: reindentComment indentation rest
termination_by text.length
decreasing_by
  all_goals
    have := (List.dropWhile_sublist Lexer.isSpace (l := rest)).length_le
    simp only [List.length_cons]
    omega

theorem head?_reindentComment (indentation text : List Char) :
    (reindentComment indentation text).head? = text.head? := by
  cases text with
  | nil => rw [reindentComment]
  | cons c rest =>
      rw [reindentComment]
      split <;> rfl

/-- The token with its later lines indented, if it is a block comment. -/
def reindentToken (indentation : List Char) : Token → Token
  | .blockComment text => .blockComment (String.ofList (reindentComment indentation text.toList))
  | token => token

def indentationTokens (indentation : List Char) : List Token :=
  if indentation = [] then [] else [.whitespace (String.ofList indentation)]

def lineContent : List Token → List Token
  | .whitespace _ :: rest => rest
  | line => line

def lineLead : List Token → List Token
  | .whitespace text :: _ => [.whitespace text]
  | _ => []

/-- A line, without its terminator, with the indentation that the state gives it. -/
def indentLine (options : Options) (state : IndentState) (line : List Token) : List Token :=
  let content := lineContent line
  let indentation :=
    (List.replicate (lineLevel options state.scopes content) options.indent.unit).flatten
  let lead :=
    if content.head?.any isComment && !options.indentComments then lineLead line
    else if content.isEmpty && options.truncateBlankLines then []
    else indentationTokens indentation
  lead ++ if options.indentComments then content.map (reindentToken indentation) else content

def IndentState.afterLine (options : Options) (state : IndentState) (line : List Token) :
    IndentState :=
  let content := lineContent line
  let state := content.foldl IndentState.after (state.afterDirective options content)
  { state with line := state.line + 1 }

def indentFrom (options : Options) (state : IndentState) (tokens : List Token) : List Token :=
  if tokens.isEmpty then []
  else
    let line := tokens.takeWhile (!·.isLinebreak)
    match h : tokens.dropWhile (!·.isLinebreak) with
    | [] => indentLine options state line
    | ending :: rest =>
      have : rest.length < tokens.length := by
        have := (List.dropWhile_sublist (fun t : Token => !t.isLinebreak) (l := tokens)).length_le
        rw [h, List.length_cons] at this
        omega
      indentLine options state line ++
        ending :: indentFrom options (state.afterLine options line) rest
termination_by tokens.length

theorem isLayout_reindentToken (indentation : List Char) (token : Token) :
    (reindentToken indentation token).isLayout = token.isLayout := by
  cases token <;> rfl

def levels (options : Options) (level : Nat) : List Char :=
  (List.replicate level options.indent.unit).flatten

theorem isSpace_of_mem_levels {options : Options} {level : Nat} :
    ∀ c ∈ levels options level, Lexer.isSpace c = true := by
  intro c hc
  obtain ⟨unit, hu, hm⟩ := List.mem_flatten.1 hc
  rw [List.eq_of_mem_replicate hu] at hm
  cases hi : options.indent with
  | tab =>
      simp only [hi, Indent.unit, List.mem_singleton] at hm
      subst hm
      rfl
  | spaces width =>
      rw [hi, Indent.unit] at hm
      rw [List.eq_of_mem_replicate hm]
      rfl

theorem lineLead_append_lineContent (line : List Token) : lineLead line ++ lineContent line = line := by
  unfold lineLead lineContent
  split <;> rfl

theorem isWhitespace_of_mem_lineLead {line : List Token} :
    ∀ token ∈ lineLead line, token.isWhitespace = true := by
  unfold lineLead
  split
  · simp [isWhitespace]
  · simp

theorem isWhitespace_of_mem_indentationTokens {indentation : List Char} :
    ∀ token ∈ indentationTokens indentation, token.isWhitespace = true := by
  unfold indentationTokens
  split
  · simp
  · simp [isWhitespace]

/-- An indented line is its indentation, perhaps the old one or none, and what the line holds, its
comments perhaps indented. -/
theorem indentLine_eq (options : Options) (state : IndentState) (line : List Token) :
    ∃ lead level respell,
      (lead = lineLead line ∨ lead = [] ∨ lead = indentationTokens (levels options level)) ∧
      (respell = id ∨ respell = reindentToken (levels options level)) ∧
      indentLine options state line = lead ++ (lineContent line).map respell := by
  let level := lineLevel options state.scopes (lineContent line)
  let lead :=
    if (lineContent line).head?.any isComment && !options.indentComments then lineLead line
    else if (lineContent line).isEmpty && options.truncateBlankLines then []
    else indentationTokens (levels options level)
  have hl : lead = lineLead line ∨ lead = [] ∨
      lead = indentationTokens (levels options level) := by
    by_cases hk : ((lineContent line).head?.any isComment && !options.indentComments) = true
    · exact .inl (by simp only [lead, if_pos hk])
    · by_cases hb : ((lineContent line).isEmpty && options.truncateBlankLines) = true
      · exact .inr (.inl (by simp only [lead, if_neg hk, if_pos hb]))
      · exact .inr (.inr (by simp only [lead, if_neg hk, if_neg hb]))
  cases hc : options.indentComments with
  | true =>
      refine ⟨lead, level, _, hl, .inr rfl, ?_⟩
      simp only [indentLine, lead, level, levels, hc, if_true]
  | false =>
      refine ⟨lead, level, _, hl, .inl rfl, ?_⟩
      simp only [indentLine, lead, level, levels, hc, Bool.false_eq_true, if_false, List.map_id]

theorem isLinebreak_of_dropWhile {tokens rest : List Token} {ending : Token}
    (h : tokens.dropWhile (fun token => !token.isLinebreak) = ending :: rest) :
    ending.isLinebreak = true := by
  have hd := List.head?_dropWhile_not (fun token : Token => !token.isLinebreak) tokens
  rw [h] at hd
  simpa using hd

theorem takeWhile_append_of_dropWhile {p : Token → Bool} {tokens rest : List Token}
    (h : tokens.dropWhile p = rest) : tokens.takeWhile p ++ rest = tokens := by
  rw [← h, List.takeWhile_append_dropWhile]

def indentation (options : Options) (tokens : List Token) : List Token :=
  indentFrom options {} tokens

end SourceStyle.Rule
