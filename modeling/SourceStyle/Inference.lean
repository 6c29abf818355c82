import SourceStyle.Listing
import SourceStyle.Options.Vocabulary
import SourceStyle.Rule.HexLiterals
import SourceStyle.Rule.Ranges
import SourceStyle.Token.Lexer

/-!
Options inferred from existing source. Every observation in every file casts one vote, and a choice
with more votes than any other wins.
-/

namespace SourceStyle.Inference

open Token

/-- The vote that occurs more often than every other, or else the default. -/
def plurality {α : Type} [DecidableEq α] (votes : List α) (default : α) : α :=
  let values := votes.eraseDups
  match values.filter fun v => values.all fun w => votes.count w ≤ votes.count v with
  | [leader] => leader
  | _ => default

/-- The votes of source files on each choice that can be inferred. -/
structure Votes where
  indent : List Indent := []
  linebreak : List Linebreak := []
  allmanBraces : List Bool := []
  inlineSemicolons : List Bool := []
  trailingCommas : List Bool := []
  spacedRanges : List Bool := []
  useVoid : List Bool := []
  truncateBlankLines : List Bool := []
  uppercaseHex : List Bool := []
deriving DecidableEq, Repr

def Votes.append (votes more : Votes) : Votes where
  indent := votes.indent ++ more.indent
  linebreak := votes.linebreak ++ more.linebreak
  allmanBraces := votes.allmanBraces ++ more.allmanBraces
  inlineSemicolons := votes.inlineSemicolons ++ more.inlineSemicolons
  trailingCommas := votes.trailingCommas ++ more.trailingCommas
  spacedRanges := votes.spacedRanges ++ more.spacedRanges
  useVoid := votes.useVoid ++ more.useVoid
  truncateBlankLines := votes.truncateBlankLines ++ more.truncateBlankLines
  uppercaseHex := votes.uppercaseHex ++ more.uppercaseHex

/-- The options that the votes decide; the others keep their defaults. -/
def Votes.options (votes : Votes) : Options :=
  let default : Options := {}
  { default with
    indent := plurality votes.indent default.indent
    linebreak := plurality votes.linebreak default.linebreak
    allmanBraces := plurality votes.allmanBraces default.allmanBraces
    inlineSemicolons := plurality votes.inlineSemicolons default.inlineSemicolons
    trailingCommas := plurality votes.trailingCommas default.trailingCommas
    spacedRanges := plurality votes.spacedRanges default.spacedRanges
    useVoid := plurality votes.useVoid default.useVoid
    truncateBlankLines := plurality votes.truncateBlankLines default.truncateBlankLines
    uppercaseHex := plurality votes.uppercaseHex default.uppercaseHex }

/-- A token with the tokens before it, last one first, and those after it. -/
structure Context where
  before : List Token
  token : Token
  after : List Token
deriving DecidableEq, Repr

/-- Every token of a list in its context, where `before` precedes the list, last token first. -/
def contextsAfter (before : List Token) : List Token → List Context
  | [] => []
  | token :: rest =>
    { before, token, after := rest } :: contextsAfter (token :: before) rest

def contexts (tokens : List Token) : List Context :=
  contextsAfter [] tokens

def isContent (token : Token) : Bool :=
  !token.isWhitespace && !token.isComment

def linebreakVote? : Token → Option Linebreak
  | .linebreak ending => some ending
  | _ => none

def isInlineSemicolon (context : Context) : Bool :=
  context.token == .separator .semicolon &&
    match skipSpace context.after with
    | [] | .linebreak _ :: _ | .lineComment _ :: _ => false
    | _ => true

/-- A file with any content votes once on semicolons. -/
def semicolonVotes (tokens : List Token) : List Bool :=
  if tokens.any isContent then [(contexts tokens).any isInlineSemicolon] else []

/-- The vote of a square bracket that closes a literal on a line of its own. -/
def commaVote? (context : Context) : Option Bool :=
  if context.token = .closing .square ∧ (skipSpace context.before).head?.any isLinebreak then
    match context.before.dropWhile isTrivia with
    | .separator .comma :: _ => some true
    | [] | .opening .square :: _ | .separator .colon :: _ => none
    | _ => some false
  else none

/-- Tokens beside a range operator that has no space there. -/
def touchesRange : Token → Bool
  | .identifier _ | .number _ => true
  | _ => false

/-- The vote of a range operator: space on both sides, or an operand at either side. -/
def rangeVote? (context : Context) : Option Bool :=
  match context.before, context.token, context.after with
  | before :: _, .operator text, after :: _ =>
    if !Rule.isRangeOperator text then none
    else if before.isWhitespace && after.isWhitespace then some true
    else if (touchesRange before || before == .closing .round) &&
        (touchesRange after || after == .opening .round) then some false
    else none
  | _, _, _ => none

def voidVote? (context : Context) : Option Bool :=
  if context.token = .operator "->" then
    match skipSpace context.after with
    | .identifier name :: _ => if name = "Void" then some true else none
    | .opening .round :: .closing .round :: _ => some false
    | _ => none
  else none

def hexVote? : Token → Option Bool
  | .number text =>
    let letters := ((Rule.hexDigits? text.toList).getD []).filter Char.isAlpha
    if letters.isEmpty then none
    else if letters.all Char.isUpper then some true
    else if letters.all Char.isLower then some false
    else none
  | _ => none

def lineIndentation : List Token → List Char
  | .whitespace text :: _ => text.toList
  | _ => []

/-- The lines that end in a terminator, without it; `line` is what precedes the tokens on their
line, last token first. -/
def terminatedLinesAfter (line : List Token) : List Token → List (List Token)
  | [] => []
  | .linebreak _ :: rest => line.reverse :: terminatedLinesAfter [] rest
  | token :: rest => terminatedLinesAfter (token :: line) rest

def terminatedLines (tokens : List Token) : List (List Token) :=
  terminatedLinesAfter [] tokens

/-- A line of whitespace alone votes on whether such lines are truncated. -/
def blankLineVote? (line : List Token) : Option Bool :=
  if line.all isWhitespace then some (lineIndentation line).isEmpty else none

/-- Whether a line's content ends in an opening curly bracket. -/
def opensBlock (line : List Token) : Bool :=
  (line.filter isContent).getLast? == some (.opening .curly)

/-- A line that opens a block votes on whether its bracket stands alone. -/
def braceVote? (line : List Token) : Option Bool :=
  if opensBlock line then some ((line.filter isContent).length == 1) else none

/-- The step from one indentation to a deeper one that continues it. -/
def stepVote? (outer inner : List Char) : Option Indent :=
  if outer.isPrefixOf inner then
    match inner.drop outer.length with
    | [] => none
    | step =>
      if step.contains '\t' then some .tab
      else if step.length ≤ Setting.maxIndent then some (.spaces step.length)
      else none
  else none

/-- The votes on indentation of lines with content: each may vote after one that opens a block. -/
def indentVotes : List (List Token) → List Indent
  | outer :: inner :: rest =>
    let vote :=
      if opensBlock outer then stepVote? (lineIndentation outer) (lineIndentation inner) else none
    vote.toList ++ indentVotes (inner :: rest)
  | _ => []

def observe (tokens : List Token) : Votes :=
  let lines := terminatedLines tokens
  let around := contexts tokens
  { indent := indentVotes (lines.filter (·.any isContent))
    linebreak := tokens.filterMap linebreakVote?
    allmanBraces := lines.filterMap braceVote?
    inlineSemicolons := semicolonVotes tokens
    trailingCommas := around.filterMap commaVote?
    spacedRanges := around.filterMap rangeVote?
    useVoid := around.filterMap voidVote?
    truncateBlankLines := lines.filterMap blankLineVote?
    uppercaseHex := tokens.filterMap hexVote? }

/-- The votes of a file's text, none if it cannot be read as source. -/
def observeSource (source : String) : Votes :=
  match tokenize source with
  | .ok tokens => observe tokens
  | .error _ => {}

/-- The votes of files. Those that cannot be read cast none. -/
def observeFiles (tree : FileTree) (files : List String) : Votes :=
  files.foldl (fun votes file =>
    match tree.readText file with
    | .ok source => votes.append (observeSource source)
    | .error _ => votes) {}

/-- The number of source files at or below a path, and the options that they suggest. -/
def inferOptions (tree : FileTree) (root : String) : Except Failure (Nat × Options) :=
  match tree.sourceFiles root with
  | .error failure => .error failure
  | .ok files => .ok (files.length, (observeFiles tree files).options)

end SourceStyle.Inference
