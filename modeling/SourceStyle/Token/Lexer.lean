import SourceStyle.Text.Alphabetic
import SourceStyle.Text.Numeric
import SourceStyle.Token.Fault

/-!
Splitting source into tokens. Each scanner takes a lexeme off the front of the characters; a token
is followed by a strictly shorter rest.
-/

namespace SourceStyle.Lexer

open SourceStyle.Text

def operatorChars : List Char :=
  ['/', '=', '-', '+', '!', '*', '%', '<', '>', '&', '|', '^', '~', '?', '.']

def isOperatorChar (c : Char) : Bool :=
  operatorChars.contains c

def isIdentifierHead (c : Char) : Bool :=
  c == '_' || isAlphabetic c || c == '#' || c == '@' || c == '$'

def isIdentifierTail (c : Char) : Bool :=
  c == '_' || isAlphabetic c || isNumeric c

def isSpace (c : Char) : Bool :=
  c == ' ' || c == '\t'

def isLineEnd (c : Char) : Bool :=
  c == '\n' || c == '\r'

/-- A lexeme, the characters after it, and the line terminators counted inside it. -/
structure Lexeme where
  chars : List Char
  rest : List Char
  lines : Nat := 0
deriving DecidableEq, Repr

/-- The lexeme with more characters, and more terminators, in front. -/
def Lexeme.after (taken : List Char) (lines : Nat) (lexeme : Lexeme) : Lexeme :=
  { lexeme with chars := taken ++ lexeme.chars, lines := lines + lexeme.lines }

/-- One if a line ends with this character, given what follows it; a carriage return before a line
feed ends none. -/
def lineEnds (c : Char) (rest : List Char) : Nat :=
  if c = '\n' ∨ (c = '\r' ∧ rest.head? ≠ some '\n') then 1 else 0

/-- What follows the two characters that open a comment: everything up to the end of the outermost
comment, where `depth` counts the comments open around the outermost one's inside. -/
def blockComment? (depth : Nat) : List Char → Option Lexeme
  | [] => none
  | '/' :: '*' :: rest => (blockComment? (depth + 1) rest).map (.after ['/', '*'] 0)
  | '*' :: '/' :: rest =>
    match depth with
    | 0 => some { chars := ['*', '/'], rest }
    | outer + 1 => (blockComment? outer rest).map (.after ['*', '/'] 0)
  | c :: rest => (blockComment? depth rest).map (.after [c] (lineEnds c rest))

/-- What follows the three quotes that open a string of several lines. An escape takes the
character after the backslash, a line terminator too, and does not count it. -/
def multilineString? : List Char → Option Lexeme
  | [] => none
  | '"' :: '"' :: '"' :: rest => some { chars := ['"', '"', '"'], rest }
  | '\\' :: c :: rest => (multilineString? rest).map (.after ['\\', c] 0)
  | c :: rest => (multilineString? rest).map (.after [c] (lineEnds c rest))

/-- Where a scan of a quoted string is: in the text of a literal, or in the code of an interpolation
with `depth` parentheses open beyond its own. `outer` lists the depths of the interpolations around.
-/
inductive QuoteState where
  | text (outer : List Nat)
  | code (depth : Nat) (outer : List Nat)
deriving DecidableEq, Repr

/-- What follows the quote that opens a string of one line, up to the quote that closes it.
Interpolations hold code, which may hold strings again. -/
def quotedString : QuoteState → List Char → Except SyntaxFault Lexeme
  | .text _, [] => .error .unterminatedString
  | .text [], '"' :: rest => .ok { chars := ['"'], rest }
  | .text (depth :: outer), '"' :: rest =>
    (quotedString (.code depth outer) rest).map (.after ['"'] 0)
  | .text outer, '\\' :: '(' :: rest =>
    (quotedString (.code 0 outer) rest).map (.after ['\\', '('] 0)
  | .text outer, '\\' :: c :: rest => (quotedString (.text outer) rest).map (.after ['\\', c] 0)
  | .text outer, c :: rest =>
    if isLineEnd c || c == '\\' then .error .unterminatedString
    else (quotedString (.text outer) rest).map (.after [c] 0)
  | .code _ _, [] => .error .unterminatedInterpolation
  | .code depth outer, '(' :: rest =>
    (quotedString (.code (depth + 1) outer) rest).map (.after ['('] 0)
  | .code 0 outer, ')' :: rest => (quotedString (.text outer) rest).map (.after [')'] 0)
  | .code (depth + 1) outer, ')' :: rest =>
    (quotedString (.code depth outer) rest).map (.after [')'] 0)
  | .code depth outer, '"' :: rest =>
    (quotedString (.text (depth :: outer)) rest).map (.after ['"'] 0)
  | .code depth outer, c :: rest =>
    if isLineEnd c then .error .unterminatedInterpolation
    else (quotedString (.code depth outer) rest).map (.after [c] 0)

/-- The characters of a number and the rest. A point belongs to it if an ASCII digit follows. -/
def numberTail : List Char → List Char × List Char
  | [] => ([], [])
  | c :: rest =>
    if isIdentifierTail c || (c == '.' && rest.head?.any Char.isDigit) then
      let tail := numberTail rest
      (c :: tail.1, tail.2)
    else ([], c :: rest)

/-- The characters that continue an operator and the rest. A comment ends an operator. -/
def operatorTail : List Char → List Char × List Char
  | [] => ([], [])
  | c :: rest =>
    if !isOperatorChar c || (c == '/' && rest.head?.any fun d => d == '/' || d == '*') then
      ([], c :: rest)
    else
      let tail := operatorTail rest
      (c :: tail.1, tail.2)

/-- A token, the characters after it, and the line terminators that reading it passed. -/
structure Step where
  token : Token
  rest : List Char
  lines : Nat := 0
deriving DecidableEq, Repr

def punctuation? : Char → Option Token
  | '(' => some (.opening .round)
  | '[' => some (.opening .square)
  | '{' => some (.opening .curly)
  | ')' => some (.closing .round)
  | ']' => some (.closing .square)
  | '}' => some (.closing .curly)
  | ',' => some (.separator .comma)
  | ';' => some (.separator .semicolon)
  | ':' => some (.separator .colon)
  | _ => none

def carriageReturn : List Char → Step
  | '\n' :: rest => { token := .linebreak .crlf, rest, lines := 1 }
  | rest => { token := .linebreak .cr, rest, lines := 1 }

def afterSlash : List Char → Except SyntaxFault Step
  | '/' :: rest =>
    .ok { token := .lineComment (String.ofList ('/' :: '/' :: rest.takeWhile (!isLineEnd ·)))
          rest := rest.dropWhile (!isLineEnd ·) }
  | '*' :: rest =>
    match blockComment? 0 rest with
    | some lexeme =>
      .ok { token := .blockComment (String.ofList ('/' :: '*' :: lexeme.chars))
            rest := lexeme.rest
            lines := lexeme.lines }
    | none => .error .unterminatedComment
  | rest =>
    .ok { token := .operator (String.ofList ('/' :: (operatorTail rest).1))
          rest := (operatorTail rest).2 }

def afterQuote : List Char → Except SyntaxFault Step
  | '"' :: '"' :: rest =>
    match multilineString? rest with
    | some lexeme =>
      .ok { token := .stringLiteral (String.ofList ('"' :: '"' :: '"' :: lexeme.chars))
            rest := lexeme.rest
            lines := lexeme.lines }
    | none => .error .unterminatedString
  | rest =>
    match quotedString (.text []) rest with
    | .ok lexeme =>
      .ok { token := .stringLiteral (String.ofList ('"' :: lexeme.chars)), rest := lexeme.rest }
    | .error fault => .error fault

def isEscapedChar (c : Char) : Bool :=
  c != '\x60' && !isLineEnd c

def afterBackquote (rest : List Char) : Except SyntaxFault Step :=
  match rest.dropWhile isEscapedChar with
  | '\x60' :: after =>
    let name := rest.takeWhile isEscapedChar
    .ok { token := .identifier (String.ofList ('\x60' :: (name ++ ['\x60']))), rest := after }
  | _ => .error .unterminatedName

/-- The token whose first character is given, with as many of the characters after it as it takes.
-/
def next (c : Char) (rest : List Char) : Except SyntaxFault Step :=
  if isSpace c then
    .ok { token := .whitespace (String.ofList (c :: rest.takeWhile isSpace))
          rest := rest.dropWhile isSpace }
  else if c = '\n' then .ok { token := .linebreak .lf, rest, lines := 1 }
  else if c = '\r' then .ok (carriageReturn rest)
  else if c = '/' then afterSlash rest
  else if c = '"' then afterQuote rest
  else if c = '\x60' then afterBackquote rest
  else if c.isDigit then
    .ok { token := .number (String.ofList (c :: (numberTail rest).1)), rest := (numberTail rest).2 }
  else if isIdentifierHead c then
    .ok { token := .identifier (String.ofList (c :: rest.takeWhile isIdentifierTail))
          rest := rest.dropWhile isIdentifierTail }
  else if isOperatorChar c then
    .ok { token := .operator (String.ofList (c :: (operatorTail rest).1))
          rest := (operatorTail rest).2 }
  else
    match punctuation? c with
    | some token => .ok { token, rest }
    | none => .ok { token := .operator c.toString, rest }

theorem Lexeme.after_append {taken source : List Char} {lines : Nat} {lexeme : Lexeme}
    (h : lexeme.chars ++ lexeme.rest = source) :
    (lexeme.after taken lines).chars ++ (lexeme.after taken lines).rest = taken ++ source := by
  simp [Lexeme.after, h]

theorem blockComment?_append {depth : Nat} {source : List Char} {lexeme : Lexeme}
    (h : blockComment? depth source = some lexeme) : lexeme.chars ++ lexeme.rest = source := by
  fun_induction blockComment? depth source generalizing lexeme with
  | case1 => simp at h
  | case3 => simp only [Option.some.injEq] at h; subst h; rfl
  | case2 _ _ ih | case4 _ _ ih | case5 _ _ _ _ _ ih =>
    obtain ⟨inner, hi, rfl⟩ := Option.map_eq_some_iff.1 h
    exact Lexeme.after_append (ih hi)

/-- A string of several lines is cut off where it ends. -/
theorem multilineString?_append {source : List Char} {lexeme : Lexeme}
    (h : multilineString? source = some lexeme) : lexeme.chars ++ lexeme.rest = source := by
  fun_induction multilineString? source generalizing lexeme with
  | case1 => simp at h
  | case2 => simp only [Option.some.injEq] at h; subst h; rfl
  | case3 _ _ ih | case4 _ _ _ _ ih =>
    obtain ⟨inner, hi, rfl⟩ := Option.map_eq_some_iff.1 h
    exact Lexeme.after_append (ih hi)

theorem map_after_append {result : Except SyntaxFault Lexeme} {taken source : List Char}
    {lines : Nat} {lexeme : Lexeme} (h : result.map (.after taken lines) = .ok lexeme)
    (ih : ∀ {inner}, result = .ok inner → inner.chars ++ inner.rest = source) :
    lexeme.chars ++ lexeme.rest = taken ++ source := by
  cases result with
  | error => simp [Except.map] at h
  | ok inner =>
    simp only [Except.map, Except.ok.injEq] at h
    subst h
    exact Lexeme.after_append (ih rfl)

/-- A string of one line is cut off where it ends. -/
theorem quotedString_append {state : QuoteState} {source : List Char} {lexeme : Lexeme}
    (h : quotedString state source = .ok lexeme) : lexeme.chars ++ lexeme.rest = source := by
  fun_induction quotedString state source generalizing lexeme with
  | case1 | case6 | case8 | case13 => simp at h
  | case2 => simp only [Except.ok.injEq] at h; subst h; rfl
  | case3 _ _ _ ih | case4 _ _ ih | case9 _ _ _ ih | case10 _ _ ih | case11 _ _ _ ih
  | case12 _ _ _ ih | case5 _ _ _ _ ih => exact map_after_append h ih
  | case7 | case14 => rename_i ih; exact map_after_append h ih

theorem numberTail_append (source : List Char) :
    (numberTail source).1 ++ (numberTail source).2 = source := by
  fun_induction numberTail source with
  | case1 => rfl
  | case2 c rest _ _ ih => exact congrArg (c :: ·) ih
  | case3 => rfl

theorem operatorTail_append (source : List Char) :
    (operatorTail source).1 ++ (operatorTail source).2 = source := by
  fun_induction operatorTail source with
  | case1 => rfl
  | case2 => rfl
  | case3 c rest _ _ ih => exact congrArg (c :: ·) ih

/-- The token begins with the character, and its other characters and the rest are together the
characters that followed. -/
def Step.Takes (step : Step) (c : Char) (following : List Char) : Prop :=
  ∃ more, step.token.chars = c :: more ∧ more ++ step.rest = following

theorem punctuation?_chars {c : Char} {token : Token} (h : punctuation? c = some token) :
    token.chars = [c] := by
  unfold punctuation? at h
  split at h <;> simp_all <;> subst h <;> simp [Bracket.openChar, Bracket.closeChar, Separator.char]

theorem carriageReturn_takes (rest : List Char) : (carriageReturn rest).Takes '\r' rest := by
  unfold carriageReturn
  split
  · exact ⟨['\n'], by simp [Linebreak.chars], rfl⟩
  · exact ⟨[], by simp [Linebreak.chars], rfl⟩

theorem afterSlash_takes {rest : List Char} {step : Step} (h : afterSlash rest = .ok step) :
    step.Takes '/' rest := by
  unfold afterSlash at h
  split at h
  · cases h
    exact ⟨_, String.toList_ofList, by simp⟩
  · split at h
    · cases h
      exact ⟨_, String.toList_ofList, by simp [blockComment?_append ‹_›]⟩
    · simp at h
  · cases h
    exact ⟨_, String.toList_ofList, by simp [operatorTail_append]⟩

theorem afterQuote_takes {rest : List Char} {step : Step} (h : afterQuote rest = .ok step) :
    step.Takes '"' rest := by
  unfold afterQuote at h
  split at h
  · split at h
    · cases h
      exact ⟨_, String.toList_ofList, by simp [multilineString?_append ‹_›]⟩
    · simp at h
  · split at h
    · cases h
      exact ⟨_, String.toList_ofList, by simp [quotedString_append ‹_›]⟩
    · simp at h

theorem afterBackquote_takes {rest : List Char} {step : Step}
    (h : afterBackquote rest = .ok step) : step.Takes '\x60' rest := by
  unfold afterBackquote at h
  split at h
  · rename_i after heq
    cases h
    refine ⟨_, String.toList_ofList, ?_⟩
    simp only [List.append_assoc, List.cons_append, List.nil_append, ← heq,
      List.takeWhile_append_dropWhile]
  · simp at h

/-- A token takes its first character and a part of what follows, and leaves the rest. -/
theorem next_takes {c : Char} {rest : List Char} {step : Step} (h : next c rest = .ok step) :
    step.Takes c rest := by
  unfold next at h
  split at h
  · cases h; exact ⟨_, String.toList_ofList, by simp⟩
  split at h
  · subst c; cases h; exact ⟨[], by simp [Linebreak.chars], rfl⟩
  split at h
  · subst c; cases h; exact carriageReturn_takes rest
  split at h
  · subst c; exact afterSlash_takes h
  split at h
  · subst c; exact afterQuote_takes h
  split at h
  · subst c; exact afterBackquote_takes h
  split at h
  · cases h; exact ⟨_, String.toList_ofList, by simp [numberTail_append]⟩
  split at h
  · cases h; exact ⟨_, String.toList_ofList, by simp⟩
  split at h
  · cases h; exact ⟨_, String.toList_ofList, by simp [operatorTail_append]⟩
  split at h
  · cases h; exact ⟨[], by simp [punctuation?_chars ‹_›], rfl⟩
  · cases h; exact ⟨[], by simp [Token.chars, Token.text], rfl⟩

/-- Every token leaves less than it was read from. -/
theorem length_rest_le {c : Char} {rest : List Char} {step : Step} (h : next c rest = .ok step) :
    step.rest.length ≤ rest.length := by
  obtain ⟨more, _, rfl⟩ := next_takes h
  simp

def tokensFrom (line : Nat) (source : List Char) : Except SyntaxError (List Token) :=
  match source with
  | [] => .ok []
  | c :: rest =>
    match h : next c rest with
    | .error fault => .error { line, fault }
    | .ok step =>
      have : step.rest.length < rest.length + 1 := Nat.lt_succ_of_le (length_rest_le h)
      (tokensFrom (line + step.lines) step.rest).map (step.token :: ·)
termination_by source.length

end SourceStyle.Lexer

namespace SourceStyle

def tokenize (source : String) : Except SyntaxError (List Token) :=
  Lexer.tokensFrom 1 source.toList

end SourceStyle
