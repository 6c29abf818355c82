import SourceStyle.Linebreak

/-!
Tokens of brace-delimited source and their text. A token list renders to exactly the source it was
read from, so the rules edit token lists.
-/

namespace SourceStyle

inductive Bracket where
  | round
  | square
  | curly
deriving DecidableEq, Repr

def Bracket.openChar : Bracket → Char
  | round => '('
  | square => '['
  | curly => '{'

def Bracket.closeChar : Bracket → Char
  | round => ')'
  | square => ']'
  | curly => '}'

inductive Separator where
  | comma
  | semicolon
  | colon
deriving DecidableEq, Repr

def Separator.char : Separator → Char
  | comma => ','
  | semicolon => ';'
  | colon => ':'

/-- A piece of source. Identifiers include keywords, directives, attributes and escaped names;
whitespace is horizontal. -/
inductive Token where
  | whitespace (text : String)
  | linebreak (ending : Linebreak)
  | identifier (name : String)
  | number (text : String)
  | stringLiteral (text : String)
  | operator (text : String)
  | opening (bracket : Bracket)
  | closing (bracket : Bracket)
  | separator (mark : Separator)
  | lineComment (text : String)
  | blockComment (text : String)
deriving DecidableEq, Repr

namespace Token

def text : Token → String
  | whitespace s | identifier s | number s | stringLiteral s | operator s | lineComment s
  | blockComment s => s
  | linebreak ending => ending.text
  | opening bracket => bracket.openChar.toString
  | closing bracket => bracket.closeChar.toString
  | separator mark => mark.char.toString

def isWhitespace : Token → Bool
  | whitespace _ => true
  | _ => false

def isLinebreak : Token → Bool
  | linebreak _ => true
  | _ => false

def isComment : Token → Bool
  | lineComment _ | blockComment _ => true
  | _ => false

def isLayout (token : Token) : Bool :=
  token.isWhitespace || token.isLinebreak

/-- Whatever is not code: layout and comments. -/
def isTrivia (token : Token) : Bool :=
  token.isLayout || token.isComment

def isClosing : Token → Bool
  | closing _ => true
  | _ => false

def chars (token : Token) : List Char :=
  token.text.toList

@[simp] theorem chars_linebreak (ending : Linebreak) : (linebreak ending).chars = ending.chars := by
  simp [chars, text, Linebreak.text]

@[simp] theorem chars_opening (bracket : Bracket) :
    (opening bracket).chars = [bracket.openChar] := by
  simp [chars, text]

@[simp] theorem chars_closing (bracket : Bracket) :
    (closing bracket).chars = [bracket.closeChar] := by
  simp [chars, text]

@[simp] theorem chars_separator (mark : Separator) : (separator mark).chars = [mark.char] := by
  simp [chars, text]

def renderChars (tokens : List Token) : List Char :=
  tokens.flatMap chars

@[simp] theorem renderChars_nil : renderChars [] = [] := rfl

@[simp] theorem renderChars_cons (token : Token) (tokens : List Token) :
    renderChars (token :: tokens) = token.chars ++ renderChars tokens :=
  List.flatMap_cons

@[simp] theorem renderChars_append (first second : List Token) :
    renderChars (first ++ second) = renderChars first ++ renderChars second :=
  List.flatMap_append

def render (tokens : List Token) : String :=
  String.ofList (renderChars tokens)

/-- The tokens from the first that is not horizontal whitespace. -/
def skipSpace (tokens : List Token) : List Token :=
  tokens.dropWhile isWhitespace

theorem length_skipSpace_le (tokens : List Token) : (skipSpace tokens).length ≤ tokens.length :=
  (List.dropWhile_sublist isWhitespace).length_le

theorem takeWhile_append_skipSpace (tokens : List Token) :
    tokens.takeWhile isWhitespace ++ skipSpace tokens = tokens :=
  List.takeWhile_append_dropWhile

theorem isLayout_of_mem_takeWhile_isWhitespace {tokens : List Token} :
    ∀ token ∈ tokens.takeWhile isWhitespace, token.isLayout = true := by
  intro token hm
  rw [isLayout, List.all_eq_true.1 List.all_takeWhile token hm, Bool.true_or]

theorem eq_append_of_skipSpace_eq {tokens rest : List Token} {token : Token}
    (h : skipSpace tokens = token :: rest) :
    tokens = tokens.takeWhile isWhitespace ++ token :: rest := by
  rw [← h, takeWhile_append_skipSpace]

theorem isWhitespace_of_skipSpace_eq {tokens rest : List Token} {token : Token}
    (h : skipSpace tokens = token :: rest) : token.isWhitespace = false := by
  have hn := List.head?_dropWhile_not isWhitespace tokens
  rw [← skipSpace, h] at hn
  simpa using hn

theorem length_of_skipSpace_eq {tokens rest : List Token} {token : Token}
    (h : skipSpace tokens = token :: rest) : rest.length < tokens.length := by
  have := length_skipSpace_le tokens
  rw [h, List.length_cons] at this
  omega

end Token
end SourceStyle
