import SourceStyle.Yaml.Ambiguity

/-!
Spelling scalars so that they read back: plain, in quotes, or as a block, whichever is the plainest
that keeps the text.
-/

namespace SourceStyle.Yaml

def isShowable (c : Char) : Bool :=
  c == '\n' || (0x20 ≤ c.toNat && c.toNat ≤ 0x7E) ||
    (0xA0 ≤ c.toNat && c.toNat ≤ 0xFFFD && c.toNat != 0xFEFF)

def hexDigit (value : Nat) : Char :=
  if value < 10 then Char.ofNat ('0'.toNat + value) else Char.ofNat ('A'.toNat + (value - 10))

def hexDigits : Nat → Nat → List Char
  | 0, _ => []
  | width + 1, value => hexDigits width (value / 16) ++ [hexDigit (value % 16)]

def escapeChar (c : Char) : List Char :=
  if isShowable c && !isBreakChar c && c != '"' && c != '\\' then [c]
  else
    match Scalar.letterEscapes.find? (·.2 == c) with
    | some (letter, _) => ['\\', letter]
    | none =>
      if c.toNat < 0x100 then '\\' :: 'x' :: hexDigits 2 c.toNat
      else if c.toNat < 0x10000 then '\\' :: 'u' :: hexDigits 4 c.toNat
      else '\\' :: 'U' :: hexDigits 8 c.toNat

/-- Whether text ends or goes on with space or a line end. -/
def atSpace (text : List Char) : Bool :=
  text.head?.all fun c => isBlankChar c || isBreakChar c

/-- Whether a character means something else at the beginning of a plain scalar. -/
def isSignAtStart : List Char → Bool
  | [] => false
  | c :: rest =>
    Scalar.isIndicator c || ((c == '?' || c == ':' || c == '-') && atSpace rest) ||
      ['-', '-', '-'].isPrefixOf (c :: rest) || ['.', '.', '.'].isPrefixOf (c :: rest)

/-- Whether a character after the first, which follows `before`, means something else in a plain
scalar. -/
def hasSign (before : Char) : List Char → Bool
  | [] => false
  | c :: rest =>
    (c == ':' && atSpace rest) || (c == '#' && atSpace [before]) || hasSign c rest

/-- Whether a space and a line end stand next to each other, where `isFirst` is met first. -/
def meets (isFirst isSecond : Char → Bool) : List Char → Bool
  | c :: d :: rest => (isFirst c && isSecond d) || meets isFirst isSecond (d :: rest)
  | _ => false

def hasSpaceBeforeBreak (text : List Char) : Bool :=
  meets (· == ' ') isBreakChar text

def hasSpaceAfterBreak (text : List Char) : Bool :=
  meets isBreakChar (· == ' ') text

def allowsPlain (text : List Char) : Bool :=
  text.all (fun c => isShowable c && !isBreakChar c) && text.head? != some ' ' &&
    text.getLast? != some ' ' && !isSignAtStart text &&
    !(text.head?.any fun c => hasSign c (text.drop 1))

def allowsSingleQuotes (text : List Char) : Bool :=
  text.all isShowable && !hasSpaceBeforeBreak text && !hasSpaceAfterBreak text

def allowsBlock (text : List Char) : Bool :=
  text.all isShowable && !hasSpaceBeforeBreak text && text.getLast? != some ' '

inductive Style where
  | plain
  | singleQuotes
  | doubleQuotes
  | block
deriving DecidableEq, Repr

def Style.ofText (text : List Char) : Style :=
  if text.contains '\n' then if allowsBlock text then .block else .doubleQuotes
  else if allowsPlain text && !Ambiguity.isAmbiguous text then .plain
  else if allowsSingleQuotes text then .singleQuotes
  else .doubleQuotes

/-- The lines of a text, which begin at an indentation except for the first one if it is already
begun. -/
def indentLines (indentation : Nat) (begun : Bool) : List Char → List Char
  | [] => []
  | c :: rest =>
    if isBreakChar c then c :: indentLines indentation false rest
    else
      (if begun then [] else List.replicate indentation ' ') ++
        c :: indentLines indentation true rest

def singleQuoted (indentation : Nat) (text : List Char) : List Char :=
  let doubled := text.flatMap fun c => if c = '\'' then ['\'', '\''] else [c]
  indentLines indentation true (doubled ++ ['\''])

/-- The sign and lines of a block. Two is the number of columns that its lines are further in. -/
def block (indentation : Nat) (text : List Char) : List Char :=
  let hint := if text.head?.any fun c => c == ' ' || isBreakChar c then ['2'] else []
  let chomping := match text.reverse with
    | [] => ['-']
    | [c] => if isBreakChar c then ['+'] else ['-']
    | c :: d :: _ => if isBreakChar c then if isBreakChar d then ['+'] else [] else ['-']
  '|' :: (hint ++ chomping ++ '\n' :: indentLines indentation false text)

/-- A scalar and the end of its last line, the further lines of it at an indentation. -/
def scalarLines (indentation : Nat) (text : List Char) : List Char :=
  match Style.ofText text with
  | .plain => text ++ ['\n']
  | .singleQuotes => '\'' :: singleQuoted indentation text ++ ['\n']
  | .doubleQuotes => '"' :: text.flatMap escapeChar ++ ['"', '\n']
  | .block =>
    block indentation text ++ if text.getLast?.any isBreakChar then [] else ['\n']

end SourceStyle.Yaml
