import SourceStyle.Yaml.Layout

/-!
Scalars within a line or over several: plain, in single quotes, and in double quotes with escapes.
Each reader takes a scalar off the front of the text.
-/

namespace SourceStyle.Yaml

/-- A scalar that was taken off a text: its characters, whether the line of the last of them has
ended, and what is left. -/
structure Scalar where
  chars : List Char
  endsLine : Bool := false
  rest : List Placed
deriving DecidableEq, Repr

namespace Scalar

def after (chars : List Char) (scalar : Scalar) : Scalar :=
  { scalar with chars := chars ++ scalar.chars }

/-- The characters that delimit collections written in brackets. -/
def isFlowChar (c : Char) : Bool :=
  c == ',' || c == '[' || c == ']' || c == '\x7b' || c == '\x7d'

/-- The characters that no plain scalar begins with, whatever follows them. -/
def isIndicator (c : Char) : Bool :=
  isFlowChar c || ['#', '&', '*', '!', '|', '>', '\'', '"', '%', '@', '\x60'].contains c

/-- Whether a plain scalar ends before this text: at a colon that layout follows, and inside
brackets (`flow`) at their delimiters. -/
def endsPlain (flow : Bool) : List Placed → Bool
  | [] => true
  | p :: rest => (p.char == ':' && atLayout rest) || (flow && isFlowChar p.char)

/-- Whether a tab stands in layout where a line's indentation, less than `margin`, is expected. -/
def tabInMargin (margin : Nat) (layout : List Placed) : Bool :=
  (layout.dropWhile (!·.isBreak)).any fun p => p.char == '\t' && p.column < margin

/-- Whether a plain scalar ends with layout, given what follows: at a comment, at a marker, and
outside brackets on a line that does not reach the margin. -/
def endsAtLayout (flow : Bool) (margin : Nat) (layout after : List Placed) : Bool :=
  endsPlain flow after || atChar '#' after ||
    (layout.any (·.isBreak) &&
      (atMarker after || (!flow && after.head?.any (·.column < margin))))

/-- Whether a colon stands here that may not stand in a plain scalar inside brackets. -/
def atStrayColon (text : List Placed) : Bool :=
  atChar ':' text && (text.drop 1).head?.any fun p => p.char == '?' || isFlowChar p.char

/-- The rest of a plain scalar, after layout that is given last character first. -/
def plainFrom (flow : Bool) (margin : Nat) (layout : List Placed) : List Placed → Option Scalar
  | [] =>
    if tabInMargin margin layout.reverse then none
    else some { chars := [], endsLine := layout.any (·.isBreak), rest := [] }
  | p :: rest =>
    if p.isLayout then plainFrom flow margin (p :: layout) rest
    else if tabInMargin margin layout.reverse then none
    else if endsPlain flow (p :: rest) ||
        (!layout.isEmpty && endsAtLayout flow margin layout.reverse (p :: rest)) then
      some { chars := [], endsLine := layout.any (·.isBreak), rest := p :: rest }
    else if flow && atStrayColon (p :: rest) then none
    else
      (plainFrom flow margin [] rest).map
        (after (foldLayout (layout.reverse.map (·.char)) ++ [p.char]))

/-- The plain scalar that a text begins with. Outside brackets the lines that continue it begin at
`margin` or further on. -/
def plain? (flow : Bool) (margin : Nat) (text : List Placed) : Option Scalar :=
  plainFrom flow margin [] text

/-- The rest of a scalar in single quotes, after layout that is given last character first. The
first so many characters were read before. -/
def singleQuotedFrom (passed : Nat) (layout : List Placed) : List Placed → Option Scalar
  | [] => none
  | p :: rest =>
    match passed with
    | passed + 1 => singleQuotedFrom passed layout rest
    | 0 =>
      if p.isLayout then singleQuotedFrom 0 (p :: layout) rest
      else if atMarker (p :: rest) then none
      else
        let gap := foldLayout (layout.reverse.map (·.char))
        if p.char = '\'' then
          if atChar '\'' rest then (singleQuotedFrom 1 [] rest).map (after (gap ++ ['\'']))
          else some { chars := gap, rest }
        else (singleQuotedFrom 0 [] rest).map (after (gap ++ [p.char]))

def singleQuoted? (text : List Placed) : Option Scalar :=
  singleQuotedFrom 0 [] text

def hexValue? (c : Char) : Option Nat :=
  if c.isDigit then some (c.toNat - '0'.toNat)
  else if 'a' ≤ c ∧ c ≤ 'f' then some (c.toNat - 'a'.toNat + 10)
  else if 'A' ≤ c ∧ c ≤ 'F' then some (c.toNat - 'A'.toNat + 10)
  else none

def hexNumber? (digits : List Char) : Option Nat :=
  digits.foldlM (fun value c => (hexValue? c).map (value * 16 + ·)) 0

def numberedChar? (digits : List Char) : Option Char := do
  let code ← hexNumber? digits
  if (Char.ofNat code).toNat = code then some (Char.ofNat code) else none

def letterEscapes : List (Char × Char) :=
  [('0', '\x00'), ('a', '\x07'), ('b', '\x08'), ('t', '\t'), ('\t', '\t'), ('n', '\n'),
   ('v', '\x0b'), ('f', '\x0c'), ('r', '\r'), ('e', '\x1b'), (' ', ' '), ('"', '"'), ('/', '/'),
   ('\\', '\\'), ('N', '\u0085'), ('_', '\u00a0'), ('L', '\u2028'), ('P', '\u2029')]

def numericWidth? : Char → Option Nat
  | 'x' => some 2
  | 'u' => some 4
  | 'U' => some 8
  | _ => none

/-- The character of the escape after a backslash, and the number of characters that it takes. -/
def escape? (text : List Placed) : Option (Char × Nat) :=
  match text with
  | [] => none
  | letter :: rest =>
    match numericWidth? letter.char with
    | none => (letterEscapes.lookup letter.char).map (·, 1)
    | some width =>
      if (rest.take width).length < width then none
      else (numberedChar? ((rest.take width).map (·.char))).map (·, width + 1)

/-- What layout in double quotes stands for. An escaped line end before it (`joined`) stands for
nothing, and of the layout after that only line ends are kept. -/
def quotedGap (joined : Bool) (layout : List Char) : List Char :=
  if joined then layout.filter isBreakChar else foldLayout layout

/-- The rest of a scalar in double quotes, after layout that is given last character first. The
first so many characters were read before. -/
def doubleQuotedFrom (passed : Nat) (joined : Bool) (layout : List Placed) :
    List Placed → Option Scalar
  | [] => none
  | p :: rest =>
    match passed with
    | passed + 1 => doubleQuotedFrom passed joined layout rest
    | 0 =>
      if p.isLayout then doubleQuotedFrom 0 joined (p :: layout) rest
      else if atMarker (p :: rest) then none
      else
        let gap := quotedGap joined (layout.reverse.map (·.char))
        if p.char = '"' then some { chars := gap, rest }
        else if p.char = '\\' then
          if rest.head?.any (·.isBreak) then (doubleQuotedFrom 1 true [] rest).map (after gap)
          else
            match escape? rest with
            | none => none
            | some (c, taken) => (doubleQuotedFrom taken false [] rest).map (after (gap ++ [c]))
        else (doubleQuotedFrom 0 false [] rest).map (after (gap ++ [p.char]))

def doubleQuoted? (text : List Placed) : Option Scalar :=
  doubleQuotedFrom 0 false [] text

end Scalar
end SourceStyle.Yaml
