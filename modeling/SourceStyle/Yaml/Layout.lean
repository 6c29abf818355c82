/-!
The characters of a document with the places they stand in, and how layout is folded in a scalar.
-/

namespace SourceStyle.Yaml

/-- Whether a document may hold a character: no control characters but those that lay it out. -/
def isAllowed (c : Char) : Bool :=
  c == '\t' || c == '\n' || c == '\r' || c == '\u0085' || (0x20 ≤ c.toNat && c.toNat ≤ 0x7E) ||
    (0xA0 ≤ c.toNat && c.toNat ≤ 0xFFFD) || 0x10000 ≤ c.toNat

def isBlankChar (c : Char) : Bool :=
  c == ' ' || c == '\t'

def isBreakChar (c : Char) : Bool :=
  c == '\n' || c == '\u2028' || c == '\u2029'

/-- A character, and the line and column that it stands in. -/
structure Placed where
  char : Char
  line : Nat
  column : Nat
deriving DecidableEq, Repr

namespace Placed

def isBlank (p : Placed) : Bool :=
  isBlankChar p.char

def isBreak (p : Placed) : Bool :=
  isBreakChar p.char

def isLayout (p : Placed) : Bool :=
  p.isBlank || p.isBreak

end Placed

/-- The characters of a text from a place on. The spellings of a line end that have one to stand for
them become line feeds. -/
def placedFrom (line column : Nat) : List Char → List Placed
  | [] => []
  | '\r' :: '\n' :: rest => { char := '\n', line, column } :: placedFrom (line + 1) 0 rest
  | c :: rest =>
    let c := if c = '\r' ∨ c = '\u0085' then '\n' else c
    { char := c, line, column } ::
      if isBreakChar c then placedFrom (line + 1) 0 rest else placedFrom line (column + 1) rest

def placed (text : List Char) : List Placed :=
  placedFrom 0 0 text

def atLayout (text : List Placed) : Bool :=
  text.head?.all Placed.isLayout

def atChar (c : Char) (text : List Placed) : Bool :=
  text.head?.any (·.char == c)

/-- Whether the marker that begins or ends a document stands here, which is at the beginning of a
line. -/
def atMarker (text : List Placed) : Bool :=
  let sign := (text.take 3).map (·.char)
  text.head?.any (·.column == 0) && (sign == ['-', '-', '-'] || sign == ['.', '.', '.']) &&
    atLayout (text.drop 3)

/-- What layout inside a scalar stands for. Within a line it stands for itself. A line feed is a
space if it is the only line end, and else nothing; other line ends are kept. -/
def foldLayout (layout : List Char) : List Char :=
  match layout.filter isBreakChar with
  | [] => layout
  | ['\n'] => [' ']
  | '\n' :: breaks => breaks
  | breaks => breaks

/-- What is left after layout and comments, and whether a block collection or a key may begin there.
That is so on a new line, except inside brackets (`flow`), and tabs are then no layout. A byte order
mark is passed over at the beginning of a line. -/
def skipLayout (flow fresh inComment : Bool) : List Placed → Bool × List Placed
  | [] => (fresh, [])
  | p :: rest =>
    if p.isBreak then skipLayout flow (fresh || !flow) false rest
    else if inComment || p.char == ' ' || (p.char == '\t' && (flow || !fresh)) ||
        (p.char == '\ufeff' && p.column == 0) then
      skipLayout flow fresh inComment rest
    else if p.char == '#' then skipLayout flow fresh true rest
    else (fresh, p :: rest)

end SourceStyle.Yaml
