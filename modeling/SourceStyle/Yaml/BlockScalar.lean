import SourceStyle.Yaml.Scalar

/-!
Block scalars: the lines below a bar are kept as they are, and those below an angle are joined.
-/

namespace SourceStyle.Yaml.BlockScalar

/-- What becomes of the line ends after the last line of text. -/
inductive Chomping where
  | strip
  | clip
  | keep
deriving DecidableEq, Repr

/-- What stands between the sign of a block scalar and its first line. -/
structure Header where
  chomping : Chomping := .clip
  increment : Option Nat := none
deriving DecidableEq, Repr

def chomping? (p : Placed) : Option Chomping :=
  match p.char with
  | '-' => some .strip
  | '+' => some .keep
  | _ => none

def increment? (p : Placed) : Option Nat :=
  if '1' ≤ p.char ∧ p.char ≤ '9' then some (p.char.toNat - '0'.toNat) else none

def header (text : List Placed) : Header × List Placed :=
  match text with
  | [] => ({}, [])
  | p :: rest =>
    match chomping? p, increment? p with
    | some chomping, _ =>
      match rest.head?.bind increment? with
      | some increment => ({ chomping, increment := some increment }, rest.drop 1)
      | none => ({ chomping }, rest)
    | none, some increment =>
      match rest.head?.bind chomping? with
      | some chomping => ({ chomping, increment := some increment }, rest.drop 1)
      | none => ({ increment := some increment }, rest)
    | none, none => ({}, text)

/-- The text after the rest of a line, on which only a comment may stand. -/
def afterLine? (text : List Placed) : Option (List Placed) :=
  let rest := text.dropWhile (·.isBlank)
  let rest := if atChar '#' rest then rest.dropWhile (!·.isBreak) else rest
  match rest with
  | [] => some []
  | p :: rest => if p.isBreak then some rest else none

/-- A line and its end, which the last line of a text lacks. -/
structure Line where
  chars : List Placed
  ending : List Placed
deriving DecidableEq, Repr

def linesOf : List Placed → List Line
  | [] => [{ chars := [], ending := [] }]
  | p :: rest =>
    if p.isBreak then { chars := [], ending := [p] } :: linesOf rest
    else
      match linesOf rest with
      | [] => [{ chars := [p], ending := [] }]
      | line :: lines => { line with chars := p :: line.chars } :: lines

def textOf (lines : List Line) : List Placed :=
  lines.flatMap fun line => line.chars ++ line.ending

def Line.indentation (line : Line) : Nat :=
  (line.chars.takeWhile (·.char == ' ')).length

/-- The deepest indentation of the lines up to the first that holds more than spaces, none if a tab
stands in it. -/
def deepest? : List Line → Option Nat
  | [] => some 0
  | line :: rest =>
    match line.chars.dropWhile (·.char == ' ') with
    | [] => (deepest? rest).map (max line.indentation)
    | p :: _ => if p.char = '\t' then none else some line.indentation

/-- What has been read: the text, the end of its last line, whether that line begins with a blank,
and the ends of the blank lines after it. -/
structure Body where
  text : List Char := []
  ending : List Char := []
  indented : Bool := false
  blank : List Char := []
deriving DecidableEq, Repr

def Body.addLine (body : Body) (literal : Bool) (chars ending : List Char) : Body :=
  let indented := chars.head?.any isBlankChar
  let joint :=
    if !literal && body.ending == ['\n'] && !body.indented && !indented then
      if body.blank.isEmpty then [' '] else []
    else body.ending
  { text := body.text ++ joint ++ body.blank ++ chars, ending, indented }

def Body.addBlank (body : Body) (ending : List Char) : Body :=
  { body with blank := body.blank ++ ending }

/-- The text of the body, with the line ends that the chomping leaves. -/
def Body.chomp (body : Body) : Chomping → List Char
  | .strip => body.text
  | .clip => body.text ++ body.ending
  | .keep => body.text ++ body.ending ++ body.blank

/-- The body that lines at an indentation add to, and the lines that follow it without the
indentation of the first. A tab in the indentation is refused. -/
def readLines (literal : Bool) (indentation : Nat) (body : Body) :
    List Line → Option (Body × List Line)
  | [] => some (body, [])
  | line :: rest =>
    let depth := min line.indentation indentation
    let ending := line.ending.map (·.char)
    match line.chars.drop depth with
    | [] => readLines literal indentation (body.addBlank ending) rest
    | p :: chars =>
      if depth = indentation then
        let chars := (p :: chars).map (·.char)
        readLines literal indentation (body.addLine literal chars ending) rest
      else if p.char = '\t' then none
      else some (body, { line with chars := p :: chars } :: rest)

/-- The block scalar after its sign. Its lines are at `margin` or further on. -/
def read? (literal : Bool) (margin : Nat) (text : List Placed) : Option Scalar := do
  let (header, rest) := header text
  let lines := linesOf (← afterLine? rest)
  let indentation ← match header.increment with
    | some increment => some (margin - 1 + increment)
    | none => (deepest? lines).map fun depth => max depth (max margin 1)
  let (body, after) ← readLines literal indentation {} lines
  some { chars := body.chomp header.chomping, endsLine := true, rest := textOf after }

end SourceStyle.Yaml.BlockScalar
