import SourceStyle.Yaml.Symbol

/-!
The symbols of a text. Indentation opens and closes block collections, and what turns out to be a
key gets its symbols once the colon after it is met.
-/

namespace SourceStyle.Yaml

/-- A place where a key may begin: the number of symbols before it, and where it stands. What stands
in the column of a block collection is required to be a key. -/
structure KeyStart where
  symbolsBefore : Nat
  line : Nat
  column : Nat
  required : Bool
deriving DecidableEq, Repr

/-- Whether a key can no longer begin in a place, given a later one: it ends on the line that it
begins on, and within 1024 characters. -/
def KeyStart.isLost (start : KeyStart) (now : Placed) : Bool :=
  start.line < now.line || start.column + 1024 < now.column

/-- What is left of a text and what has been read of it. -/
structure Reading where
  /-- The characters that are left. -/
  rest : List Placed
  /-- The symbols so far, last first. -/
  symbols : List Symbol := []
  /-- Whether a block collection or a key may begin here. -/
  fresh : Bool := true
  /-- The least column of what is inside the innermost block collection. -/
  margin : Nat := 0
  /-- The margins of the block collections around it. -/
  outerMargins : List Nat := []
  /-- Where a key may have begun inside the innermost brackets. -/
  keyStart : Option KeyStart := none
  /-- Where keys may have begun around each pair of brackets. -/
  outerKeyStarts : List (Option KeyStart) := []

namespace Reading

/-- Whether the text here is inside brackets. -/
def flow (reading : Reading) : Bool :=
  !reading.outerKeyStarts.isEmpty

def push (reading : Reading) (symbol : Symbol) (rest : List Placed) : Reading :=
  { reading with symbols := symbol :: reading.symbols, rest }

/-- The reading with a symbol in its place among those so far. -/
def insert (reading : Reading) (symbolsBefore : Nat) (symbol : Symbol) : Reading :=
  let index := reading.symbols.length - symbolsBefore
  { reading with symbols := reading.symbols.insertIdx index symbol }

/-- Forgets where a key may have begun, if it is lost. One that was required is refused. -/
def keep? (now : Placed) : Option KeyStart → Option (Option KeyStart)
  | none => some none
  | some start =>
    if !start.isLost now then some (some start) else if start.required then none else some none

/-- Forgets all lost places where keys may have begun. -/
def forgetLost (reading : Reading) (now : Placed) : Option Reading := do
  let keyStart ← keep? now reading.keyStart
  let outerKeyStarts ← reading.outerKeyStarts.mapM (keep? now)
  some { reading with keyStart, outerKeyStarts }

/-- Gives up the key that may have begun, unless it is required. -/
def giveUpKey (reading : Reading) : Option Reading :=
  if reading.keyStart.any (·.required) then none else some { reading with keyStart := none }

def noteKey (reading : Reading) (p : Placed) : Option Reading :=
  if reading.fresh then do
    let reading ← reading.giveUpKey
    let required := !reading.flow && reading.margin == p.column + 1
    let start := { symbolsBefore := reading.symbols.length, line := p.line, column := p.column,
                   required }
    some { reading with keyStart := some start }
  else some reading

/-- The margins and symbols after the end of every block collection whose margin is beyond a
bound. -/
def closeBeyond (bound margin : Nat) (symbols : List Symbol) :
    List Nat → Nat × List Nat × List Symbol
  | [] => (margin, [], symbols)
  | outer :: outers =>
    if bound < margin then closeBeyond bound outer (.blockEnd :: symbols) outers
    else (margin, outer :: outers, symbols)

/-- Ends every block collection whose margin is beyond a bound. Brackets keep those around them
open. -/
def close (reading : Reading) (bound : Nat) : Reading :=
  if reading.flow then reading
  else
    let (margin, outerMargins, symbols) :=
      closeBeyond bound reading.margin reading.symbols reading.outerMargins
    { reading with margin, outerMargins, symbols }

/-- Begins a block collection in a column, unless it is open there. Inside brackets there is
none. -/
def openBlock (reading : Reading) (column symbolsBefore : Nat) (symbol : Symbol) : Reading :=
  if !reading.flow && reading.margin ≤ column then
    { reading.insert symbolsBefore symbol with
      margin := column + 1, outerMargins := reading.margin :: reading.outerMargins }
  else reading

/-- Begins a block collection here, where one may begin. -/
def openBlockHere (reading : Reading) (p : Placed) (symbol : Symbol) : Option Reading :=
  if !reading.flow && !reading.fresh then none
  else some (reading.openBlock p.column reading.symbols.length symbol)

def directive (reading : Reading) (rest : List Placed) : Option Reading := do
  let reading ← (reading.close 0).giveUpKey
  let (directive, rest) ← directive? rest
  some { reading.push (.directive directive) rest with fresh := false }

def marker (reading : Reading) (symbol : Symbol) : Option Reading := do
  let reading ← (reading.close 0).giveUpKey
  some { reading.push symbol (reading.rest.drop 3) with fresh := false }

def bracket (reading : Reading) (p : Placed) (symbol : Symbol) (rest : List Placed) :
    Option Reading := do
  let reading ← reading.noteKey p
  some { reading.push symbol rest with
    keyStart := none, outerKeyStarts := reading.keyStart :: reading.outerKeyStarts, fresh := true }

def closeBracket (reading : Reading) (symbol : Symbol) (rest : List Placed) : Option Reading := do
  let reading ← reading.giveUpKey
  some { reading.push symbol rest with
    keyStart := reading.outerKeyStarts.head?.join
    outerKeyStarts := reading.outerKeyStarts.tail
    fresh := false }

def comma (reading : Reading) (rest : List Placed) : Option Reading := do
  let reading ← reading.giveUpKey
  some { reading.push .comma rest with fresh := true }

def dash (reading : Reading) (p : Placed) (rest : List Placed) : Option Reading := do
  let reading ← reading.openBlockHere p .sequenceStart
  let reading ← reading.giveUpKey
  some { reading.push .dash rest with fresh := true }

def question (reading : Reading) (p : Placed) (rest : List Placed) : Option Reading := do
  let reading ← reading.openBlockHere p .mappingStart
  let reading ← reading.giveUpKey
  some { reading.push .key rest with fresh := !reading.flow }

/-- Reads the colon of a value. If a key may have begun, then it did. -/
def colon (reading : Reading) (p : Placed) (rest : List Placed) : Option Reading := do
  match reading.keyStart with
  | some start =>
    let reading := { reading with keyStart := none }
    let reading := reading.insert start.symbolsBefore .key
    let reading := reading.openBlock start.column start.symbolsBefore .mappingStart
    some { reading.push .value rest with fresh := false }
  | none =>
    let reading ← reading.openBlockHere p .mappingStart
    some { reading.push .value rest with fresh := !reading.flow }

/-- Reads a scalar or a property with the reader of its kind. A key may begin with it. -/
def item (reading : Reading) (p : Placed) (symbol : Option (Symbol × List Placed))
    (endsLine : Bool) : Option Reading := do
  let reading ← reading.noteKey p
  let (symbol, rest) ← symbol
  some { reading.push symbol rest with fresh := endsLine }

def scalar (reading : Reading) (p : Placed) (scalar : Option Scalar) : Option Reading :=
  reading.item p (scalar.map fun scalar => (.scalar scalar.chars, scalar.rest))
    (scalar.any (·.endsLine))

/-- Reads a plain scalar. -/
def plain (reading : Reading) (p : Placed) (rest : List Placed) : Option Reading :=
  reading.scalar p (Scalar.plain? reading.flow reading.margin (p :: rest))

def blockScalar (reading : Reading) (literal : Bool) (rest : List Placed) : Option Reading := do
  let reading ← reading.giveUpKey
  let scalar ← BlockScalar.read? literal reading.margin rest
  some { reading.push (.scalar scalar.chars) scalar.rest with fresh := true }

def step (reading : Reading) (p : Placed) (rest : List Placed) : Option Reading :=
  let flow := reading.flow
  if p.column = 0 ∧ p.char = '%' then reading.directive rest
  else if atMarker (p :: rest) then
    reading.marker (if p.char = '-' then .documentStart else .documentEnd)
  else
    match p.char with
    | '[' => reading.bracket p .openSquare rest
    | '\x7b' => reading.bracket p .openCurly rest
    | ']' => reading.closeBracket .closeSquare rest
    | '\x7d' => reading.closeBracket .closeCurly rest
    | ',' => reading.comma rest
    | '-' => if atLayout rest then reading.dash p rest else reading.plain p rest
    | '?' => if flow || atLayout rest then reading.question p rest else reading.plain p rest
    | ':' => if flow || atLayout rest then reading.colon p rest else reading.plain p rest
    | '*' => reading.item p ((name? rest).map fun (name, rest) => (.use name, rest)) false
    | '&' => reading.item p ((name? rest).map fun (name, rest) => (.name name, rest)) false
    | '!' => reading.item p ((tag? flow rest).map fun (handle, rest) => (.tag handle, rest)) false
    | '|' => if flow then none else reading.blockScalar true rest
    | '>' => if flow then none else reading.blockScalar false rest
    | '\'' => reading.scalar p (Scalar.singleQuoted? rest)
    | '"' => reading.scalar p (Scalar.doubleQuoted? rest)
    | c => if Scalar.isIndicator c || p.isLayout then none else reading.plain p rest

/-- The symbols of all that is left. Every step takes a character. -/
def symbolsFrom (reading : Reading) : Nat → Option (List Symbol)
  | 0 => none
  | fuel + 1 =>
    let (fresh, rest) := skipLayout reading.flow reading.fresh false reading.rest
    let reading := { reading with fresh, rest }
    match rest with
    | [] => (reading.close 0).giveUpKey.map (·.symbols.reverse)
    | p :: rest => do
      let reading ← reading.forgetLost p
      let reading ← (reading.close (p.column + 1)).step p rest
      symbolsFrom reading fuel

end Reading

def Symbol.ofText? (text : String) : Option (List Symbol) :=
  let chars := text.toList
  if chars.all isAllowed then
    Reading.symbolsFrom { rest := placed chars } (chars.length + 1)
  else none

end SourceStyle.Yaml
