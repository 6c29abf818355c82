import SourceStyle.Yaml.BlockScalar

/-!
What is said of nodes and documents: the names of nodes, their tags, and directives. Each reader
takes what it reads off the front of the text.
-/

namespace SourceStyle.Yaml

def isNameChar (c : Char) : Bool :=
  c.isAlphanum || c == '_' || c == '-'

def nameChars (text : List Placed) : List Char × List Placed :=
  ((text.takeWhile (isNameChar ·.char)).map (·.char), text.dropWhile (isNameChar ·.char))

def name? (text : List Placed) : Option (List Char × List Placed) :=
  let (name, rest) := nameChars text
  let ends := atLayout rest || rest.head?.any fun p =>
    ['?', ':', ',', ']', '\x7d', '%', '@', '\x60'].contains p.char
  if name.isEmpty || !ends then none else some (name, rest)

/-- The characters that may stand in a tag and not in a name. -/
def tagSigns : List Char :=
  [';', '/', '?', ':', '@', '&', '=', '+', '$', '.', '%', '!', '~', '*', '\'', '(', ')']

/-- Whether a character may stand in a tag. Between angles (`bracketed`) some more may. -/
def isTagChar (bracketed : Bool) (c : Char) : Bool :=
  isNameChar c || tagSigns.contains c || (bracketed && [',', '[', ']'].contains c)

/-- The byte that two hexadecimal digits write. -/
def octet? (text : List Placed) : Option Nat :=
  match text with
  | high :: low :: _ => Scalar.hexNumber? [high.char, low.char]
  | _ => none

/-- The number of bytes that follow the first byte of a character. -/
def followers? (lead : Nat) : Option Nat :=
  if lead < 0x80 then some 0
  else if lead < 0xC0 then none
  else if lead < 0xE0 then some 1
  else if lead < 0xF0 then some 2
  else if lead < 0xF8 then some 3
  else none

/-- What follows the characters of a tag, some of which are written as bytes in hexadecimal. The
first so many characters were read before, and the bytes that are owed complete a character. -/
def afterTagChars? (bracketed : Bool) (passed owed : Nat) : List Placed → Option (List Placed)
  | [] => if owed = 0 then some [] else none
  | p :: rest =>
    match passed with
    | passed + 1 => afterTagChars? bracketed passed owed rest
    | 0 =>
      if p.char = '%' then
        match octet? rest, owed with
        | none, _ => none
        | some octet, 0 =>
          match followers? octet with
          | none => none
          | some owed => afterTagChars? bracketed 2 owed rest
        | some octet, owed + 1 =>
          if octet / 0x40 = 2 then afterTagChars? bracketed 2 owed rest else none
      else if owed ≠ 0 then none
      else if isTagChar bracketed p.char then afterTagChars? bracketed 0 0 rest
      else some (p :: rest)

def afterTagText? (bracketed : Bool) (text : List Placed) : Option (List Placed) :=
  if text.head?.any (isTagChar bracketed ·.char) then afterTagChars? bracketed 0 0 text else none

abbrev Handle := List Char

def commonHandles : List Handle :=
  [['!'], ['!', '!']]

/-- The handle of the tag after an exclamation mark. A tag between angles needs none. -/
def tag? (flow : Bool) (text : List Placed) : Option (Handle × List Placed) := do
  let (name, after) := nameChars text
  let (handle, rest) ←
    if atChar '<' text then do
      let rest ← afterTagText? true (text.drop 1)
      if atChar '>' rest then some (['!'], rest.drop 1) else none
    else if atChar '!' after then do
      let rest ← afterTagText? false (after.drop 1)
      some ('!' :: name ++ ['!'], rest)
    else do
      let rest ← afterTagChars? false 0 0 after
      some (['!'], rest)
  if atLayout rest || (flow && atChar ',' rest) then some (handle, rest) else none

/-- A line before a document: the version of the format, or a handle for tags. -/
inductive Directive where
  | version (major minor : Nat)
  | handle (handle : Handle)
deriving DecidableEq, Repr

def versionNumber? (text : List Placed) : Option (Nat × List Placed) :=
  let digits := (text.takeWhile (·.char.isDigit)).map (·.char)
  if digits.isEmpty || 9 < digits.length then none
  else
    some (digits.foldl (fun value c => value * 10 + (c.toNat - '0'.toNat)) 0,
      text.dropWhile (·.char.isDigit))

def version? (text : List Placed) : Option (Directive × List Placed) := do
  let (major, rest) ← versionNumber? text
  if !atChar '.' rest then none
  let (minor, rest) ← versionNumber? (rest.drop 1)
  some (.version major minor, rest)

def handle? (text : List Placed) : Option (Directive × List Placed) := do
  if !atChar '!' text then none
  let (name, after) := nameChars (text.drop 1)
  let (handle, rest) :=
    if atChar '!' after then ('!' :: name ++ ['!'], after.drop 1) else ('!' :: name, after)
  if !(handle == ['!'] || atChar '!' after) || !rest.head?.any (·.isBlank) then none
  let rest ← afterTagText? true (rest.dropWhile (·.isBlank))
  if atLayout rest then some (.handle handle, rest) else none

/-- The directive after a percent sign, with the rest of its line. -/
def directive? (text : List Placed) : Option (Directive × List Placed) := do
  let (name, rest) := nameChars text
  if !atLayout rest then none
  let value := rest.dropWhile (·.isBlank)
  let (directive, rest) ←
    if name = ['Y', 'A', 'M', 'L'] then version? value
    else if name = ['T', 'A', 'G'] then handle? value
    else none
  let rest ← BlockScalar.afterLine? rest
  some (directive, rest)

end SourceStyle.Yaml
