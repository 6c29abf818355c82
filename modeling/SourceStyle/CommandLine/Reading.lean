import SourceStyle.CommandLine.Fields

/-!
Reading a command line. Flags may stand anywhere before a double dash. A flag takes its value after
an equals sign, or takes the next argument if that does not look like a flag; without either its
value is empty.
-/

namespace SourceStyle.CommandLine

def switchKeys : List String := ["help", "version"]

def valueKeys : List String :=
  recognizedKeys.filter (!switchKeys.contains ·)

/-- Whether characters look like a number: digits, with at most one point, not in front, and at
most one exponent sign, neither in front nor at the end. -/
def looksNumeric (text : List Char) : Bool :=
  let mantissa := text.takeWhile (· != 'e')
  let plain (part : List Char) : Bool := part.all fun c => c.isDigit || c == '.'
  plain mantissa && mantissa.head? != some '.' && mantissa.count '.' ≤ 1 &&
    match text.dropWhile (· != 'e') with
    | [] => true
    | _ :: exponent => !mantissa.isEmpty && !exponent.isEmpty && exponent.all Char.isDigit

inductive Shape where
  | doubleDash
  | long (name : List Char) (value : Option (List Char))
  | short (name : List Char)
  | plain
deriving DecidableEq, Repr

def shape : List Char → Shape
  | ['-', '-'] => .doubleDash
  | '-' :: '-' :: rest =>
    match rest.dropWhile (· != '=') with
    | [] => .long rest none
    | _ :: value => .long (rest.takeWhile (· != '=')) (some value)
  | ['-'] => .plain
  | '-' :: rest => .short rest
  | _ => .plain

/-- The characters of a text without escape sequences and control characters, as messages show it.
`inSequence` says that the text continues an escape sequence. -/
def shownChars (inSequence : Bool) : List Char → List Char
  | [] => []
  | '\x1b' :: '[' :: rest => shownChars true rest
  | c :: rest =>
    if inSequence then shownChars (!(0x40 ≤ c.toNat && c.toNat ≤ 0x7E)) rest
    else if c.toNat < 0x20 && !c.isWhitespace && c != '\x0c' || c == '\x7f' then
      shownChars false rest
    else c :: shownChars false rest

def firstLine (text : List Char) : List Char :=
  let line := text.takeWhile (· != '\n')
  if line.length < text.length && line.getLast? == some '\r' then line.dropLast else line

/-- The failure that a message about arguments describes, by its first line. -/
def invalid (message : String) : Failure :=
  .invalidArguments (String.ofList (firstLine (shownChars false message.toList)))

def unexpectedArgument (argument : String) : Failure :=
  invalid ("unexpected argument '" ++ argument ++ "' found")

/-- The failure of a value given to a flag that takes none. -/
def unexpectedValue (key value : String) : Failure :=
  invalid ("unexpected value '" ++ value ++ "' for '--" ++ key ++
    "' found; no more were expected")

def flagUsage (key : String) : String :=
  if switchKeys.contains key then "--" ++ key
  else "--" ++ key ++ " [<" ++ String.ofList (key.toList.map Char.toUpper) ++ ">]"

def repeatedFlag (key : String) : Failure :=
  .invalidArguments ("the argument '" ++ flagUsage key ++ "' cannot be used multiple times")

/-- Arguments read so far, the flag read last while its value may still come, and whether it comes
next. -/
structure Reading where
  arguments : Arguments := {}
  pending : Option (String × String) := none
  awaiting : Bool := false
deriving DecidableEq, Repr

namespace Reading

def addFlag (arguments : Arguments) (key value : String) : Except Failure Arguments :=
  if (arguments.flag? key).isSome then .error (repeatedFlag key)
  else .ok { arguments with flags := arguments.flags ++ [(key, value)] }

def settle (reading : Reading) : Except Failure Arguments :=
  match reading.pending with
  | none => .ok reading.arguments
  | some (key, value) => addFlag reading.arguments key value

/-- The arguments with the pending flag and one more added. -/
def settleAnd (reading : Reading) (key value : String) : Except Failure Reading := do
  let arguments ← reading.settle
  let arguments ← addFlag arguments key value
  .ok { arguments }

def long (reading : Reading) (name : String) : Option String → Except Failure Reading
  | none =>
    if valueKeys.contains name then do
      let arguments ← reading.settle
      .ok { arguments, pending := some (name, ""), awaiting := true }
    else if switchKeys.contains name then reading.settleAnd name ""
    else .error (unexpectedArgument ("--" ++ name))
  | some value =>
    if valueKeys.contains name then reading.settleAnd name value
    else if switchKeys.contains name then .error (unexpectedValue name value)
    else .error (unexpectedArgument ("--" ++ name))

/-- The reading after an argument that is the value of the pending flag, or else an input. -/
def plain (reading : Reading) (argument : String) : Except Failure Reading :=
  match reading.awaiting, reading.pending with
  | true, some (key, _) => .ok { reading with pending := some (key, argument), awaiting := false }
  | _, _ => do
    let arguments ← reading.settle
    .ok { arguments := { arguments with inputs := arguments.inputs ++ [argument] } }

/-- The reading after a short flag. None exists, but a negative number may be a value. -/
def short (reading : Reading) (argument : String) (name : List Char) : Except Failure Reading :=
  if reading.awaiting && looksNumeric name then reading.plain argument
  else .error (unexpectedArgument (String.ofList ('-' :: name.take 1)))

def finish (reading : Reading) : List String → Except Failure Arguments
  | [] => reading.settle
  | argument :: rest =>
    match shape argument.toList with
    | .doubleDash => do
      let arguments ← reading.settle
      .ok { arguments with inputs := arguments.inputs ++ rest }
    | .long name value => do
      let reading ← reading.long (String.ofList name) (value.map String.ofList)
      reading.finish rest
    | .short name => do
      let reading ← reading.short argument name
      reading.finish rest
    | .plain => do
      let reading ← reading.plain argument
      reading.finish rest

end Reading

/-- The fields that a command line fills, given without the name of the program. -/
def readFields (commandLine : List String) : Except Failure Fields := do
  let arguments ← Reading.finish {} commandLine
  .ok (.ofFlags arguments.flag? arguments.inputs)

def read (commandLine : List String) : Except Failure Arguments :=
  Fields.arguments <$> readFields commandLine

end SourceStyle.CommandLine
