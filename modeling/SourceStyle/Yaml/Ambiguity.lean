import SourceStyle.Yaml.Scalar

/-!
Texts that a plain scalar would not be taken for text with: words for nothing and for truth values,
and numbers.
-/

namespace SourceStyle.Yaml.Ambiguity

def words : List String :=
  ["", "~", "null", "Null", "NULL", "true", "True", "TRUE", "false", "False", "FALSE"]

def numberWords : List String :=
  [".inf", ".Inf", ".INF", "+.inf", "+.Inf", "+.INF", "-.inf", "-.Inf", "-.INF", ".nan", ".NaN",
   ".NAN"]

/-- The value of digits in a base, none if there are no digits or others. -/
def number? (base : Nat) (digits : List Char) : Option Nat :=
  let addDigit (value : Nat) (c : Char) : Option Nat := do
    let digit ← Scalar.hexValue? c
    if digit < base then some (value * base + digit) else none
  if digits.isEmpty then none else digits.foldlM addDigit 0

/-- The base that a prefix announces, and the digits after it. -/
def based? : List Char → Option (Nat × List Char)
  | '0' :: 'x' :: digits => some (16, digits)
  | '0' :: 'o' :: digits => some (8, digits)
  | '0' :: 'b' :: digits => some (2, digits)
  | _ => none

/-- Whether a text is a whole number that announces its base and fits 128 bits, of which a negative
one needs one for its sign. -/
def isBased (negative : Bool) (unsigned : List Char) : Bool :=
  ((based? unsigned).bind fun (base, digits) => number? base digits).any fun value =>
    if negative then value ≤ Nat.pow 2 127 else value < Nat.pow 2 128

def spanDigits (text : List Char) : List Char × List Char :=
  (text.takeWhile Char.isDigit, text.dropWhile Char.isDigit)

/-- The power of ten after the digits of a number. -/
def exponent? : List Char → Option Int
  | [] => some 0
  | c :: rest =>
    if c = 'e' ∨ c = 'E' then
      match rest with
      | '-' :: digits => (number? 10 digits).map fun value => -(value : Int)
      | '+' :: digits => (number? 10 digits).map fun value => (value : Int)
      | digits => (number? 10 digits).map fun value => (value : Int)
    else none

/-- Whether a number, given by its digits and the power of ten they are multiplied by, is less than
the least that 64 bits round to infinity. -/
def isFinite (digits : List Char) (exponent : Int) : Bool :=
  let value := (number? 10 digits).getD 0
  let limit := Nat.pow 2 1024 - Nat.pow 2 970
  let magnitude := ((digits.dropWhile (· == '0')).length : Int) + exponent
  value == 0 || magnitude < 309 ||
    (magnitude == 309 &&
      if 0 ≤ exponent then value * Nat.pow 10 exponent.toNat < limit
      else value < limit * Nat.pow 10 (-exponent).toNat)

/-- Whether a text without a sign is a decimal number that is not too great. -/
def isDecimal (unsigned : List Char) : Bool :=
  let (whole, rest) := spanDigits unsigned
  let (part, rest) := match rest with
    | '.' :: rest => spanDigits rest
    | _ => ([], rest)
  let digits := whole ++ part
  !digits.isEmpty &&
    (exponent? rest).any fun exponent => isFinite digits (exponent - (part.length : Int))

/-- Whether a text is made of digits of which the first of several is a zero. -/
def isPadded (unsigned : List Char) : Bool :=
  unsigned.length > 1 && unsigned.head? == some '0' && unsigned.all Char.isDigit

/-- Whether a text would be taken for a number, or for digits that are none. -/
def isNumber (text : List Char) : Bool :=
  let (negative, unsigned) := match text with
    | '-' :: rest => (true, rest)
    | '+' :: rest => (false, rest)
    | _ => (false, text)
  isBased negative unsigned || isPadded unsigned || isDecimal unsigned

/-- Whether a text would be taken for something else when it is written plain. -/
def isAmbiguous (text : List Char) : Bool :=
  words.contains (String.ofList text) || numberWords.contains (String.ofList text) || isNumber text

end SourceStyle.Yaml.Ambiguity
