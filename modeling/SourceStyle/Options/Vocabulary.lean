import SourceStyle.Failure
import SourceStyle.Options
import SourceStyle.Text.LetterCase

/-!
The vocabulary of the formatting flags: for each flag the values it takes and the choice each value
makes. Resolving flags makes all their choices or reports the first flag that is wrong.
-/

namespace SourceStyle

/-- A formatting flag: its key, the values it lists, and the choices of values it does not list. -/
structure Setting where
  key : String
  values : List (String × (Options → Options))
  other : String → Option (Options → Options) := fun _ => none

namespace Setting

def choice? (setting : Setting) (value : String) : Option (Options → Options) :=
  match setting.values.lookup value with
  | some change => some change
  | none => setting.other value

/-- The widest indentation that a flag can ask for. -/
def maxIndent : Nat := 64

/-- The number that decimal digits spell, if there is one at least and nothing else. -/
def number? (digits : List Char) : Option Nat :=
  if digits ≠ [] ∧ digits.all Char.isDigit then
    some (digits.foldl (fun value c => value * 10 + (c.toNat - '0'.toNat)) 0)
  else none

/-- An indentation width: a number with an optional plus sign. -/
def width? (value : String) : Option Nat :=
  let digits := match value.toList with
    | '+' :: digits => digits
    | digits => digits
  (number? digits).filter (· ≤ maxIndent)

/-- Listed values that switch a choice on, and listed values that switch it off. -/
def switch (set : Bool → Options → Options) (on off : List String) :
    List (String × (Options → Options)) :=
  on.map (·, set true) ++ off.map (·, set false)

/-- The formatting flags, in the order in which they are resolved. -/
def all : List Setting :=
  [{ key := "indent"
     values := ["tab", "tabs", "tabbed"].map (·, fun o => { o with indent := .tab })
     other := fun value => (width? value).map fun width o => { o with indent := .spaces width } },
   { key := "allman"
     values := switch (fun b o => { o with allmanBraces := b }) ["true", "enabled"]
       ["false", "disabled"] },
   { key := "semicolons"
     values := switch (fun b o => { o with inlineSemicolons := b }) ["inline"]
       ["never", "false"] },
   { key := "commas"
     values := switch (fun b o => { o with trailingCommas := b }) ["always", "true"]
       ["inline", "false"] },
   { key := "comments"
     values := switch (fun b o => { o with indentComments := b }) ["indent", "indented"]
       ["ignore"] },
   { key := "linebreaks"
     values := [Linebreak.cr, .lf, .crlf].map fun ending =>
       (ending.name, fun o => { o with linebreak := ending }) },
   { key := "ranges"
     values := switch (fun b o => { o with spacedRanges := b }) ["space", "spaced", "spaces"]
       ["nospace"] },
   { key := "empty"
     values := switch (fun b o => { o with useVoid := b }) ["void"] ["tuple", "tuples"] },
   { key := "trimwhitespace"
     values := switch (fun b o => { o with truncateBlankLines := b }) ["always"]
       ["nonblank-lines", "nonblank", "non-blank-lines", "non-blank", "nonempty-lines", "nonempty",
        "non-empty-lines", "non-empty"] },
   { key := "insertlines"
     values := switch (fun b o => { o with insertBlankLines := b }) ["enabled", "true"]
       ["disabled", "false"] },
   { key := "removelines"
     values := switch (fun b o => { o with removeBlankLines := b }) ["enabled", "true"]
       ["disabled", "false"] },
   { key := "header"
     values := switch (fun b o => { o with stripHeader := b }) ["strip"] ["ignore"] },
   { key := "ifdef"
     values := [DirectiveIndent.indent, .noindent, .outdent].map fun style =>
       (style.name, fun o => { o with directiveIndent := style }) },
   { key := "hexliterals"
     values := switch (fun b o => { o with uppercaseHex := b }) ["uppercase", "upper"]
       ["lowercase", "lower"] },
   { key := "experimental"
     values := switch (fun b o => { o with experimental := b }) ["enabled", "true"]
       ["disabled", "false"] },
   { key := "fragment"
     values := switch (fun b o => { o with fragment := b }) ["true", "enabled"]
       ["false", "disabled"] }]

/-- The options with one flag resolved. Values are compared in lower case and reported as given. -/
def resolve (setting : Setting) (value : String) (options : Options) : Except Failure Options :=
  if value = "" then .error (.missingValue setting.key)
  else
    match setting.choice? (String.ofList (Text.lower value.toList)) with
    | some change => .ok (change options)
    | none => .error (.unsupportedValue setting.key value)

end Setting

namespace Options

/-- The options with the given flags resolved in order; flags that are absent change nothing. -/
def resolveWith (flag : String → Option String) (options : Options) :
    List Setting → Except Failure Options
  | [] => .ok options
  | setting :: rest =>
    match flag setting.key with
    | none => resolveWith flag options rest
    | some value =>
      match setting.resolve value options with
      | .error failure => .error failure
      | .ok resolved => resolveWith flag resolved rest

def resolve (flag : String → Option String) : Except Failure Options :=
  resolveWith flag {} Setting.all

end Options
end SourceStyle
