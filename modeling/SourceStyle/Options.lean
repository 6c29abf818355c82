import SourceStyle.Linebreak

/-!
The choices a formatting run makes, each with its default, and their spelling as flags.
-/

namespace SourceStyle

inductive Indent where
  | tab
  | spaces (width : Nat)
deriving DecidableEq, Repr

def Indent.unit : Indent → List Char
  | tab => ['\t']
  | spaces width => List.replicate width ' '

/-- How the directives of conditional compilation are indented. -/
inductive DirectiveIndent where
  | indent
  | noindent
  | outdent
deriving DecidableEq, Repr

def DirectiveIndent.name : DirectiveIndent → String
  | indent => "indent"
  | noindent => "noindent"
  | outdent => "outdent"

structure Options where
  indent : Indent := .spaces 4
  allmanBraces : Bool := false
  inlineSemicolons : Bool := true
  trailingCommas : Bool := true
  indentComments : Bool := true
  linebreak : Linebreak := .lf
  spacedRanges : Bool := true
  useVoid : Bool := true
  truncateBlankLines : Bool := true
  insertBlankLines : Bool := true
  removeBlankLines : Bool := true
  stripHeader : Bool := false
  directiveIndent : DirectiveIndent := .indent
  uppercaseHex : Bool := true
  experimental : Bool := false
  fragment : Bool := false
deriving DecidableEq, Repr

namespace Options

def indentValue : Indent → String
  | .tab => "tab"
  | .spaces width => toString width

/-- The flags that spell out every choice, in the order in which they are shown. -/
def flags (options : Options) : List (String × String) :=
  [("indent", indentValue options.indent),
   ("allman", if options.allmanBraces then "true" else "false"),
   ("linebreaks", options.linebreak.name),
   ("semicolons", if options.inlineSemicolons then "inline" else "never"),
   ("commas", if options.trailingCommas then "always" else "inline"),
   ("comments", if options.indentComments then "indent" else "ignore"),
   ("ranges", if options.spacedRanges then "spaced" else "nospace"),
   ("empty", if options.useVoid then "void" else "tuple"),
   ("trimwhitespace", if options.truncateBlankLines then "always" else "nonblank-lines"),
   ("insertlines", if options.insertBlankLines then "enabled" else "disabled"),
   ("removelines", if options.removeBlankLines then "enabled" else "disabled"),
   ("header", if options.stripHeader then "strip" else "ignore"),
   ("ifdef", options.directiveIndent.name),
   ("hexliterals", if options.uppercaseHex then "uppercase" else "lowercase"),
   ("experimental", if options.experimental then "enabled" else "disabled"),
   ("fragment", if options.fragment then "true" else "false")]

/-- One text that determines every choice: each flag and its value, closed by a semicolon. -/
def serial (options : Options) : String :=
  String.join (options.flags.map fun (key, value) => key ++ "=" ++ value ++ ";")

end Options
end SourceStyle
