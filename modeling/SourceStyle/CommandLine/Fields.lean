import SourceStyle.CommandLine.Arguments

/-!
The fields that a command line fills, one for each flag, and the arguments that they are copied to.
-/

namespace SourceStyle.CommandLine

/-- What a command line gives for each flag: its value if it takes one and is there, or whether it is
there. -/
structure Fields where
  output : Option String := none
  inferoptions : Option String := none
  indent : Option String := none
  allman : Option String := none
  linebreaks : Option String := none
  semicolons : Option String := none
  commas : Option String := none
  comments : Option String := none
  ranges : Option String := none
  empty : Option String := none
  trimwhitespace : Option String := none
  insertlines : Option String := none
  removelines : Option String := none
  header : Option String := none
  ifdef : Option String := none
  hexliterals : Option String := none
  experimental : Option String := none
  fragment : Option String := none
  cache : Option String := none
  help : Bool := false
  version : Bool := false
  inputs : List String := []
deriving DecidableEq, Repr

namespace Fields

/-- The fields that flags as they were read fill by name. -/
def ofFlags (flag : String → Option String) (inputs : List String) : Fields where
  output := flag "output"
  inferoptions := flag "inferoptions"
  indent := flag "indent"
  allman := flag "allman"
  linebreaks := flag "linebreaks"
  semicolons := flag "semicolons"
  commas := flag "commas"
  comments := flag "comments"
  ranges := flag "ranges"
  empty := flag "empty"
  trimwhitespace := flag "trimwhitespace"
  insertlines := flag "insertlines"
  removelines := flag "removelines"
  header := flag "header"
  ifdef := flag "ifdef"
  hexliterals := flag "hexliterals"
  experimental := flag "experimental"
  fragment := flag "fragment"
  cache := flag "cache"
  help := (flag "help").isSome
  version := (flag "version").isSome
  inputs

/-- The value of a flag that takes none, if it is there. -/
def switchValue (present : Bool) : Option String :=
  if present then some "" else none

def values (fields : Fields) : List (String × Option String) :=
  [("output", fields.output), ("inferoptions", fields.inferoptions), ("indent", fields.indent),
   ("allman", fields.allman), ("linebreaks", fields.linebreaks),
   ("semicolons", fields.semicolons), ("commas", fields.commas), ("comments", fields.comments),
   ("ranges", fields.ranges), ("empty", fields.empty),
   ("trimwhitespace", fields.trimwhitespace), ("insertlines", fields.insertlines),
   ("removelines", fields.removelines), ("header", fields.header), ("ifdef", fields.ifdef),
   ("hexliterals", fields.hexliterals), ("experimental", fields.experimental),
   ("fragment", fields.fragment), ("cache", fields.cache),
   ("help", switchValue fields.help), ("version", switchValue fields.version)]

def arguments (fields : Fields) : Arguments where
  flags := fields.values.filterMap fun (key, value?) => value?.map (key, ·)
  inputs := fields.inputs

end Fields
end SourceStyle.CommandLine
