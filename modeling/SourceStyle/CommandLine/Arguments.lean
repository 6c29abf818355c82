import SourceStyle.Options.Vocabulary

/-!
The arguments of a command line: flags with their values, and inputs in order.
-/

namespace SourceStyle.CommandLine

/-- The keys of all flags, in the order in which arguments are listed. -/
def recognizedKeys : List String :=
  ["output", "inferoptions", "indent", "allman", "linebreaks", "semicolons", "commas", "comments",
   "ranges", "empty", "trimwhitespace", "insertlines", "removelines", "header", "ifdef",
   "hexliterals", "experimental", "fragment", "cache", "help", "version"]

/-- Flags with their values, each key once, and inputs. -/
structure Arguments where
  flags : List (String × String) := []
  inputs : List String := []
deriving DecidableEq, Repr

namespace Arguments

def flag? (arguments : Arguments) (key : String) : Option String :=
  arguments.flags.lookup key

/-- Flags with one added; it replaces the value of a flag that is present. -/
def setFlag (flags : List (String × String)) (key value : String) : List (String × String) :=
  if flags.any (·.1 == key) then
    flags.map fun flag => if flag.1 == key then (key, value) else flag
  else flags ++ [(key, value)]

/-- Arguments from flags in order, where later values replace earlier ones, and inputs. -/
def ofPairs (pairs : List (String × String)) (inputs : List String) : Arguments :=
  { flags := pairs.foldl (fun flags (key, value) => setFlag flags key value) [], inputs }

def options (arguments : Arguments) : Except Failure Options :=
  Options.resolve arguments.flag?

end Arguments
end SourceStyle.CommandLine
