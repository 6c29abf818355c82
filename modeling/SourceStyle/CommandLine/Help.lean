/-!
The help page and the version line.
-/

namespace SourceStyle.CommandLine

def versionLine : String := "swiftfmt, version 0.18.0"

def usage : String := "usage: swiftfmt [<file> ...] [--output path] [--indent spaces] [...]"

/-- The arguments and what they mean, in the order of the page. -/
def descriptions : List (String × String) :=
  [("<file> ...", "input file(s) or directory path(s)"),
   ("--output", "output path for formatted file(s) (defaults to input path)"),
   ("--inferoptions", "path to file or directory from which to infer formatting options"),
   ("--indent", "number of spaces to indent, or \"tab\" to use tabs"),
   ("--allman", "use allman indentation style \"true\" or \"false\" (default)"),
   ("--linebreaks", "linebreak character to use. \"cr\", \"crlf\" or \"lf\" (default)"),
   ("--semicolons", "allow semicolons. \"never\" or \"inline\" (default)"),
   ("--commas", "commas in collection literals. \"always\" (default) or \"inline\""),
   ("--comments", "indenting of comment bodies. \"indent\" (default) or \"ignore\""),
   ("--ranges", "spacing for ranges. \"spaced\" (default) or \"nospace\""),
   ("--empty", "how empty values are represented. \"void\" (default) or \"tuple\""),
   ("--trimwhitespace", "trim trailing space. \"always\" (default) or \"nonblank-lines\""),
   ("--insertlines", "insert blank line after \x7d. \"enabled\" (default) or \"disabled\""),
   ("--removelines", "remove blank line before \x7d. \"enabled\" (default) or \"disabled\""),
   ("--header", "header comments. \"strip\" to remove, or \"ignore\" (default)"),
   ("--ifdef", "#if indenting. \"indent\" (default), \"noindent\" or \"outdent\""),
   ("--hexliterals", "casing for hex literals. \"uppercase\" (default) or \"lowercase\""),
   ("--experimental", "experimental rules. \"enabled\" or \"disabled\" (default)"),
   ("--fragment", "input is part of a larger file. \"true\" or \"false\" (default)"),
   ("--cache", "path to cache file, or \"clear\" or \"ignore\" the default cache"),
   ("--help", "this help page"),
   ("--version", "version information")]

def columnWidth : Nat := 18

/-- A line of the page: the argument padded to its column, and its meaning. -/
def descriptionLine (entry : String × String) : String :=
  let padding := String.ofList (List.replicate (columnWidth - entry.1.length) ' ')
  " " ++ entry.1 ++ padding ++ entry.2

def helpText : String :=
  versionLine ++ "\n\n" ++ usage ++ "\n\n" ++
    String.intercalate "\n" (descriptions.map descriptionLine) ++ "\n\n"

end SourceStyle.CommandLine
