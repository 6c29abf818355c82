import SourceStyle.Options
import SourceStyle.Text.Blank
import SourceStyle.Token

/-!
Whitespace at the end of lines, in line comments too. Lines of whitespace alone keep it unless they
are to be truncated.
-/

namespace SourceStyle.Rule

def atLineEnd : List Token → Bool
  | [] | .linebreak _ :: _ => true
  | _ => false

/-- Trims the lines of tokens; `lineStart` says that they begin a line. -/
def trimLines (options : Options) (lineStart : Bool) : List Token → List Token
  | [] => []
  | .whitespace text :: rest =>
    if atLineEnd rest && !(lineStart && !options.truncateBlankLines && !rest.isEmpty) then
      trimLines options lineStart rest
    else .whitespace text :: trimLines options false rest
  | .lineComment text :: rest =>
    .lineComment (String.ofList (Text.trimEnd text.toList)) :: trimLines options false rest
  | .linebreak ending :: rest => .linebreak ending :: trimLines options true rest
  | token :: rest => token :: trimLines options false rest

def trailingWhitespace (options : Options) (tokens : List Token) : List Token :=
  trimLines options true tokens

end SourceStyle.Rule
