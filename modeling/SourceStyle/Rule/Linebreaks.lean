import SourceStyle.Options
import SourceStyle.Token

/-!
One spelling for every line terminator, inside block comments too.
-/

namespace SourceStyle.Rule

def respellToken (ending : Linebreak) : Token → Token
  | .linebreak _ => .linebreak ending
  | .blockComment text => .blockComment (String.ofList (ending.respell text.toList))
  | token => token

def linebreaks (options : Options) (tokens : List Token) : List Token :=
  tokens.map (respellToken options.linebreak)

end SourceStyle.Rule
