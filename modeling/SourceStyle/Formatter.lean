import SourceStyle.Rule
import SourceStyle.Token.Lexer
import SourceStyle.Token.Scope

/-!
Formatting a source text: reading it, checking its scopes, running the rules, rendering.
-/

namespace SourceStyle

/-- The tokens of source whose scopes are balanced, or that is a fragment. -/
def readTokens (options : Options) (source : String) : Except SyntaxError (List Token) :=
  match tokenize source with
  | .error error => .error error
  | .ok tokens =>
    match Scope.check tokens options.fragment with
    | .error error => .error error
    | .ok () => .ok tokens

def format (rules : List Rule) (options : Options) (source : String) :
    Except SyntaxError String :=
  (readTokens options source).map fun tokens => Token.render (Rule.run rules options tokens)

end SourceStyle
