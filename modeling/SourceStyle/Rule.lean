import SourceStyle.Rule.BlankLines
import SourceStyle.Rule.Braces
import SourceStyle.Rule.DeclarationSpacing
import SourceStyle.Rule.Header
import SourceStyle.Rule.HexLiterals
import SourceStyle.Rule.Indentation
import SourceStyle.Rule.Linebreaks
import SourceStyle.Rule.Ranges
import SourceStyle.Rule.Semicolons
import SourceStyle.Rule.TrailingCommas
import SourceStyle.Rule.TrailingSpace
import SourceStyle.Rule.VoidTypes

/-!
The formatting rules, in the order in which they run.
-/

namespace SourceStyle

/-- A named edit of token lists. Experimental rules run only on request. -/
structure Rule where
  name : String
  experimental : Bool := false
  apply : Options → List Token → List Token

namespace Rule

def all : List Rule :=
  [{ name := "linebreaks", apply := linebreaks },
   { name := "header", apply := header },
   { name := "semicolons", apply := semicolons },
   { name := "ranges", apply := ranges },
   { name := "void", apply := voidTypes },
   { name := "hexLiterals", apply := hexLiterals },
   { name := "trailingCommas", apply := trailingCommas },
   { name := "braces", apply := braces },
   { name := "blankLinesAtScopeEdges", apply := blankLinesAtScopeEdges },
   { name := "blankLinesBetweenScopes", apply := blankLinesBetweenScopes },
   { name := "consecutiveBlankLines", experimental := true, apply := consecutiveBlankLines },
   { name := "indent", apply := indentation },
   { name := "trailingWhitespace", apply := trailingWhitespace }]

/-- What is to hold of every rule is to hold of each. -/
@[elab_as_elim]
theorem mem_all_cases {motive : ∀ rule, rule ∈ all → Prop}
    (linebreaks : motive { name := "linebreaks", apply := linebreaks } (by simp [all]))
    (header : motive { name := "header", apply := header } (by simp [all]))
    (semicolons : motive { name := "semicolons", apply := semicolons } (by simp [all]))
    (ranges : motive { name := "ranges", apply := ranges } (by simp [all]))
    (voidTypes : motive { name := "void", apply := voidTypes } (by simp [all]))
    (hexLiterals : motive { name := "hexLiterals", apply := hexLiterals } (by simp [all]))
    (trailingCommas : motive { name := "trailingCommas", apply := trailingCommas } (by simp [all]))
    (braces : motive { name := "braces", apply := braces } (by simp [all]))
    (blankLinesAtScopeEdges :
      motive { name := "blankLinesAtScopeEdges", apply := blankLinesAtScopeEdges } (by simp [all]))
    (blankLinesBetweenScopes :
      motive { name := "blankLinesBetweenScopes", apply := blankLinesBetweenScopes } (by simp [all]))
    (consecutiveBlankLines :
      motive
        { name := "consecutiveBlankLines", experimental := true, apply := consecutiveBlankLines }
        (by simp [all]))
    (indentation : motive { name := "indent", apply := indentation } (by simp [all]))
    (trailingWhitespace :
      motive { name := "trailingWhitespace", apply := trailingWhitespace } (by simp [all]))
    {rule : Rule} (hr : rule ∈ all) : motive rule hr := by
  have hm := hr
  simp only [all, List.mem_cons, List.not_mem_nil, or_false] at hm
  rcases hm with rfl | rfl | rfl | rfl | rfl | rfl | rfl | rfl | rfl | rfl | rfl | rfl | rfl <;>
    assumption

def named? (name : String) : Option Rule :=
  all.find? (·.name == name)

def isEnabled (rule : Rule) (options : Options) : Bool :=
  !rule.experimental || options.experimental

/-- The tokens after the enabled ones of the rules, in order. -/
def run (rules : List Rule) (options : Options) (tokens : List Token) : List Token :=
  (rules.filter (·.isEnabled options)).foldl (fun tokens rule => rule.apply options tokens) tokens

end Rule
end SourceStyle
