import SourceStyle.Options
import SourceStyle.Token

/-!
A blank line after a declaration's body when more code follows at the same level.
-/

namespace SourceStyle.Rule

open Token

def declarationKeywords : List String :=
  ["func", "init", "deinit", "class", "struct", "enum", "extension", "protocol", "subscript",
   "actor"]

def isDeclarationKeyword : Token → Bool
  | .identifier name => declarationKeywords.contains name
  | _ => false

/-- What matters of the line up to a token, and of the line before it. -/
structure LineView where
  declares : Bool := false
  blank : Bool := true
  previousDeclares : Bool := false
deriving DecidableEq, Repr

def LineView.after (view : LineView) : Token → LineView
  | .linebreak _ => { previousDeclares := view.declares }
  | .whitespace _ => view
  | token => { view with declares := view.declares || isDeclarationKeyword token, blank := false }

/-- Whether a curly bracket here opens the body of a declaration. The header of a bracket on a line
of its own is the line before. -/
def LineView.opensDeclaration (view : LineView) : Bool :=
  view.declares || (view.blank && view.previousDeclares)

/-- The blocks open after a token, innermost first, each with whether it is a declaration's body. -/
def bodiesAfter (bodies : List Bool) (view : LineView) : Token → List Bool
  | .opening .curly => view.opensDeclaration :: bodies
  | .closing .curly => bodies.tail
  | _ => bodies

/-- Whether code other than a closing bracket comes on the next line. -/
def continuesWithCode (following : List Token) : Bool :=
  match skipSpace following with
  | [] | .linebreak _ :: _ | .closing _ :: _ => false
  | _ => true

/-- The line terminator after a body, if code comes on the line after it, and the tokens from that
line on. -/
def codeAfterBody? (following : List Token) : Option (Linebreak × List Token) :=
  match skipSpace following with
  | .linebreak ending :: rest => if continuesWithCode rest then some (ending, rest) else none
  | _ => none

theorem eq_append_of_codeAfterBody? {following rest : List Token} {ending : Linebreak}
    (h : codeAfterBody? following = some (ending, rest)) :
    skipSpace following = .linebreak ending :: rest ∧ continuesWithCode rest = true := by
  unfold codeAfterBody? at h
  split at h
  · split at h
    · cases h
      exact ⟨‹_›, ‹_›⟩
    · simp at h
  · simp at h

theorem length_of_codeAfterBody? {following rest : List Token} {ending : Linebreak}
    (h : codeAfterBody? following = some (ending, rest)) : rest.length < following.length :=
  length_of_skipSpace_eq (eq_append_of_codeAfterBody? h).1

/-- Separates declarations from the code after them, inside the given blocks. -/
def spaceDeclarations (options : Options) (bodies : List Bool) (view : LineView)
    (tokens : List Token) : List Token :=
  match tokens with
  | [] => []
  | token :: rest =>
    if token = .closing .curly ∧ bodies.head? = some true then
      match h : codeAfterBody? rest with
      | some (ending, following) =>
        have := length_of_codeAfterBody? h
        token :: (rest.takeWhile isWhitespace ++ .linebreak ending ::
          .linebreak options.linebreak :: spaceDeclarations options bodies.tail {} following)
      | none => token :: spaceDeclarations options bodies.tail (view.after token) rest
    else
      token :: spaceDeclarations options (bodiesAfter bodies view token) (view.after token) rest
termination_by tokens.length

section
variable {options : Options} {bodies : List Bool} {view : LineView} {rest : List Token}

theorem spaceDeclarations_of_codeAfterBody? {ending : Linebreak} {following : List Token}
    (hb : bodies.head? = some true) (h : codeAfterBody? rest = some (ending, following)) :
    spaceDeclarations options bodies view (.closing .curly :: rest) = .closing .curly ::
      (rest.takeWhile isWhitespace ++ .linebreak ending :: .linebreak options.linebreak ::
        spaceDeclarations options bodies.tail {} following) := by
  rw [spaceDeclarations, if_pos ⟨rfl, hb⟩]
  split
  · rename_i hs
    rw [h] at hs
    cases hs
    rfl
  · rename_i hn
    rw [h] at hn
    cases hn

theorem spaceDeclarations_of_none {token : Token}
    (h : token = .closing .curly ∧ bodies.head? = some true → codeAfterBody? rest = none) :
    spaceDeclarations options bodies view (token :: rest) =
      token :: spaceDeclarations options (bodiesAfter bodies view token) (view.after token) rest := by
  rw [spaceDeclarations]
  split
  · rename_i he
    split
    · rename_i hs
      rw [h he] at hs
      cases hs
    · rw [he.1]
      rfl
  · rfl

end

/-- Separates declarations by blank lines, unless none are to be inserted. -/
def blankLinesBetweenScopes (options : Options) (tokens : List Token) : List Token :=
  if options.insertBlankLines then spaceDeclarations options [] {} tokens else tokens

end SourceStyle.Rule
