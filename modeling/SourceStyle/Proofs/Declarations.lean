import SourceStyle.Proofs.Neighbours
import SourceStyle.Proofs.Reindentation.OpenLines
import SourceStyle.Proofs.Repetition.DeclarationSpacing

/-!
Declarations stand apart. A body's closing bracket is told from other brackets by reading back from
where the body was opened, in the tokens that the rule leaves, and code that follows such a bracket
is separated from it by a blank line.
-/

namespace SourceStyle.Rule

open Token

/-- Whether a curly bracket behind the tokens opens the body of a declaration. The header of a
bracket on a line of its own is the line before. -/
def opensDeclaration (before : List Token) : Bool :=
  if (currentLine before).all isWhitespace then
    (currentLine (linesBefore before).dropLast).any isDeclarationKeyword
  else (currentLine before).any isDeclarationKeyword

/-- The blocks open behind tokens that are given last token first, innermost first, each with whether
it is the body of a declaration. A closing bracket closes the innermost block, if one is open. -/
def openBodies : List Token → List Bool
  | [] => []
  | .opening .curly :: earlier => opensDeclaration earlier.reverse :: openBodies earlier
  | .closing .curly :: earlier => (openBodies earlier).tail
  | _ :: earlier => openBodies earlier

/-- Whether a closing curly bracket behind the tokens closes the body of a declaration. -/
def closesDeclaration (before : List Token) : Bool :=
  (openBodies before.reverse).head? == some true

/-- Some line terminators have been put in, each right behind the end of a line that has only space
behind a closing curly bracket, and one at most for each such bracket. -/
inductive Spaced (options : Options) : List Token → List Token → Prop
  | nil : Spaced options [] []
  | keep (token : Token) {tokens left : List Token} (h : Spaced options tokens left) :
      Spaced options (token :: tokens) (token :: left)
  | blank (ending : Linebreak) {space tokens left : List Token}
      (hs : ∀ token ∈ space, token.isWhitespace = true) (h : Spaced options tokens left) :
      Spaced options (.closing .curly :: (space ++ .linebreak ending :: tokens))
        (.closing .curly :: (space ++ .linebreak ending :: .linebreak options.linebreak :: left))

theorem spaced_spaceDeclarations (options : Options) (bodies : List Bool) (view : LineView)
    (tokens : List Token) : Spaced options tokens (spaceDeclarations options bodies view tokens) := by
  fun_induction spaceDeclarations options bodies view tokens with
  | case1 => exact .nil
  | case2 bodies view token rest hc ending following hb _ ih =>
      obtain ⟨rfl, -⟩ := hc
      have hspace : ∀ token ∈ rest.takeWhile isWhitespace, token.isWhitespace = true :=
        List.all_eq_true.1 List.all_takeWhile
      conv => lhs; rw [eq_append_of_skipSpace_eq (eq_append_of_codeAfterBody? hb).1]
      exact .blank ending hspace ih
  | case3 bodies view token rest _ _ ih | case4 bodies view token rest _ ih => exact .keep token ih

/-! ### What the rule knows of the tokens it has left behind -/

theorem currentLine_concat (before : List Token) (token : Token) :
    currentLine (before ++ [token]) = if token.isLinebreak then [] else currentLine before ++ [token] := by
  rw [currentLine, List.rtakeWhile_concat, ← currentLine]
  cases token.isLinebreak <;> rfl

theorem linesBefore_concat (before : List Token) (token : Token) :
    linesBefore (before ++ [token]) =
      if token.isLinebreak then before ++ [token] else linesBefore before := by
  rw [linesBefore, List.rdropWhile_concat, ← linesBefore]
  cases token.isLinebreak <;> rfl

/-- What the rule carries along of the lines is what is read back from them. -/
theorem foldl_lineView (before : List Token) :
    before.foldl LineView.after {} =
      { declares := (currentLine before).any isDeclarationKeyword
        blank := (currentLine before).all isWhitespace
        previousDeclares := (currentLine (linesBefore before).dropLast).any isDeclarationKeyword } := by
  induction before using List.reverseRecOn with
  | nil => rfl
  | append_singleton before token ih =>
      rw [List.foldl_append, ih, List.foldl_cons, List.foldl_nil, currentLine_concat,
        linesBefore_concat]
      cases token with
      | linebreak ending => simp [LineView.after, isLinebreak]
      | _ => simp [LineView.after, isLinebreak, isWhitespace, isDeclarationKeyword]

theorem opensDeclaration_foldl_lineView (before : List Token) :
    (before.foldl LineView.after {}).opensDeclaration = opensDeclaration before := by
  rw [foldl_lineView, LineView.opensDeclaration, opensDeclaration]
  split
  · rename_i hblank
    have hn : (currentLine before).any isDeclarationKeyword = false := by
      rw [List.any_eq_false]
      intro token hm
      have hw := List.all_eq_true.1 hblank token hm
      cases token <;> first | exact Bool.false_ne_true | cases hw
    rw [hn, hblank, Bool.false_or, Bool.true_and]
  · rename_i hcode
    rw [Bool.eq_false_iff.2 hcode, Bool.false_and, Bool.or_false]

theorem view_foldl_endWatch (state : EndState) (before : List Token) :
    (before.foldl endWatch.next state).view = before.foldl LineView.after state.view := by
  induction before generalizing state with
  | nil => rfl
  | cons token before ih =>
      rw [List.foldl_cons, List.foldl_cons]
      exact ih (endWatch.next state token)

theorem bodies_foldl_endWatch (before : List Token) :
    (before.foldl endWatch.next ⟨[], {}, .idle⟩).bodies = openBodies before.reverse := by
  induction before using List.reverseRecOn with
  | nil => rfl
  | append_singleton before token ih =>
      rw [List.foldl_append, List.foldl_cons, List.foldl_nil, List.reverse_append,
        List.reverse_singleton, List.singleton_append]
      have hn (state : EndState) :
          (endWatch.next state token).bodies = bodiesAfter state.bodies state.view token := rfl
      rw [hn, ih, view_foldl_endWatch]
      cases token with
      | opening bracket =>
          cases bracket with
          | curly =>
              rw [bodiesAfter, openBodies, opensDeclaration_foldl_lineView, List.reverse_reverse]
          | _ => rfl
      | closing bracket => cases bracket <;> rfl
      | _ => rfl

/-- In tokens that pass, no code but a closing bracket begins the line after a declaration. -/
theorem line_after_declaration {tokens before after rest following : List Token}
    {ending : Linebreak} {next : Token} (h : endWatch.Passes ⟨[], {}, .idle⟩ tokens)
    (ht : tokens = before ++ .closing .curly :: after) (hc : closesDeclaration before = true)
    (ha : skipSpace after = .linebreak ending :: rest) (hr : skipSpace rest = next :: following) :
    next.isLinebreak = true ∨ next.isClosing = true := by
  rw [ht] at h
  obtain ⟨-, -, hp⟩ := Watch.passes_append.1 h
  have hbodies : (before.foldl endWatch.next ⟨[], {}, .idle⟩).bodies.head? = some true := by
    rw [bodies_foldl_endWatch]
    exact beq_iff_eq.1 hc
  rw [endWatch_next_closing hbodies, ← (endWatch_deaf.ignores _).passes_skipSpace, ha] at hp
  obtain ⟨-, hp⟩ := hp
  rw [← (endWatch_deaf.ignores _).passes_skipSpace, hr] at hp
  obtain ⟨hnext, -⟩ := hp
  have hw : next.isWhitespace = false := isWhitespace_of_skipSpace_eq hr
  obtain hlayout | hclosing := hnext rfl
  · rw [isLayout, hw, Bool.false_or] at hlayout
    exact .inl hlayout
  · exact .inr hclosing

/-- Declarations stand apart from the code after them, and what was separated is not separated again.
Nothing changes but that line terminators are put in behind the lines of closing curly brackets, one
at most for each. Then behind every bracket that closes a declaration and ends its line, the next
line is blank, begins with a closing bracket or has nothing more on it. -/
theorem blankLines_behind_declarations {options : Options} (ho : options.insertBlankLines = true)
    (tokens : List Token) :
    Spaced options tokens (blankLinesBetweenScopes options tokens) ∧
    (∀ before after, blankLinesBetweenScopes options tokens = before ++ .closing .curly :: after →
      closesDeclaration before = true →
      ∀ ending rest, skipSpace after = .linebreak ending :: rest →
      ∀ next following, skipSpace rest = next :: following →
        next.isLinebreak = true ∨ next.isClosing = true) ∧
    blankLinesBetweenScopes options (blankLinesBetweenScopes options tokens) =
      blankLinesBetweenScopes options tokens := by
  have he (given : List Token) :
      blankLinesBetweenScopes options given = spaceDeclarations options [] {} given := if_pos ho
  simp only [he]
  have hp : endWatch.Passes ⟨[], {}, .idle⟩ (spaceDeclarations options [] {} tokens) :=
    endWatch_passes_spaceDeclarations options tokens
  refine ⟨spaced_spaceDeclarations options [] {} tokens, ?_, spaceDeclarations_eq_self hp⟩
  intro before after ht hc ending rest ha next following hr
  exact line_after_declaration hp ht hc ha hr

/-- A class with its bracket on a line of its own, and in it a statement's block that code follows. -/
def classTokens : List Token :=
  [.identifier "class", .whitespace " ", .identifier "A", .linebreak .lf, .opening .curly,
    .identifier "if", .opening .curly, .closing .curly, .linebreak .lf, .identifier "a",
    .closing .curly, .whitespace " ", .linebreak .lf, .identifier "b"]

def classTokensSpaced : List Token :=
  [.identifier "class", .whitespace " ", .identifier "A", .linebreak .lf, .opening .curly,
    .identifier "if", .opening .curly, .closing .curly, .linebreak .lf, .identifier "a",
    .closing .curly, .whitespace " ", .linebreak .lf, .linebreak .lf, .identifier "b"]

theorem blankLines_behind_declarations_class :
    ({} : Options).insertBlankLines = true ∧
    closesDeclaration (classTokensSpaced.take 10) = true ∧
    Spaced {} classTokens classTokensSpaced ∧
    (∀ before after, classTokensSpaced = before ++ .closing .curly :: after →
      closesDeclaration before = true →
      ∀ ending rest, skipSpace after = .linebreak ending :: rest →
      ∀ next following, skipSpace rest = next :: following →
        next.isLinebreak = true ∨ next.isClosing = true) ∧
    blankLinesBetweenScopes {} classTokensSpaced = classTokensSpaced := by
  have ho : ({} : Options).insertBlankLines = true := rfl
  have hs : blankLinesBetweenScopes {} classTokens = classTokensSpaced := by cbv
  have h := blankLines_behind_declarations ho classTokens
  rw [hs] at h
  exact ⟨ho, by cbv, h⟩

end SourceStyle.Rule
