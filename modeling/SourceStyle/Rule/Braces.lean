import SourceStyle.Options
import SourceStyle.Token

/-!
Placement of the curly bracket that opens a block: on a line of its own, or at the end of the line
of its header.
-/

namespace SourceStyle.Rule

open Token

/-- Tokens after which a curly bracket opens a block and not a closure. -/
def endsBlockHeader : Token → Bool
  | .identifier _ | .closing .round | .closing .square => true
  | .operator text =>
    text != "->" && text.toList.getLast?.any fun c => c == '>' || c == '?' || c == '!'
  | _ => false

def endsLine (following : List Token) : Bool :=
  match skipSpace following with
  | [] | .linebreak _ :: _ | .lineComment _ :: _ => true
  | _ => false

/-- The body of the block whose bracket, the last code on its line, follows the header on the same
line. -/
def bodyOnHeaderLine? (following : List Token) : Option (List Token) :=
  match skipSpace following with
  | .opening .curly :: body => if endsLine body then some body else none
  | _ => none

/-- The body of the block whose bracket follows the header on a later line. -/
def bodyOnLaterLine? (following : List Token) : Option (List Token) :=
  match following.dropWhile isLayout with
  | .opening .curly :: body =>
    if (following.takeWhile isLayout).any isLinebreak then some body else none
  | _ => none

/-- The body of the block whose bracket follows the header but is out of place. -/
def misplacedBody? (options : Options) (following : List Token) : Option (List Token) :=
  if options.allmanBraces then bodyOnHeaderLine? following else bodyOnLaterLine? following

/-- A bracket is out of place if it ends the line of its header and belongs on the next, or if it is
on a later line and belongs on the header's. -/
theorem misplacedBody?_eq_some {options : Options} {following body : List Token}
    (h : misplacedBody? options following = some body) :
    options.allmanBraces = true ∧ skipSpace following = .opening .curly :: body ∧
        endsLine body = true ∨
      options.allmanBraces = false ∧ following.dropWhile isLayout = .opening .curly :: body ∧
        (following.takeWhile isLayout).any isLinebreak = true := by
  unfold misplacedBody? at h
  split at h
  · rename_i ho
    unfold bodyOnHeaderLine? at h
    split at h
    · rename_i hs
      split at h
      · cases h
        exact .inl ⟨ho, hs, ‹_›⟩
      · cases h
    · cases h
  · rename_i ho
    unfold bodyOnLaterLine? at h
    split at h
    · rename_i hd
      split at h
      · cases h
        exact .inr ⟨Bool.eq_false_iff.2 ho, hd, ‹_›⟩
      · cases h
    · cases h

/-- Only layout stands between a header and a bracket out of place. -/
theorem eq_append_of_misplacedBody? {options : Options} {following body : List Token}
    (h : misplacedBody? options following = some body) :
    ∃ gap, (∀ token ∈ gap, token.isLayout = true) ∧
      following = gap ++ .opening .curly :: body := by
  obtain ⟨-, hs, -⟩ | ⟨-, hd, -⟩ := misplacedBody?_eq_some h
  · exact ⟨_, isLayout_of_mem_takeWhile_isWhitespace, by rw [← hs, takeWhile_append_skipSpace]⟩
  · exact ⟨_, List.all_eq_true.1 List.all_takeWhile,
      by rw [← hd, List.takeWhile_append_dropWhile]⟩

theorem length_of_misplacedBody? {options : Options} {following body : List Token}
    (h : misplacedBody? options following = some body) : body.length < following.length := by
  obtain ⟨gap, -, rfl⟩ := eq_append_of_misplacedBody? h
  simp only [List.length_append, List.length_cons]
  omega

def braceGap (options : Options) : Token :=
  if options.allmanBraces then .linebreak options.linebreak else .whitespace " "

theorem isLayout_braceGap (options : Options) : (braceGap options).isLayout = true := by
  unfold braceGap
  split <;> rfl

/-- Moves every misplaced bracket of a block. -/
def braces (options : Options) (tokens : List Token) : List Token :=
  match tokens with
  | [] => []
  | token :: rest =>
    if endsBlockHeader token then
      match h : misplacedBody? options rest with
      | some body =>
        have := length_of_misplacedBody? h
        token :: braceGap options :: .opening .curly :: braces options body
      | none => token :: braces options rest
    else token :: braces options rest
termination_by tokens.length

section
variable {options : Options} {token : Token} {rest : List Token}

theorem braces_of_misplacedBody? {body : List Token} (he : endsBlockHeader token = true)
    (h : misplacedBody? options rest = some body) :
    braces options (token :: rest) =
      token :: braceGap options :: .opening .curly :: braces options body := by
  rw [braces, if_pos he]
  split
  · rename_i hs
    rw [h] at hs
    cases hs
    rfl
  · rename_i hn
    rw [h] at hn
    cases hn

theorem braces_of_none (h : endsBlockHeader token = true → misplacedBody? options rest = none) :
    braces options (token :: rest) = token :: braces options rest := by
  rw [braces]
  split
  · rename_i he
    split
    · rename_i hs
      rw [h he] at hs
      cases hs
    · rfl
  · rfl

end

end SourceStyle.Rule
