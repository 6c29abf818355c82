import SourceStyle.Options
import SourceStyle.Token

/-!
Spacing of range operators between two operands. Ranges with one operand and variadic markers are
left alone.
-/

namespace SourceStyle.Rule

open Token

def isRangeOperator (text : String) : Bool :=
  text == "..." || text == "..<"

def isOperandEnd : Token → Bool
  | .identifier _ | .number _ | .stringLiteral _ | .closing .round | .closing .square => true
  | _ => false

def isOperandStart : Token → Bool
  | .identifier _ | .number _ | .stringLiteral _ | .opening .round | .opening .square => true
  | _ => false

/-- The range operator that follows an operand, and the tokens from its second operand on. -/
def rangeAhead? (tokens : List Token) : Option (String × List Token) :=
  match skipSpace tokens with
  | .operator text :: rest =>
    if isRangeOperator text && (skipSpace rest).head?.any isOperandStart then
      some (text, skipSpace rest)
    else none
  | _ => none

/-- A range ahead is space, its operator, space and its second operand. -/
theorem eq_of_rangeAhead? {tokens rest : List Token} {text : String}
    (h : rangeAhead? tokens = some (text, rest)) :
    ∃ following, skipSpace tokens = .operator text :: following ∧ rest = skipSpace following ∧
      isRangeOperator text = true ∧ rest.head?.any isOperandStart = true := by
  unfold rangeAhead? at h
  split at h
  · rename_i operator following heq
    split at h
    · rename_i hc
      simp only [Bool.and_eq_true] at hc
      cases h
      exact ⟨following, heq, rfl, hc.1, hc.2⟩
    · simp at h
  · simp at h

theorem length_of_rangeAhead? {tokens rest : List Token} {text : String}
    (h : rangeAhead? tokens = some (text, rest)) : rest.length < tokens.length := by
  obtain ⟨following, hs, rfl, -, -⟩ := eq_of_rangeAhead? h
  exact Nat.lt_of_le_of_lt (length_skipSpace_le _) (length_of_skipSpace_eq hs)

def spacedRange (options : Options) (text : String) : List Token :=
  if options.spacedRanges then [.whitespace " ", .operator text, .whitespace " "]
  else [.operator text]

/-- Spaces every range between two operands. -/
def ranges (options : Options) (tokens : List Token) : List Token :=
  match tokens with
  | [] => []
  | token :: rest =>
    if isOperandEnd token then
      match h : rangeAhead? rest with
      | some (text, following) =>
        have := length_of_rangeAhead? h
        token :: (spacedRange options text ++ ranges options following)
      | none => token :: ranges options rest
    else token :: ranges options rest
termination_by tokens.length

section
variable {options : Options} {token : Token} {rest : List Token}

theorem ranges_of_rangeAhead? {following : List Token} {text : String}
    (he : isOperandEnd token = true) (h : rangeAhead? rest = some (text, following)) :
    ranges options (token :: rest) =
      token :: (spacedRange options text ++ ranges options following) := by
  rw [ranges, if_pos he]
  split
  · rename_i hs
    rw [h] at hs
    cases hs
    rfl
  · rename_i hn
    rw [h] at hn
    cases hn

theorem ranges_of_none (h : isOperandEnd token = true → rangeAhead? rest = none) :
    ranges options (token :: rest) = token :: ranges options rest := by
  rw [ranges]
  split
  · rename_i he
    split
    · rename_i hs
      rw [h he] at hs
      cases hs
    · rfl
  · rfl

end

end SourceStyle.Rule
