import SourceStyle.Options
import SourceStyle.Token

/-!
Semicolons: those that end a line or precede a closing curly bracket go, and those between
statements of one line become line terminators where they may not stay. Semicolons inside
parentheses and square brackets are left alone.
-/

namespace SourceStyle.Rule

open Token

/-- The parentheses and square brackets open after a token. -/
def nestingAfter (nesting : Nat) : Token → Nat
  | .opening .round | .opening .square => nesting + 1
  | .closing .round | .closing .square => nesting - 1
  | _ => nesting

theorem nestingAfter_of_isLayout {token : Token} (h : token.isLayout = true) (nesting : Nat) :
    nestingAfter nesting token = nesting := by
  cases token <;> first | rfl | cases h

/-- Whether a semicolon in front of these tokens separates nothing. -/
def endsStatement (following : List Token) : Bool :=
  match skipSpace following with
  | [] | .linebreak _ :: _ | .lineComment _ :: _ | .closing .curly :: _ => true
  | _ => false

inductive SemicolonFate where
  | keep
  | drop
  | split
deriving DecidableEq, Repr

def semicolonFate (options : Options) (nesting : Nat) (following : List Token) : SemicolonFate :=
  if nesting ≠ 0 then .keep
  else if endsStatement following then .drop
  else if options.inlineSemicolons then .keep
  else .split

/-- Semicolons inside parentheses and square brackets stay. -/
theorem nesting_of_semicolonFate {options : Options} {nesting : Nat} {following : List Token}
    (h : semicolonFate options nesting following ≠ .keep) : nesting = 0 := by
  unfold semicolonFate at h
  split at h
  · exact absurd rfl h
  · exact Decidable.not_not.1 ‹_›

/-- Whether the tokens begin with a semicolon that becomes a line terminator. -/
def beginsSplit (options : Options) (nesting : Nat) : List Token → Bool
  | .separator .semicolon :: following => semicolonFate options nesting following == .split
  | _ => false

/-- Settles the semicolons of tokens inside `nesting` parentheses and square brackets. A line
terminator takes the place of the whitespace around its semicolon. -/
def semicolonsFrom (options : Options) (nesting : Nat) (tokens : List Token) : List Token :=
  match tokens with
  | [] => []
  | .separator .semicolon :: rest =>
    match semicolonFate options nesting rest with
    | .keep => .separator .semicolon :: semicolonsFrom options nesting rest
    | .drop => semicolonsFrom options nesting rest
    | .split => .linebreak options.linebreak :: semicolonsFrom options nesting (skipSpace rest)
  | .whitespace text :: rest =>
    if beginsSplit options nesting rest then semicolonsFrom options nesting rest
    else .whitespace text :: semicolonsFrom options nesting rest
  | token :: rest => token :: semicolonsFrom options (nestingAfter nesting token) rest
termination_by tokens.length
decreasing_by
  all_goals
    have := length_skipSpace_le rest
    simp only [List.length_cons]
    omega

/-- Nothing but line terminators is put in. -/
theorem mem_semicolonsFrom {options : Options} {nesting : Nat} {tokens : List Token} {token : Token}
    (h : token ∈ semicolonsFrom options nesting tokens) :
    token ∈ tokens ∨ token = .linebreak options.linebreak := by
  fun_induction semicolonsFrom options nesting tokens with
  | case1 => exact .inl h
  | case2 nesting rest _ ih | case6 nesting _ rest _ ih | case7 nesting _ rest _ _ ih =>
      obtain rfl | h := List.mem_cons.1 h
      · exact .inl List.mem_cons_self
      · exact (ih h).imp_left (List.mem_cons_of_mem _)
  | case3 nesting rest _ ih | case5 nesting _ rest _ ih =>
      exact (ih h).imp_left (List.mem_cons_of_mem _)
  | case4 nesting rest _ ih =>
      obtain rfl | h := List.mem_cons.1 h
      · exact .inr rfl
      · exact (ih h).imp_left fun hm =>
          List.mem_cons_of_mem _ ((List.dropWhile_sublist isWhitespace).mem hm)

def semicolons (options : Options) (tokens : List Token) : List Token :=
  semicolonsFrom options 0 tokens

end SourceStyle.Rule
