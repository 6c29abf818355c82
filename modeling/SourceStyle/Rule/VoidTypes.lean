import SourceStyle.Options
import SourceStyle.Token

/-!
The empty result type, written as a name or as an empty tuple.
-/

namespace SourceStyle.Rule

open Token

/-- What follows the empty tuple that begins these tokens, whatever space it holds. -/
def afterEmptyTuple? : List Token → Option (List Token)
  | .opening .round :: rest =>
    match skipSpace rest with
    | .closing .round :: after => some after
    | _ => none
  | _ => none

/-- What follows the name of the empty type that begins these tokens. -/
def afterVoidName? : List Token → Option (List Token)
  | .identifier name :: rest => if name = "Void" then some rest else none
  | _ => none

/-- The empty result type in the form to change, as what follows it. -/
def afterEmptyResult? (options : Options) (tokens : List Token) : Option (List Token) :=
  if options.useVoid then afterEmptyTuple? tokens else afterVoidName? tokens

/-- The form to change is an empty tuple, with what space it holds, or a name. -/
theorem eq_of_afterEmptyResult? {options : Options} {tokens after : List Token}
    (h : afterEmptyResult? options tokens = some after) :
    (options.useVoid = true ∧ ∃ rest, tokens = .opening .round :: rest ∧
        skipSpace rest = .closing .round :: after) ∨
      options.useVoid = false ∧ tokens = .identifier "Void" :: after := by
  unfold afterEmptyResult? at h
  split at h
  · unfold afterEmptyTuple? at h
    split at h
    · split at h
      · cases h
        exact .inl ⟨‹_›, _, rfl, ‹_›⟩
      · cases h
    · cases h
  · unfold afterVoidName? at h
    split at h
    · split at h
      · cases h
        subst ‹_ = _›
        exact .inr ⟨Bool.eq_false_iff.2 ‹_›, rfl⟩
      · cases h
    · cases h

theorem length_of_afterEmptyResult? {options : Options} {tokens after : List Token}
    (h : afterEmptyResult? options tokens = some after) : after.length < tokens.length := by
  rcases eq_of_afterEmptyResult? h with ⟨-, rest, rfl, hs⟩ | ⟨-, rfl⟩
  · have := length_of_skipSpace_eq hs
    simp only [List.length_cons]
    omega
  · simp

/-- The empty result type in the form that is wanted. -/
def emptyResult (options : Options) : List Token :=
  if options.useVoid then [.identifier "Void"] else [.opening .round, .closing .round]

/-- Replaces the empty result type after every arrow. -/
def voidTypes (options : Options) (tokens : List Token) : List Token :=
  match tokens with
  | [] => []
  | token :: rest =>
    if token = .operator "->" then
      match h : afterEmptyResult? options (skipSpace rest) with
      | some after =>
        have : after.length < rest.length :=
          Nat.lt_of_lt_of_le (length_of_afterEmptyResult? h) (length_skipSpace_le rest)
        token :: (rest.takeWhile isWhitespace ++ emptyResult options ++ voidTypes options after)
      | none => token :: voidTypes options rest
    else token :: voidTypes options rest
termination_by tokens.length

section
variable {options : Options} {rest : List Token}

theorem voidTypes_of_afterEmptyResult? {after : List Token}
    (h : afterEmptyResult? options (skipSpace rest) = some after) :
    voidTypes options (.operator "->" :: rest) = .operator "->" ::
      (rest.takeWhile isWhitespace ++ emptyResult options ++ voidTypes options after) := by
  rw [voidTypes, if_pos rfl]
  split
  · rename_i hs
    rw [h] at hs
    cases hs
    rfl
  · rename_i hn
    rw [h] at hn
    cases hn

theorem voidTypes_of_none {token : Token}
    (h : token = .operator "->" → afterEmptyResult? options (skipSpace rest) = none) :
    voidTypes options (token :: rest) = token :: voidTypes options rest := by
  rw [voidTypes]
  split
  · rename_i he
    split
    · rename_i hs
      rw [h he] at hs
      cases hs
    · rfl
  · rfl

end

end SourceStyle.Rule
