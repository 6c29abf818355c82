import SourceStyle.Options
import SourceStyle.Token.Scope

/-!
The comma after the last element of a collection literal whose closing bracket stands on a line of
its own.
-/

namespace SourceStyle.Rule

open Token Scope

/-- The inside of a literal, last token first, with or without a comma after its last element. A
literal that ends in another separator is left alone. -/
def settleReversed (options : Options) (inside : List Token) : List Token :=
  match inside.dropWhile isTrivia with
  | [] => inside
  | .separator .comma :: rest =>
    if options.trailingCommas then inside else inside.takeWhile isTrivia ++ rest
  | .separator _ :: _ => inside
  | token :: rest =>
    if options.trailingCommas then
      inside.takeWhile isTrivia ++ .separator .comma :: token :: rest
    else inside

/-- Whether the bracket that closes this inside stands on a line of its own. -/
def closesOwnLine (inside : List Token) : Bool :=
  (skipSpace inside.reverse).head?.any isLinebreak

def settleComma (options : Options) (inside : List Token) : List Token :=
  if closesOwnLine inside then (settleReversed options inside.reverse).reverse else inside

/-- A closing bracket on a line of its own has only layout and comments between it and a line
terminator. -/
theorem exists_isLinebreak_of_closesOwnLine {inside : List Token}
    (h : closesOwnLine inside = true) :
    ∃ token ∈ (inside.reverse.takeWhile isTrivia).reverse, token.isLinebreak = true := by
  unfold closesOwnLine at h
  cases hs : skipSpace inside.reverse with
  | nil =>
      rw [hs] at h
      cases h
  | cons ending rest =>
      rw [hs] at h
      have hl : ending.isLinebreak = true := h
      refine ⟨ending, List.mem_reverse.2 ?_, hl⟩
      rw [eq_append_of_skipSpace_eq hs, List.takeWhile_append_of_pos]
      · rw [List.takeWhile_cons_of_pos (by simp [isTrivia, isLayout, hl])]
        simp
      · intro token hm
        rw [isTrivia, isLayout_of_mem_takeWhile_isWhitespace token hm, Bool.true_or]

/-- Settling a last comma puts one in, takes one out, or does nothing. -/
theorem settleComma_cases (options : Options) (inside : List Token) :
    settleComma options inside = inside ∨
    ∃ before trivia, (∀ token ∈ trivia, token.isTrivia = true) ∧
      (∃ token ∈ trivia, token.isLinebreak = true) ∧
      (options.trailingCommas = true ∧ inside = before ++ trivia ∧
          (∃ earlier last, before = earlier ++ [last] ∧ last.isTrivia = false) ∧
          settleComma options inside = before ++ .separator .comma :: trivia ∨
        options.trailingCommas = false ∧ inside = before ++ .separator .comma :: trivia ∧
          settleComma options inside = before ++ trivia) := by
  have hr : ∀ rest, inside.reverse.dropWhile isTrivia = rest →
      inside = rest.reverse ++ (inside.reverse.takeWhile isTrivia).reverse := by
    intro rest hd
    rw [← hd, ← List.reverse_append, List.takeWhile_append_dropWhile, List.reverse_reverse]
  have ht : ∀ token ∈ (inside.reverse.takeWhile isTrivia).reverse, token.isTrivia = true :=
    fun token hm => List.all_eq_true.1 List.all_takeWhile token (List.mem_reverse.1 hm)
  unfold settleComma
  split
  · rename_i ho
    have hl := exists_isLinebreak_of_closesOwnLine ho
    unfold settleReversed
    split
    · exact .inl (List.reverse_reverse inside)
    · rename_i rest hd
      split
      · exact .inl (List.reverse_reverse inside)
      · rename_i hc
        refine .inr ⟨rest.reverse, _, ht, hl, .inr ⟨by simpa using hc, ?_, ?_⟩⟩
        · have hi := hr _ hd
          rwa [List.reverse_cons, List.append_assoc, List.singleton_append] at hi
        · rw [List.reverse_append]
    · exact .inl (List.reverse_reverse inside)
    · rename_i token rest _ _ hd
      split
      · rename_i hc
        refine .inr ⟨(token :: rest).reverse, _, ht, hl, .inl ⟨hc, hr _ hd, ?_, ?_⟩⟩
        · have hn := List.head?_dropWhile_not isTrivia inside.reverse
          rw [hd] at hn
          exact ⟨rest.reverse, token, List.reverse_cons, by simpa using hn⟩
        · rw [List.reverse_append, List.reverse_cons, List.append_assoc, List.singleton_append]
      · exact .inl (List.reverse_reverse inside)
  · exact .inl rfl

def trailingCommas (options : Options) (tokens : List Token) : List Token :=
  match tokens with
  | [] => []
  | token :: rest =>
    if token = .opening .square then
      match h : splitAtClose 0 rest with
      | some split =>
        have := length_inside_lt h
        have := length_after_lt h
        token :: (settleComma options (trailingCommas options split.inside) ++
          .closing split.close :: trailingCommas options split.after)
      | none => token :: trailingCommas options rest
    else token :: trailingCommas options rest
termination_by tokens.length

section
variable {options : Options} {rest : List Token}

theorem trailingCommas_of_splitAtClose {split : Split} (h : splitAtClose 0 rest = some split) :
    trailingCommas options (.opening .square :: rest) = .opening .square ::
      (settleComma options (trailingCommas options split.inside) ++
        .closing split.close :: trailingCommas options split.after) := by
  rw [trailingCommas, if_pos rfl]
  split
  · rename_i hs
    rw [h] at hs
    cases hs
    rfl
  · rename_i hn
    rw [h] at hn
    cases hn

theorem trailingCommas_of_none {token : Token}
    (h : token = .opening .square → splitAtClose 0 rest = none) :
    trailingCommas options (token :: rest) = token :: trailingCommas options rest := by
  rw [trailingCommas]
  split
  · rename_i he
    split
    · rename_i hs
      rw [h he] at hs
      cases hs
    · rfl
  · rfl

end

end SourceStyle.Rule
