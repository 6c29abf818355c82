import SourceStyle.Options
import SourceStyle.Token

/-!
Stripping the comments at the top of a file that a blank line separates from its first code.
-/

namespace SourceStyle.Rule

/-- What follows the last blank line before the first code, if a comment stands above that line.
`blank` says that the line so far is blank, `commented` that a comment was passed. -/
def afterHeader? (blank commented : Bool) : List Token → Option (List Token)
  | .whitespace _ :: rest => afterHeader? blank commented rest
  | .linebreak _ :: rest =>
    (afterHeader? true commented rest).or (if blank && commented then some rest else none)
  | .lineComment _ :: rest | .blockComment _ :: rest => afterHeader? false true rest
  | _ => none

/-- What stands above the code that a header leaves is layout and comments. -/
theorem eq_append_of_afterHeader? {blank commented : Bool} {tokens rest : List Token}
    (h : afterHeader? blank commented tokens = some rest) :
    ∃ lead, (∀ token ∈ lead, token.isTrivia = true) ∧ tokens = lead ++ rest := by
  have hc : ∀ {token : Token} {following : List Token}, token.isTrivia = true →
      (∃ lead, (∀ token ∈ lead, token.isTrivia = true) ∧ following = lead ++ rest) →
      ∃ lead, (∀ token ∈ lead, token.isTrivia = true) ∧ token :: following = lead ++ rest := by
    rintro token following ht ⟨lead, hl, rfl⟩
    exact ⟨token :: lead, List.forall_mem_cons.2 ⟨ht, hl⟩, rfl⟩
  fun_induction afterHeader? blank commented tokens with
  | case1 blank commented text following ih => exact hc rfl (ih h)
  | case2 blank commented ending following ih =>
      rcases Option.or_eq_some_iff.1 h with h | ⟨-, h⟩
      · exact hc rfl (ih h)
      · split at h
        · cases h
          exact ⟨[.linebreak ending], by simp [Token.isTrivia, Token.isLayout, Token.isLinebreak],
            rfl⟩
        · cases h
  | case3 blank commented text following ih => exact hc rfl (ih h)
  | case4 blank commented text following ih => exact hc rfl (ih h)
  | case5 => cases h

/-- Removes the header of a file, if headers are to be stripped and it has one. -/
def header (options : Options) (tokens : List Token) : List Token :=
  if options.stripHeader then (afterHeader? true false tokens).getD tokens else tokens

/-- Only layout and comments are removed, and nothing where headers are to be kept. -/
theorem exists_append_header (options : Options) (tokens : List Token) :
    ∃ lead, (∀ token ∈ lead, token.isTrivia = true) ∧ tokens = lead ++ header options tokens ∧
      (options.stripHeader = false → lead = []) := by
  unfold header
  split
  · rename_i hs
    cases ha : afterHeader? true false tokens with
    | none => exact ⟨[], nofun, rfl, fun _ => rfl⟩
    | some rest =>
        obtain ⟨lead, hl, he⟩ := eq_append_of_afterHeader? ha
        exact ⟨lead, hl, he, fun hn => absurd (hs.symm.trans hn) nofun⟩
  · exact ⟨[], nofun, rfl, fun _ => rfl⟩

end SourceStyle.Rule
