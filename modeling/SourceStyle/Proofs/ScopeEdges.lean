import SourceStyle.Proofs.Repetition
import SourceStyle.Proofs.Terminators

/-!
No blank lines at the edges of blocks. The rule takes out blank lines and nothing else, and what the
later rules put in does not bring one back.
-/

namespace SourceStyle

open Token Rule

/-- From tokens some blank lines are gone: space and a terminator at a time, right behind a
terminator that stays. -/
inductive Thins : List Token → List Token → Prop
  | nil : Thins [] []
  | keep (token : Token) {tokens left : List Token} (h : Thins tokens left) :
      Thins (token :: tokens) (token :: left)
  | drop (ending blank : Linebreak) {space tokens left : List Token}
      (hs : ∀ token ∈ space, token.isWhitespace = true)
      (h : Thins (.linebreak ending :: tokens) (.linebreak ending :: left)) :
      Thins (.linebreak ending :: (space ++ .linebreak blank :: tokens)) (.linebreak ending :: left)

namespace Thins

theorem refl (tokens : List Token) : Thins tokens tokens := by
  induction tokens with
  | nil => exact .nil
  | cons token tokens ih => exact .keep token ih

theorem keepAll {tokens left : List Token} (h : Thins tokens left) (first : List Token) :
    Thins (first ++ tokens) (first ++ left) := by
  induction first with
  | nil => exact h
  | cons token first ih => exact .keep token ih

theorem of_dropBlankLines {ending : Linebreak} {tokens left : List Token}
    (h : Thins (.linebreak ending :: dropBlankLines tokens) (.linebreak ending :: left)) :
    Thins (.linebreak ending :: tokens) (.linebreak ending :: left) := by
  fun_induction dropBlankLines tokens with
  | case1 tokens blank rest hs _ ih =>
      rw [eq_append_of_skipSpace_eq hs]
      exact .drop ending blank (List.all_eq_true.1 List.all_takeWhile) (ih h)
  | case2 => exact h

end Thins

theorem thins_trimScopeEdges (tokens : List Token) : Thins tokens (trimScopeEdges tokens) := by
  fun_induction trimScopeEdges tokens with
  | case1 => exact .nil
  | case2 rest ending following hs _ _ ih =>
      have ht : Thins rest (rest.takeWhile isWhitespace ++
          .linebreak ending :: trimScopeEdges (dropBlankLines following)) := by
        conv => lhs; rw [eq_append_of_skipSpace_eq hs]
        exact Thins.keepAll (.of_dropBlankLines (.keep _ ih)) _
      exact .keep _ ht
  | case3 rest _ ih | case5 _ rest _ _ ih | case6 _ rest _ _ ih => exact .keep _ ih
  | case4 ending rest _ _ ih => exact .of_dropBlankLines (.keep _ ih)

theorem thins_blankLinesAtScopeEdges (options : Options) (tokens : List Token) :
    Thins tokens (blankLinesAtScopeEdges options tokens) := by
  unfold blankLinesAtScopeEdges
  split
  · exact thins_trimScopeEdges tokens
  · exact .refl tokens

/-- No blank line stands behind an opening or in front of a closing curly bracket, space aside. -/
def CleanEdges (tokens : List Token) : Prop :=
  ∀ first second,
    ¬[.opening .curly, .linebreak first, .linebreak second] <:+: visible tokens ∧
      ¬[.linebreak first, .linebreak second, .closing .curly] <:+: visible tokens

theorem cleanEdges_of_passes {state : EdgeState} {tokens : List Token}
    (h : edgeWatch.Passes state tokens) : CleanEdges tokens := by
  rw [← edgeWatch_deaf.passes_visible] at h
  intro first second
  constructor
  · rintro ⟨before, after, he⟩
    rw [← he, List.append_assoc] at h
    obtain ⟨there, -, hp⟩ := h.suffix
    rw [edgeWatch_next_opening] at hp
    exact hp.2.1
  · rintro ⟨before, after, he⟩
    rw [← he, List.append_assoc] at h
    obtain ⟨there, -, -, hp⟩ := h.suffix
    rw [edgeWatch_next_linebreaks] at hp
    exact hp.1 rfl

/-- The rules leave no blank line at the edges of blocks, where such lines are to be removed. The
rule that removes them keeps all else, and of every run of terminators one. -/
theorem format_cleanEdges {options : Options} {source out : String}
    (ho : options.removeBlankLines = true) (h : format Rule.all options source = .ok out) :
    (∃ tokens, readTokens options source = .ok tokens ∧
      out = render (run all options tokens) ∧ CleanEdges (run all options tokens)) ∧
    ∀ options tokens, Thins tokens (blankLinesAtScopeEdges options tokens) := by
  obtain ⟨tokens, hr, he⟩ := format_eq_ok.1 h
  refine ⟨⟨tokens, hr, he, ?_⟩, thins_blankLinesAtScopeEdges⟩
  exact cleanEdges_of_passes (edgeWatch_passes_run ho tokens)

set_option maxRecDepth 10000 in
theorem format_cleanEdges_class :
    (∃ tokens, readTokens {} "class A \x7b\n\n\x7d\nb" = .ok tokens ∧
      "class A \x7b\n\x7d\n\nb" = render (run all {} tokens) ∧ CleanEdges (run all {} tokens)) ∧
    ∀ options tokens, Thins tokens (blankLinesAtScopeEdges options tokens) :=
  format_cleanEdges rfl (by cbv)

end SourceStyle
