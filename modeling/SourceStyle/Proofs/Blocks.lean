import SourceStyle.Proofs.Neighbours
import SourceStyle.Proofs.Repetition.Braces

/-!
Brackets of blocks stand where the options want them. Only the layout between a header and the
bracket of its block changes, and a bracket that was moved is not moved again.
-/

namespace SourceStyle.Rule

open Token

/-- Between ends of headers and curly brackets, some of the layout has given way to what the options
put there. -/
inductive Moves (options : Options) : List Token → List Token → Prop
  | nil : Moves options [] []
  | keep (token : Token) {tokens left : List Token} (h : Moves options tokens left) :
      Moves options (token :: tokens) (token :: left)
  | move {header : Token} {gap body left : List Token} (hh : endsBlockHeader header = true)
      (hg : ∀ token ∈ gap, token.isLayout = true) (h : Moves options body left) :
      Moves options (header :: (gap ++ .opening .curly :: body))
        (header :: braceGap options :: .opening .curly :: left)

theorem moves_braces (options : Options) (tokens : List Token) :
    Moves options tokens (braces options tokens) := by
  fun_induction braces options tokens with
  | case1 => exact .nil
  | case2 header rest hh body hm _ ih =>
      obtain ⟨gap, hg, rfl⟩ := eq_append_of_misplacedBody? hm
      exact .move hh hg ih
  | case3 token rest _ _ ih | case4 token rest _ ih => exact .keep token ih

section
variable {options : Options} {tokens : List Token}

/-- In tokens that pass, no bracket is out of place behind a header. -/
theorem misplacedBody?_of_passes {state : HeaderState} (h : (braceWatch options).Passes state tokens)
    {front following : List Token} {header : Token} (ht : tokens = front ++ header :: following)
    (hh : endsBlockHeader header = true) : misplacedBody? options following = none := by
  rw [ht] at h
  obtain ⟨there, -, hp⟩ := h.suffix
  rw [show (braceWatch options).next there header = .header from if_pos hh] at hp
  rw [Option.eq_none_iff_forall_ne_some]
  intro body hm
  exact not_passes_header hm hp

/-- A bracket at the end of its header's line is out of place where brackets get their own line. -/
theorem bodyOnHeaderLine?_append {gap after : List Token}
    (hg : ∀ token ∈ gap, token.isWhitespace = true) (hl : endsLine after = true) :
    bodyOnHeaderLine? (gap ++ .opening .curly :: after) = some after := by
  rw [bodyOnHeaderLine?, skipSpace_append hg rfl]
  exact if_pos hl

/-- A bracket on a later line is out of place where brackets end the header's line. -/
theorem bodyOnLaterLine?_append {gap after : List Token}
    (hg : ∀ token ∈ gap, token.isLayout = true) (hl : gap.any isLinebreak = true) :
    bodyOnLaterLine? (gap ++ .opening .curly :: after) = some after := by
  have hn : isLayout (.opening .curly) = false := rfl
  rw [bodyOnLaterLine?, List.dropWhile_append_of_pos hg, List.dropWhile_cons_of_neg (by simp [hn]),
    List.takeWhile_append_of_pos hg, List.takeWhile_cons_of_neg (by simp [hn]), List.append_nil]
  exact if_pos hl

/-- Where brackets get their own line, none that ends a line of tokens that pass stands behind a
header on that line. -/
theorem not_endsBlockHeader_of_endsLine (ho : options.allmanBraces = true)
    (h : (braceWatch options).Passes .idle tokens) {before after : List Token}
    (ht : tokens = before ++ .opening .curly :: after) (hl : endsLine after = true)
    {previous : Token} (hp : lastBut? isWhitespace before = some previous) :
    endsBlockHeader previous = false := by
  obtain ⟨front, gap, rfl, -, hg⟩ := lastBut?_eq_some_iff.1 hp
  rw [List.append_assoc, List.cons_append] at ht
  by_contra hh
  have hn := misplacedBody?_of_passes h ht (eq_true_of_ne_false hh)
  rw [misplacedBody?, if_pos ho, bodyOnHeaderLine?_append hg hl] at hn
  cases hn

/-- Where brackets end the line of the header, none that begins a line of tokens that pass stands
behind a header. -/
theorem not_endsBlockHeader_of_linebreak (ho : options.allmanBraces = false)
    (h : (braceWatch options).Passes .idle tokens) {before after : List Token}
    (ht : tokens = before ++ .opening .curly :: after) {ending : Linebreak}
    (hl : lastBut? isWhitespace before = some (.linebreak ending))
    {previous : Token} (hp : lastBut? isLayout before = some previous) :
    endsBlockHeader previous = false := by
  obtain ⟨front, gap, rfl, hprevious, hg⟩ := lastBut?_eq_some_iff.1 hp
  rw [List.append_assoc, List.cons_append] at ht
  by_contra hh
  have hn := misplacedBody?_of_passes h ht (eq_true_of_ne_false hh)
  have hgap : gap.any isLinebreak = true := by
    by_contra ha
    have hspace : ∀ token ∈ gap, token.isWhitespace = true := by
      intro token hm
      have hlayout := hg token hm
      have hline : token.isLinebreak = false := by
        simpa using fun hb => ha (List.any_eq_true.2 ⟨token, hm, hb⟩)
      rwa [isLayout, hline, Bool.or_false] at hlayout
    have hw : previous.isWhitespace = false := (Bool.or_eq_false_iff.1 hprevious).1
    rw [lastBut?_append hw hspace, Option.some.injEq] at hl
    rw [hl] at hprevious
    cases hprevious
  rw [misplacedBody?, if_neg (Bool.eq_false_iff.1 ho), bodyOnLaterLine?_append hg hgap] at hn
  cases hn

/-- The brackets of blocks are where the options want them, and stay there. Nothing changes but
layout between ends of headers and curly brackets. If brackets get their own lines, none at the end
of a line has the end of a header in front of it on that line. If not, none at the beginning of a
line has the end of a header as the last code in front of it. -/
theorem braces_in_place (options : Options) (tokens : List Token) :
    Moves options tokens (braces options tokens) ∧
    (options.allmanBraces = true → ∀ before after,
      braces options tokens = before ++ .opening .curly :: after → endsLine after = true →
      ∀ previous, lastBut? isWhitespace before = some previous →
        endsBlockHeader previous = false) ∧
    (options.allmanBraces = false → ∀ before after,
      braces options tokens = before ++ .opening .curly :: after →
      ∀ ending, lastBut? isWhitespace before = some (.linebreak ending) →
      ∀ previous, lastBut? isLayout before = some previous →
        endsBlockHeader previous = false) ∧
    braces options (braces options tokens) = braces options tokens := by
  have hp : (braceWatch options).Passes .idle (braces options tokens) :=
    braceWatch_passes_braces options tokens
  refine ⟨moves_braces options tokens, ?_, ?_, braces_eq_self hp⟩
  · intro ho before after ht hl previous hb
    exact not_endsBlockHeader_of_endsLine ho hp ht hl hb
  · intro ho before after ht ending hl previous hb
    exact not_endsBlockHeader_of_linebreak ho hp ht hl hb

example : braces { allmanBraces := true }
    [.identifier "f", .opening .curly, .identifier "g", .whitespace " ", .opening .curly,
      .lineComment "// a"] =
    [.identifier "f", .opening .curly, .identifier "g", .linebreak .lf, .opening .curly,
      .lineComment "// a"] := by
  cbv

end

end SourceStyle.Rule
