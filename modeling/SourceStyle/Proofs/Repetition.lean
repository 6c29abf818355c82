import SourceStyle.Proofs.Repetition.BlankLines
import SourceStyle.Proofs.Repetition.Braces
import SourceStyle.Proofs.Repetition.DeclarationSpacing
import SourceStyle.Proofs.Repetition.Marks
import SourceStyle.Proofs.Repetition.Ranges
import SourceStyle.Proofs.Repetition.Scopes
import SourceStyle.Proofs.Repetition.Spelling
import SourceStyle.Proofs.Repetition.VoidTypes

/-!
Formatting formatted text again. Most rules find nothing to change in what the rules left. The text
stays as it is exactly if headers, semicolons, last commas and lines are settled too.
-/

namespace SourceStyle

open Token

namespace Rule
variable {options : Options} {tokens : List Token}

/-- The rules that lay out lines, in their order. -/
def layOut (options : Options) (tokens : List Token) : List Token :=
  trailingWhitespace options (indentation options
    (if options.experimental then consecutiveBlankLines options tokens else tokens))

theorem run_all_eq (options : Options) (tokens : List Token) :
    run all options tokens =
      layOut options (blankLinesBetweenScopes options (blankLinesAtScopeEdges options
        (braces options (trailingCommas options (hexLiterals options (voidTypes options
          (ranges options (semicolons options (header options (linebreaks options tokens)))))))))) := by
  unfold layOut
  cases ho : options.experimental <;> simp [run, all, isEnabled, ho]

/-- A watch that minds neither space at the edges of lines nor blank lines behind the first minds no
layout of lines. -/
theorem passes_layOut {State : Type} {watch : Watch State} {state : State}
    (hb : watch.SteadyBehindBlank) (hl : watch.Lined options) (hi : watch.Ignores isWhitespace state)
    (h : watch.Passes state tokens) : watch.Passes state (layOut options tokens) := by
  refine hl.passes_trimLines (hl.passes_indentFrom hi ?_)
  split
  · exact hb.passes_consecutiveBlankLines hl h
  · exact h

/-- Rules that leave the tokens as they are. -/
structure Stable (options : Options) (tokens : List Token) : Prop where
  linebreaks : linebreaks options tokens = tokens
  ranges : ranges options tokens = tokens
  voidTypes : voidTypes options tokens = tokens
  recased : ∀ token ∈ tokens, recaseHex options token = token
  braces : braces options tokens = tokens
  edges : blankLinesAtScopeEdges options tokens = tokens
  between : blankLinesBetweenScopes options tokens = tokens
  blanks : options.experimental = true → consecutiveBlankLines options tokens = tokens

theorem Kept.forall_mem_layOut {P : Token → Prop} (hk : Kept options P)
    (h : ∀ token ∈ tokens, P token) : ∀ token ∈ layOut options tokens, P token := by
  refine hk.forall_mem_trimLines true (hk.forall_mem_indentFrom {} ?_)
  split
  · exact forall_mem_consecutiveBlankLines options h
  · exact h

theorem respelled_applyAll (options : Options) {rules : List Rule}
    (hr : ∀ rule ∈ rules, rule ∈ all) (tokens : List Token) :
    ∀ token ∈ applyAll rules options (linebreaks options tokens),
      respellToken options.linebreak token = token := by
  refine (kept_respelled options).forall_mem_applyAll hr ?_
  rw [linebreaks, List.forall_mem_map]
  intro token _
  cases token <;> simp [respellToken, Linebreak.respell_respell]

theorem respelled_run (options : Options) (tokens : List Token) :
    ∀ token ∈ run all options tokens, respellToken options.linebreak token = token := by
  obtain ⟨rules, hr, he⟩ := run_all options tokens
  rw [he]
  exact respelled_applyAll options hr tokens

theorem recased_run (options : Options) (tokens : List Token) :
    ∀ token ∈ run all options tokens, recaseHex options token = token := by
  have hk := kept_recased options
  rw [run_all_eq]
  refine hk.forall_mem_layOut (hk.forall_mem_blankLinesBetweenScopes
    (forall_mem_blankLinesAtScopeEdges options (hk.forall_mem_braces
      (hk.forall_mem_trailingCommas ?_))))
  rw [hexLiterals, List.forall_mem_map]
  exact fun token _ => recaseHex_recaseHex options token

theorem rangeWatch_passes_run (options : Options) (tokens : List Token) :
    (rangeWatch options).Passes .idle (run all options tokens) := by
  have hs : (rangeWatch options).Steady := rangeWatch_steady
  have hc : (rangeWatch options).Settles options := rangeWatch_resets.settles
  have hi : (rangeWatch options).Ignores isWhitespace .idle := (hs .idle .lf).whitespace
  rw [run_all_eq]
  refine passes_layOut hs.behindBlank rangeWatch_lined hi ?_
  refine hs.passes_blankLinesBetweenScopes (hs.passes_blankLinesAtScopeEdges
    (rangeWatch_wraps.passes_braces (hc.passes_trailingCommas ?_)))
  exact rangeWatch_recaseHex.passes_map (rangeWatch_passes_voidTypes
    (rangeWatch_passes_ranges options _))

theorem voidWatch_passes_run (options : Options) (tokens : List Token) :
    (voidWatch options).Passes .idle (run all options tokens) := by
  have hd : (voidWatch options).Deaf := voidWatch_deaf
  have hs : (voidWatch options).Steady := voidWatch_steady
  have hc : (voidWatch options).Settles options := voidWatch_resets.settles
  rw [run_all_eq]
  refine passes_layOut hs.behindBlank (hd.lined options) (hd.ignores _) ?_
  refine hs.passes_blankLinesBetweenScopes (hs.passes_blankLinesAtScopeEdges
    (voidWatch_wraps.passes_braces (hc.passes_trailingCommas ?_)))
  exact voidWatch_recaseHex.passes_map (voidWatch_passes_voidTypes options _)

theorem braceWatch_passes_run (options : Options) (tokens : List Token) :
    (braceWatch options).Passes .idle (run all options tokens) := by
  have hd : (braceWatch options).Deaf := braceWatch_deaf
  have hs : (braceWatch options).Steady := braceWatch_steady
  rw [run_all_eq]
  refine passes_layOut hs.behindBlank (hd.lined options) (hd.ignores _) ?_
  exact hs.passes_blankLinesBetweenScopes (hs.passes_blankLinesAtScopeEdges
    (braceWatch_passes_braces options _))

theorem edgeWatch_passes_run (ho : options.removeBlankLines = true) (tokens : List Token) :
    edgeWatch.Passes .code (run all options tokens) := by
  rw [run_all_eq, blankLinesAtScopeEdges, if_pos ho]
  refine passes_layOut edgeWatch_steadyBehindBlank (edgeWatch_deaf.lined options)
    (edgeWatch_deaf.ignores _) ?_
  exact edgeWatch_passes_blankLinesBetweenScopes options
    (edgeWatch_passes_trimScopeEdges_of_fits trivial)

theorem endWatch_passes_run (ho : options.insertBlankLines = true) (tokens : List Token) :
    endWatch.Passes ⟨[], {}, .idle⟩ (run all options tokens) := by
  rw [run_all_eq, blankLinesBetweenScopes, if_pos ho]
  exact passes_layOut endWatch_steadyBehindBlank (endWatch_deaf.lined options)
    (endWatch_deaf.ignores _) (endWatch_passes_spaceDeclarations options _)

theorem blankWatch_passes_run (ho : options.experimental = true) (tokens : List Token) :
    blankWatch.Passes 0 (run all options tokens) := by
  have hd : blankWatch.Deaf := blankWatch_deaf
  have hl := hd.lined options
  rw [run_all_eq, layOut, if_pos ho]
  exact hl.passes_trimLines (hl.passes_indentFrom (hd.ignores _)
    (blankWatch_passes_consecutiveBlankLines options _))

/-- Most rules leave what the rules have left. -/
theorem stable_run (options : Options) (tokens : List Token) :
    Stable options (mergeSpaces (run all options tokens)) where
  linebreaks := linebreaks_eq_self
    (forall_mem_mergeSpaces (fun _ => rfl) (respelled_run options tokens))
  ranges := ranges_eq_self (rangeWatch_merges.passes_mergeSpaces (rangeWatch_passes_run options tokens))
    (merged_mergeSpaces _)
  voidTypes := voidTypes_eq_self
    (voidWatch_deaf.merges.passes_mergeSpaces (voidWatch_passes_run options tokens))
  recased := forall_mem_mergeSpaces (fun _ => rfl) (recased_run options tokens)
  braces := braces_eq_self
    (braceWatch_deaf.merges.passes_mergeSpaces (braceWatch_passes_run options tokens))
  edges := by
    unfold blankLinesAtScopeEdges
    split
    · exact trimScopeEdges_eq_self
        (edgeWatch_deaf.merges.passes_mergeSpaces (edgeWatch_passes_run ‹_› tokens))
    · rfl
  between := by
    unfold blankLinesBetweenScopes
    split
    · exact spaceDeclarations_eq_self
        (endWatch_deaf.merges.passes_mergeSpaces (endWatch_passes_run ‹_› tokens))
    · rfl
  blanks ho := consecutiveBlankLines_eq_self options
    (blankWatch_deaf.merges.passes_mergeSpaces (blankWatch_passes_run ho tokens))

/-- The rules that are not sure to leave what the rules have left do so. -/
structure Settled (options : Options) (tokens : List Token) : Prop where
  header : header options tokens = tokens
  semicolons : semicolons options tokens = tokens
  trailingCommas : trailingCommas options tokens = tokens
  lines : render (trailingWhitespace options (indentation options tokens)) = render tokens

theorem Stable.run_eq (h : Stable options tokens) (hh : header options tokens = tokens)
    (hs : semicolons options tokens = tokens) (hc : trailingCommas options tokens = tokens) :
    run all options tokens = trailingWhitespace options (indentation options tokens) := by
  rw [run_all_eq, h.linebreaks, hh, hs, h.ranges, h.voidTypes, hexLiterals_eq_self h.recased, hc,
    h.braces, h.edges, h.between, layOut]
  split
  · rw [h.blanks ‹_›]
  · rfl

theorem tally_layOut (mark : Char) (tokens : List Token) :
    tally mark (layOut options tokens) = tally mark tokens := by
  unfold tally layOut
  rw [Essence.content_trailingWhitespace, Essence.content_indentation]
  split
  · rw [Essence.content_consecutiveBlankLines]
  · rfl

/-- Only what headers, semicolons and commas become can be told from the marks of stable tokens. -/
theorem Stable.tally_run (h : Stable options tokens) (mark : Char) :
    tally mark (run all options tokens) =
      tally mark (Rule.trailingCommas options (Rule.voidTypes options (Rule.ranges options
        (Rule.semicolons options (Rule.header options tokens))))) := by
  have hk := kept_recased options
  have hr : ∀ token ∈ Rule.voidTypes options (Rule.ranges options
      (Rule.semicolons options (Rule.header options tokens))), recaseHex options token = token :=
    hk.forall_mem_voidTypes (hk.forall_mem_ranges (hk.forall_mem_semicolonsFrom 0
      (forall_mem_header options h.recased)))
  rw [run_all_eq, h.linebreaks, hexLiterals_eq_self hr, tally_layOut]
  unfold tally
  rw [Essence.content_blankLinesBetweenScopes, Essence.content_blankLinesAtScopeEdges,
    Essence.content_braces]

/-- If the text stays as it is, so do the tokens at every rule that is not sure to leave them. -/
theorem Stable.settled_iff (h : Stable options tokens)
    (hb : ∀ token ∈ tokens, Lexer.Begins token token.chars)
    (hr : ∀ token ∈ run all options tokens, Lexer.Begins token token.chars) :
    render (run all options tokens) = render tokens ↔ Settled options tokens := by
  constructor
  · intro he
    have hc : renderChars (run all options tokens) = renderChars tokens := String.ofList_injective he
    have ht : ∀ {mark : Char}, IsMark mark →
        tally mark (Rule.trailingCommas options (Rule.voidTypes options (Rule.ranges options
          (Rule.semicolons options (Rule.header options tokens))))) = tally mark tokens := by
      intro mark hm
      rw [← h.tally_run, ← count_renderChars hm hr, hc, count_renderChars hm hb]
    -- each rule is found idle by the mark that it alone settles, in the order in which they run
    have hh : Rule.header options tokens = tokens := by
      refine (shifts_header hb).eq_of_tally ?_
      have hs := ht (.inl rfl)
      rwa [tally_trailingCommas (by decide), tally_voidTypes (.inl rfl), tally,
        Essence.content_ranges, ← tally, tally_semicolons (by decide)] at hs
    have hs : Rule.semicolons options tokens = tokens := by
      refine (shifts_semicolonsFrom 0).eq_of_tally ?_
      have hs := ht (.inr (.inl rfl))
      rwa [tally_trailingCommas (by decide), tally_voidTypes (.inr (.inl rfl)), tally,
        Essence.content_ranges, ← tally, hh] at hs
    have hc : Rule.trailingCommas options tokens = tokens := by
      refine shifts_trailingCommas.eq_of_tally ?_
      have hs' := ht (.inr (.inr rfl))
      rwa [hh, hs, h.ranges, h.voidTypes] at hs'
    exact ⟨hh, hs, hc, by rw [← h.run_eq hh hs hc, he]⟩
  · intro hs
    rw [h.run_eq hs.header hs.semicolons hs.trailingCommas, hs.lines]

end Rule

/-- Formatting formatted source again changes nothing exactly if headers, semicolons, last commas
and lines are settled in the tokens that its text reads as, which every other rule leaves as they
are. -/
theorem format_format_eq_iff {options : Options} {source out : String}
    (h : format Rule.all options source = .ok out) :
    ∃ tokens, readTokens options source = .ok tokens ∧
      (Separated (Rule.run Rule.all options tokens) →
        ∃ again, readTokens options out = .ok again ∧ Rule.Stable options again ∧
          (format Rule.all options out = .ok out ↔ Rule.Settled options again)) := by
  unfold format at h
  cases hr : readTokens options source with
  | error fault =>
      rw [hr] at h
      cases h
  | ok tokens =>
      rw [hr] at h
      have ho : out = render (Rule.run Rule.all options tokens) := (Except.ok.inj h).symm
      have hc : out.toList = renderChars (Rule.run Rule.all options tokens) := by
        rw [ho, render, String.toList_ofList]
      obtain ⟨ht, hs⟩ := readTokens_eq_ok hr
      have hp := presentable_run options (presentable_of_tokenize ht)
      refine ⟨tokens, rfl, fun hsep => ?_⟩
      have hl := hp.lexes (uniform_run options tokens) hsep
      rw [← hc] at hl
      have ha := tokenize_eq_ok_iff.2 hl
      have hq := presentable_of_tokenize ha
      have hread : readTokens options out =
          .ok (mergeSpaces (Rule.run Rule.all options tokens)) := by
        rw [readTokens, ha]
        simp only [Scope.check_mergeSpaces_run hs]
      refine ⟨_, hread, Rule.stable_run options tokens, ?_⟩
      rw [← (Rule.stable_run options tokens).settled_iff hq.begins
        (presentable_run options hq).begins]
      have hm : out = render (mergeSpaces (Rule.run Rule.all options tokens)) :=
        (tokenize_lossless ha).1.symm
      rw [format, hread, Except.map, Except.ok.injEq, ← hm]

/-- An array literal that is to be laid out. -/
def literalTokens : List Token :=
  [.identifier "f", .whitespace " ", .opening .square, .linebreak .lf, .number "0xa", .linebreak .lf,
    .closing .square, .whitespace " ", .separator .semicolon, .whitespace " ", .identifier "x",
    .linebreak .lf]

/-- The literal as the rules lay it out. -/
def settledTokens : List Token :=
  [.identifier "f", .whitespace " ", .opening .square, .linebreak .lf, .whitespace "    ",
    .number "0xA", .separator .comma, .linebreak .lf, .closing .square, .whitespace " ",
    .separator .semicolon, .whitespace " ", .identifier "x", .linebreak .lf]

set_option maxRecDepth 10000 in
theorem format_format_eq_iff_literal :
    readTokens {} "f [\n0xa\n] ; x\n" = .ok literalTokens ∧
      Separated (Rule.run Rule.all {} literalTokens) ∧
      ∃ again, readTokens {} "f [\n    0xA,\n] ; x\n" = .ok again ∧ Rule.Stable {} again ∧
        format Rule.all {} "f [\n    0xA,\n] ; x\n" = .ok "f [\n    0xA,\n] ; x\n" ∧
        Rule.Settled {} again := by
  have hf : format Rule.all {} "f [\n0xa\n] ; x\n" = .ok "f [\n    0xA,\n] ; x\n" := by cbv
  have hg : format Rule.all {} "f [\n    0xA,\n] ; x\n" = .ok "f [\n    0xA,\n] ; x\n" := by cbv
  have hr : readTokens {} "f [\n0xa\n] ; x\n" = .ok literalTokens := by cbv
  have hm : Rule.run Rule.all {} literalTokens = settledTokens := by cbv
  have ht : tokenize (render settledTokens) = .ok settledTokens := by cbv
  have hs : Separated (Rule.run Rule.all {} literalTokens) := by
    have hp := presentable_run {} (presentable_of_tokenize (readTokens_eq_ok hr).1)
    have hl := tokenize_eq_ok_iff.1 ht
    rw [render, String.toList_ofList] at hl
    rw [hm] at hp ⊢
    exact hp.separated hl rfl
  obtain ⟨tokens, hk, ha⟩ := format_format_eq_iff hf
  cases hk.symm.trans hr
  obtain ⟨again, hb, hst, hi⟩ := ha hs
  exact ⟨hr, hs, again, hb, hst, hg, hi.1 hg⟩

set_option maxRecDepth 10000 in
/-- Of two semicolons at the end of a line, the first stays until the next time. -/
theorem format_unsettled_semicolons :
    ¬∀ options source out, format Rule.all options source = .ok out →
      format Rule.all options out = .ok out := by
  intro h
  have hf : format Rule.all {} "a;;\n" = .ok "a;\n" := by cbv
  have hs : format Rule.all {} "a;\n" = .ok "a\n" := by cbv
  have he := h {} "a;;\n" "a;\n" hf
  rw [hs, Except.ok.injEq] at he
  exact absurd he (by decide)

end SourceStyle
