import Mathlib
import SourceStyle.Proofs.Respelling.Text
import SourceStyle.Proofs.Terminators

/-!
The choice of a line terminator. Texts that are formatted with different terminators differ in
their terminators alone, with one exception: where carriage returns end lines, indentation does not
see the lines of block comments.
-/

namespace SourceStyle

namespace Token

def plainChars (token : Token) : List Char :=
  Linebreak.lf.respell token.chars

theorem plainChars_respellToken (ending : Linebreak) (token : Token) :
    plainChars (Rule.respellToken ending token) = plainChars token := by
  cases token with
  | linebreak other =>
      rw [plainChars, plainChars, Rule.respellToken, chars_linebreak, chars_linebreak]
      cases ending <;> cases other <;> rfl
  | blockComment text =>
      simp only [plainChars, Rule.respellToken, chars, Token.text, String.toList_ofList,
        Linebreak.respell_respell]
  | _ => rfl

end Token

namespace Rule

open Token

def beforeIndent : List Rule :=
  all.takeWhile (·.name != "indent")

theorem of_mem_beforeIndent {rule : Rule} (h : rule ∈ beforeIndent) :
    rule ∈ all ∧ rule.name ≠ "indent" :=
  ⟨(List.takeWhile_sublist _).subset h, by simpa using List.mem_takeWhile_imp h⟩

theorem all_eq_append : all = beforeIndent ++
    [{ name := "indent", apply := indentation },
      { name := "trailingWhitespace", apply := trailingWhitespace }] := rfl

theorem run_append (first second : List Rule) (options : Options) (tokens : List Token) :
    run (first ++ second) options tokens = run second options (run first options tokens) := by
  rw [run, List.filter_append, List.foldl_append, run, run]

theorem run_all_eq_trimmed (options : Options) (tokens : List Token) :
    run all options tokens =
      trailingWhitespace options (indentation options (run beforeIndent options tokens)) := by
  rw [all_eq_append, run_append]
  rfl

theorem applyAll_map {rules : List Rule}
    (hr : ∀ rule ∈ rules, rule ∈ all ∧ rule.name ≠ "indent") (options : Options)
    (ending : Linebreak) (tokens : List Token) :
    applyAll rules { options with linebreak := ending } (tokens.map (respellToken ending)) =
      (applyAll rules options tokens).map (respellToken ending) := by
  induction rules generalizing tokens with
  | nil => rfl
  | cons rule rules ih =>
      obtain ⟨⟨hm, hi⟩, hr⟩ := List.forall_mem_cons.1 hr
      have ha := ih hr (rule.apply options tokens)
      rw [← apply_map hm hi] at ha
      exact ha

/-- The first rule spells terminators anew, and those after it go with respelling. -/
theorem run_beforeIndent (options : Options) :
    ∃ rules, (∀ rule ∈ rules, rule ∈ all ∧ rule.name ≠ "indent") ∧
      ∀ ending tokens, run beforeIndent { options with linebreak := ending } tokens =
        applyAll rules { options with linebreak := ending }
          (linebreaks { options with linebreak := ending } tokens) := by
  refine ⟨(beforeIndent.filter (·.isEnabled options)).tail, ?_, ?_⟩
  · intro rule hm
    exact of_mem_beforeIndent (List.mem_filter.1 (List.mem_of_mem_tail hm)).1
  · intro ending tokens
    rfl

/-- Before lines are indented, the choice of terminator is a matter of spelling. -/
theorem run_beforeIndent_map (options : Options) (ending : Linebreak) (tokens : List Token) :
    run beforeIndent { options with linebreak := ending } tokens =
      (run beforeIndent options tokens).map (respellToken ending) := by
  obtain ⟨rules, hr, he⟩ := run_beforeIndent options
  have ho := he options.linebreak tokens
  have ht : linebreaks { options with linebreak := ending } tokens =
      (linebreaks options tokens).map (respellToken ending) := by
    simp only [linebreaks, List.map_map]
    exact List.map_congr_left fun token _ => (respellToken_respellToken _ _ token).symm
  rw [he, ht, applyAll_map hr]
  exact congrArg _ ho.symm

theorem respelled_run_beforeIndent (options : Options) (tokens : List Token) :
    ∀ token ∈ run beforeIndent options tokens, respellToken options.linebreak token = token := by
  obtain ⟨rules, hr, he⟩ := run_beforeIndent options
  rw [he options.linebreak tokens]
  exact respelled_applyAll options (fun rule hm => (hr rule hm).1) tokens

section
variable {options : Options}

/-- A text with other terminators than carriage returns has the tokens of one with line feeds. -/
theorem run_all_map (ho : options.linebreak = .lf) {ending : Linebreak} (he : ending ≠ .cr)
    (tokens : List Token) :
    run all { options with linebreak := ending } tokens =
      (run all options tokens).map (respellToken ending) := by
  have hr := respelled_run_beforeIndent options tokens
  rw [ho] at hr
  rw [run_all_eq_trimmed, run_beforeIndent_map, indentation_map he options hr, trailingWhitespace,
    trimLines_map, run_all_eq_trimmed options, trailingWhitespace]

theorem flatMap_plainChars_map (ending : Linebreak) (tokens : List Token) :
    (tokens.map (respellToken ending)).flatMap plainChars = tokens.flatMap plainChars := by
  rw [List.flatMap_map]
  exact List.flatMap_congr fun token _ => plainChars_respellToken ending token

/-- Twins have the same text exactly if they have the same comments. -/
theorem flatMap_plainChars_iff {first second : List Token}
    (h : List.Forall₂ (Twin options) first second) :
    first.flatMap plainChars = second.flatMap plainChars ↔
      blockComments first = (blockComments second).map (respellToken .lf) := by
  induction h with
  | nil => exact iff_of_true rfl rfl
  | @cons token other first second ht hr ih =>
      rw [List.flatMap_cons, List.flatMap_cons]
      cases ht with
      | same _ hs =>
          rw [plainChars_respellToken, List.append_cancel_left_eq, ih, ← blockComments_map,
            ← blockComments_map, List.map_cons, respellToken_respellToken, hs]
          constructor
          · exact blockComments_cons_congr token
          · intro h
            cases token with
            | blockComment text => exact (List.cons.inj h).2
            | _ => exact h
      | @indented level text hc =>
          have hi : ∀ c ∈ levels options level, Lexer.isSpace c = true := isSpace_of_mem_levels
          have hp : plainChars (.blockComment (String.ofList
              (reindentComment (levels options level) text.toList))) =
                reindentComment (levels options level) text.toList := by
            rw [plainChars, chars, Token.text, String.toList_ofList, respell_reindentComment hi hc]
          have hq : plainChars (.blockComment (String.ofList (Linebreak.cr.respell text.toList))) =
              text.toList := by
            rw [plainChars, chars, Token.text, String.toList_ofList, Linebreak.respell_respell, hc]
          rw [hp, hq, blockComments_cons, blockComments_cons, List.map_cons, respellToken,
            String.toList_ofList, Linebreak.respell_respell, hc]
          constructor
          · intro h
            obtain ⟨he, hf⟩ := reindentComment_append_inj hi h
            rw [he, ih.1 hf]
          · intro h
            obtain ⟨he, hf⟩ := List.cons.inj h
            rw [String.ofList_injective (Token.blockComment.inj he), ih.2 hf]

/-- A text with carriage returns for terminators reads like one with line feeds exactly if
indentation leaves the block comments of the latter as they are. -/
theorem flatMap_plainChars_cr (ho : options.linebreak = .lf) (tokens : List Token) :
    (run all { options with linebreak := .cr } tokens).flatMap plainChars =
        (run all options tokens).flatMap plainChars ↔
      blockComments (indentation options (run beforeIndent options tokens)) =
        blockComments (run beforeIndent options tokens) := by
  have hr := respelled_run_beforeIndent options tokens
  rw [ho] at hr
  have hb (token : Token) (hm : token ∈ run beforeIndent options tokens) :
      respellToken .lf (respellToken .cr token) = token := by
    rw [respellToken_respellToken, hr token hm]
  have hc : (blockComments (indentation { options with linebreak := .cr }
      (run beforeIndent { options with linebreak := .cr } tokens))).map (respellToken .lf) =
        blockComments (run beforeIndent options tokens) := by
    rw [run_beforeIndent_map, indentation, blockComments_indentFrom, ← blockComments_map,
      List.map_map]
    · exact congrArg blockComments ((List.map_congr_left hb).trans (List.map_id _))
    · exact fun level => List.forall_mem_map.2 fun token _ => reindentToken_respellToken_cr _ token
  have ht := forall₂_trimLines (forall₂_indentation options hr) true
  rw [← run_beforeIndent_map options] at ht
  rw [eq_comm, run_all_eq_trimmed, run_all_eq_trimmed, trailingWhitespace, trailingWhitespace,
    flatMap_plainChars_iff ht, blockComments_trimLines, blockComments_trimLines, hc]

/-- Of two terminators, neither or both have to be carriage returns, or indentation has to leave the
block comments as they are. -/
theorem flatMap_plainChars_run_iff (options : Options) (ho : options.linebreak = .lf)
    (first second : Linebreak) (tokens : List Token) :
    (run all { options with linebreak := first } tokens).flatMap plainChars =
        (run all { options with linebreak := second } tokens).flatMap plainChars ↔
      ((first = .cr ↔ second = .cr) ∨
        blockComments (indentation options (run beforeIndent options tokens)) =
          blockComments (run beforeIndent options tokens)) := by
  have hl {ending : Linebreak} (he : ending ≠ .cr) :
      (run all { options with linebreak := ending } tokens).flatMap plainChars =
        (run all options tokens).flatMap plainChars := by
    rw [run_all_map ho he, flatMap_plainChars_map]
  have hc := flatMap_plainChars_cr ho tokens
  by_cases hf : first = .cr
  · subst hf
    by_cases hs : second = .cr
    · subst hs
      exact iff_of_true rfl (.inl Iff.rfl)
    · rw [hl hs, hc, or_iff_right fun h => hs (h.1 rfl)]
  · by_cases hs : second = .cr
    · subst hs
      rw [hl hf, eq_comm, hc, or_iff_right fun h => hf (h.2 rfl)]
    · rw [hl hf, hl hs]
      exact iff_of_true rfl (.inl (iff_of_false hf hs))

end

end Rule

open Token

/-- Both sources are refused alike, or both texts are the same but for their terminators. -/
def SameButTerminators : Except SyntaxError String → Except SyntaxError String → Prop
  | .error first, .error second => first = second
  | .ok first, .ok second =>
      Linebreak.lf.respell first.toList = Linebreak.lf.respell second.toList
  | _, _ => False

/-- The choice of a terminator changes terminators only, except between carriage returns and the
others: there it changes nothing else exactly if indentation leaves the block comments alone. -/
theorem format_linebreak_iff (options : Options) (first second : Linebreak) (source : String) :
    SameButTerminators (format Rule.all { options with linebreak := first } source)
        (format Rule.all { options with linebreak := second } source) ↔
      ((first = .cr ↔ second = .cr) ∨
        ∀ tokens, readTokens options source = .ok tokens →
          blockComments (Rule.indentation { options with linebreak := .lf }
              (Rule.run Rule.beforeIndent { options with linebreak := .lf } tokens)) =
            blockComments (Rule.run Rule.beforeIndent { options with linebreak := .lf } tokens)) := by
  have hread (ending : Linebreak) :
      readTokens { options with linebreak := ending } source = readTokens options source := rfl
  cases hr : readTokens options source with
  | error fault =>
      have hf (ending : Linebreak) :
          format Rule.all { options with linebreak := ending } source = .error fault := by
        rw [format, hread, hr]
        rfl
      rw [hf, hf]
      refine iff_of_true rfl (.inr fun tokens h => ?_)
      cases h
  | ok tokens =>
      have hf (ending : Linebreak) :
          format Rule.all { options with linebreak := ending } source =
            .ok (render (Rule.run Rule.all { options with linebreak := ending } tokens)) := by
        rw [format, hread, hr]
        rfl
      have hp (ending : Linebreak) :
          Linebreak.lf.respell
              (render (Rule.run Rule.all { options with linebreak := ending } tokens)).toList =
            (Rule.run Rule.all { options with linebreak := ending } tokens).flatMap plainChars := by
        rw [render, String.toList_ofList]
        exact Rule.respell_renderChars_run .lf _ (readTokens_eq_ok hr).1
      rw [hf, hf, SameButTerminators, hp, hp,
        Rule.flatMap_plainChars_run_iff { options with linebreak := .lf } rfl]
      refine or_congr_right ⟨fun h other ho => ?_, fun h => h tokens rfl⟩
      cases ho
      exact h

set_option maxRecDepth 10000 in
/-- Between carriage returns the stars of a comment stay where they are. -/
theorem format_return_comment :
    ¬∀ (options : Options) (first second : Linebreak) (source : String),
      SameButTerminators (format Rule.all { options with linebreak := first } source)
        (format Rule.all { options with linebreak := second } source) := by
  intro h
  have hf : format Rule.all { linebreak := .lf } "/*\n* a\n*/" = .ok "/*\n * a\n */" := by cbv
  have hs : format Rule.all { linebreak := .cr } "/*\n* a\n*/" = .ok "/*\r* a\r*/" := by cbv
  have hd := h {} .lf .cr "/*\n* a\n*/"
  rw [hf, hs, SameButTerminators] at hd
  exact absurd hd (by decide)

end SourceStyle
