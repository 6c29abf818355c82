import SourceStyle.Proofs.Adjacency
import SourceStyle.Proofs.Beginnings

/-!
Every rule keeps tokens sound side by side.
-/

namespace SourceStyle.Rule

open Token

theorem soundWatch_comment (trail : Trail) {first second : Token}
    (hf : first.isComment = true) (hs : second.isComment = true)
    (ho : Trail.of first = Trail.of second) :
    (soundWatch.accepts trail first ↔ soundWatch.accepts trail second) ∧
      soundWatch.next trail first = soundWatch.next trail second := by
  have hb : ∀ {token : Token}, token.isComment = true → token.isBreak = true :=
    fun h => by rw [isBreak, h, Bool.or_true]
  simp only [soundWatch, accepts_of_isComment _ hf, accepts_of_isComment _ hs,
    after_of_isBreak _ (hb hf), after_of_isBreak _ (hb hs), ho, and_self]

theorem blind_respellToken (ending : Linebreak) : soundWatch.Blind (respellToken ending) := by
  intro trail token
  cases token with
  | linebreak =>
      simp only [soundWatch, respellToken, accepts_linebreak, after_linebreak, and_self]
  | blockComment text => exact soundWatch_comment trail rfl rfl rfl
  | _ => exact ⟨Iff.rfl, rfl⟩

theorem blind_reindentToken (indentation : List Char) :
    soundWatch.Blind (reindentToken indentation) := by
  intro trail token
  cases token with
  | blockComment text => exact soundWatch_comment trail rfl rfl rfl
  | _ => exact ⟨Iff.rfl, rfl⟩

theorem soundWatch_lined (options : Options) : soundWatch.Lined options where
  closes _ _ _ := trivial
  ends _ _ := by
    refine ⟨accepts_linebreak _ _, ?_⟩
    simp only [soundWatch, after_linebreak]
  rests trail ending := (soundWatch_steady trail ending).whitespace
  reindents _ := blind_reindentToken _
  trims trail _ := soundWatch_comment trail rfl rfl rfl

theorem soundWatch_wraps : soundWatch.Wraps := by
  intro trail header gap hh hg
  have hl : trail.after header ≠ .line := by
    refine after_ne_line _ ?_
    rintro text rfl
    cases hh
  have ha : ∀ {trail : Trail}, trail ≠ .line → soundWatch.accepts trail (.opening .curly) :=
    fun ht => accepts_of_isBreak ht rfl
  refine ⟨?_, ?_, ?_⟩
  · cases gap with
    | nil => trivial
    | cons token gap =>
        obtain ⟨ht, hg⟩ := List.forall_mem_cons.1 hg
        refine ⟨accepts_of_isBreak hl (isBreak_of_isLayout ht), ?_⟩
        rw [show soundWatch.next (soundWatch.next trail header) token = .free from
          after_isLayout _ ht]
        exact (soundWatch_ignores.reads hg).1
  · have hf : gap.foldl Trail.after (trail.after header) ≠ .line := by
      rcases foldl_after_gap hg (trail.after header) with he | he
      · rwa [he]
      · rw [he]
        nofun
    exact iff_of_true (ha hf) (ha hl)
  · simp only [soundWatch, after_opening]

theorem blind_recaseHex (options : Options) : soundWatch.Blind (recaseHex options) := by
  intro trail token
  rcases recaseHex_cases options token with he | ⟨x, digits, -, rfl, he⟩
  · rw [he]
    exact ⟨Iff.rfl, rfl⟩
  · rw [he]
    refine ⟨?_, by simp [soundWatch, Trail.after, Trail.of]⟩
    simp only [soundWatch, Trail.accepts, chars, Token.text, String.toList_ofList, List.head?_cons]
    rfl

section
variable {options : Options} {trail : Trail} {tokens : List Token}

theorem soundFrom_linebreaks (h : SoundFrom trail tokens) :
    SoundFrom trail (linebreaks options tokens) :=
  (blind_respellToken options.linebreak).passes_map h

theorem soundFrom_hexLiterals (h : SoundFrom trail tokens) :
    SoundFrom trail (hexLiterals options tokens) :=
  (blind_recaseHex options).passes_map h

theorem soundFrom_header (h : SoundFrom .free tokens) : SoundFrom .free (header options tokens) := by
  obtain ⟨lead, -, he, -⟩ := exists_append_header options tokens
  rw [he] at h
  exact h.suffix

/-- A line comment is followed by a line terminator, so nothing else comes after one. -/
theorem ne_line_of_accepts {token : Token} (h : trail.accepts token = true)
    (ht : token.isLinebreak = false) : trail ≠ .line := by
  rintro rfl
  rw [Trail.accepts, if_pos rfl, ht] at h
  cases h

theorem isBreak_of_endsStatement {following : List Token} (h : endsStatement following = true) :
    ∀ token ∈ following.head?, token.isBreak = true := by
  intro token hm
  obtain ⟨rest, rfl⟩ := List.head?_eq_some_iff.1 (Option.mem_def.1 hm)
  cases hw : token.isWhitespace with
  | true => exact isBreak_of_isLayout (by rw [isLayout, hw, Bool.true_or])
  | false =>
      rw [endsStatement, skipSpace, List.dropWhile_cons_of_neg (by simp [hw])] at h
      split at h
      · cases ‹_ = []›
      · cases ‹token :: rest = _›
        rfl
      · cases ‹token :: rest = _›
        rfl
      · cases ‹token :: rest = _›
        rfl
      · cases h

theorem endsStatement_of_drop {nesting : Nat} {following : List Token}
    (h : semicolonFate options nesting following = .drop) : endsStatement following = true := by
  unfold semicolonFate at h
  split at h
  · cases h
  · split at h
    · assumption
    · split at h <;> cases h

theorem soundFrom_semicolonsFrom {nesting : Nat} (h : SoundFrom trail tokens) :
    SoundFrom trail (semicolonsFrom options nesting tokens) := by
  fun_induction semicolonsFrom options nesting tokens generalizing trail with
  | case1 => exact h
  | case2 nesting rest _ ih | case6 nesting _ rest _ ih | case7 nesting _ rest _ _ ih =>
      exact ⟨h.1, ih h.2⟩
  | case3 nesting rest hf ih =>
      exact ih (h.tail.free.ofBreak (ne_line_of_accepts h.1 rfl)
        (isBreak_of_endsStatement (endsStatement_of_drop hf)))
  | case4 nesting rest hf ih =>
      refine soundFrom_cons.2 ⟨accepts_linebreak trail options.linebreak, ih ?_⟩
      rw [after_linebreak]
      exact h.tail.skipSpace
  | case5 nesting text rest hb ih =>
      refine ih (h.tail.free.ofBreak (ne_line_of_accepts h.1 rfl) ?_)
      rintro token hm
      unfold beginsSplit at hb
      split at hb
      · cases hm
        rfl
      · cases hb

/-- Operators that form ranges do not go on with an operand. -/
theorem range_sound {token : Token} {range : String} (ht : isOperandEnd token = true)
    (hr : isRangeOperator range = true) :
    (trail.after token).accepts (.operator range) = true ∧
      (trail.after token).after (.operator range) = .operator := by
  have hp : range = "..." ∨ range = "..<" := by simpa [isRangeOperator] using hr
  have hn : trail.after token = Trail.of token := by
    rw [Trail.after, if_neg]
    rintro ⟨-, rfl⟩
    cases ht
  have ho : Trail.of token = .free ∨ Trail.of token = .name ∨ Trail.of token = .number ∨
      Trail.of token = .quotes := by
    unfold Trail.of
    split <;> simp_all [isOperandEnd] <;> grind
  rw [hn]
  rcases ho with ho | ho | ho | ho <;> rcases hp with rfl | rfl <;> rw [ho] <;> decide

theorem operand_sound {token : Token} (hb : Lexer.Begins token token.chars)
    (h : isOperandStart token = true) : Trail.operator.accepts token = true := by
  have ha : ∀ {c : Char} {more : List Char}, token.chars = c :: more →
      Lexer.isOperatorChar c = false → Trail.operator.accepts token = true := by
    intro c more hc hn
    simp [Trail.accepts, Trail.goesOn, hc, hn]
  cases token with
  | identifier =>
      obtain ⟨c, more, hc, hh⟩ := hb
      exact ha hc (Lexer.isOperatorChar_of_head hh)
  | number =>
      obtain ⟨c, more, hc, hh⟩ := hb
      exact ha hc (Lexer.isOperatorChar_of_isDigit hh)
  | stringLiteral =>
      obtain ⟨more, hc⟩ := hb
      exact ha hc rfl
  | opening => exact accepts_of_isBreak (by decide) rfl
  | _ => cases h

theorem soundFrom_ranges (hb : ∀ token ∈ tokens, Lexer.Begins token token.chars)
    (h : SoundFrom trail tokens) : SoundFrom trail (ranges options tokens) := by
  fun_induction ranges options tokens generalizing trail with
  | case1 => exact h
  | case2 token rest ht range following hr _ ih =>
      obtain ⟨after, hs, rfl, ho, hf⟩ := eq_of_rangeAhead? hr
      have hk := (forall_mem_of_skipSpace_eq hs (List.forall_mem_cons.1 hb).2).2
      have hn : ∀ token ∈ skipSpace after, Lexer.Begins token token.chars :=
        forall_mem_of_dropWhile hk
      have hq := h.tail.skipSpace
      rw [hs] at hq
      have hq := hq.tail.skipSpace
      have hw : (trail.after token).accepts (.operator range) = true := (range_sound ht ho).1
      have hx : (trail.after token).after (.operator range) = .operator := (range_sound ht ho).2
      refine soundFrom_cons.2 ⟨h.1, ?_⟩
      unfold spacedRange
      split
      · have hl : trail.after token ≠ .line := ne_line_of_accepts hw rfl
        simp only [List.cons_append, List.nil_append, soundFrom_cons, after_whitespace]
        exact ⟨accepts_of_isBreak hl rfl, free_accepts _,
          accepts_of_isBreak (after_ne_line _ fun _ he => by cases he) rfl, ih hn hq⟩
      · refine soundFrom_cons.2 ⟨hw, ?_⟩
        rw [hx]
        refine ih hn (hq.ofHead fun operand hm => ⟨operand_sound ?_ ?_, ?_⟩)
        · exact hn operand (List.mem_of_mem_head? hm)
        · rw [Option.mem_def.1 hm] at hf
          simpa using hf
        · rw [Trail.after, if_neg fun h => by cases h.1]
  | case3 token rest _ _ ih | case4 token rest _ ih =>
      exact ⟨h.1, ih (List.forall_mem_cons.1 hb).2 h.2⟩

theorem soundFrom_voidTypes (h : SoundFrom trail tokens) :
    SoundFrom trail (voidTypes options tokens) := by
  fun_induction voidTypes options tokens generalizing trail with
  | case1 => exact h
  | case2 rest after ha _ ih =>
      have ho : trail.after (.operator "->") = .operator := by
        simp [Trail.after, Trail.of]
        decide
      obtain ⟨hk, hr⟩ := soundFrom_cons.1 h
      rw [ho] at hr
      have hf : SoundFrom .free after := by
        have hs := hr.skipSpace
        rcases eq_of_afterEmptyResult? ha with ⟨-, inner, he, hi⟩ | ⟨-, he⟩
        · rw [he] at hs
          have hs := hs.tail.skipSpace
          rw [hi] at hs
          exact hs.tail.free
        · rw [he] at hs
          exact hs.tail.free
      have he : ∀ trail : Trail, trail = .free ∨ trail = .operator →
          SoundFrom trail (emptyResult options ++ voidTypes options after) := by
        intro trail ht
        unfold emptyResult
        split
        · have hv : trail.after (.identifier "Void") = .free := by simp [Trail.after, Trail.of]
          rw [List.singleton_append, soundFrom_cons, hv]
          refine ⟨?_, ih hf⟩
          rcases ht with rfl | rfl <;> decide
        · have hl : trail ≠ .line := by rcases ht with rfl | rfl <;> decide
          simp only [List.cons_append, List.nil_append, soundFrom_cons, after_opening,
            after_closing]
          exact ⟨accepts_of_isBreak hl rfl, free_accepts _, ih hf⟩
      rw [← takeWhile_append_skipSpace rest, soundFrom_append] at hr
      refine soundFrom_cons.2 ⟨hk, ?_⟩
      rw [ho, List.append_assoc, soundFrom_append]
      exact ⟨hr.1, he _ (foldl_after_gap isLayout_of_mem_takeWhile_isWhitespace .operator).symm⟩
  | case3 rest _ ih | case4 token rest _ ih => exact ⟨h.1, ih h.2⟩

theorem soundWatch_settles : soundWatch.Settles options := by
  intro trail inside after bracket h
  change SoundFrom trail _ at h
  change SoundFrom trail _
  rcases settleComma_cases options inside with
    he | ⟨before, trivia, ht, -, ⟨-, hi, ⟨earlier, last, hl, hn⟩, hs⟩ | ⟨-, hi, hs⟩⟩
  · rwa [he]
  · rw [hi, List.append_assoc, soundFrom_append] at h
    rw [hs, List.append_assoc, soundFrom_append]
    refine ⟨h.1, soundFrom_cons.2 ⟨accepts_of_isBreak ?_ rfl, ?_⟩⟩
    · rw [hl, List.foldl_append]
      refine after_ne_line _ ?_
      rintro text rfl
      cases hn
    · rw [after_separator]
      exact h.2.free
  · rw [hi, List.append_assoc, soundFrom_append] at h
    rw [hs, List.append_assoc, soundFrom_append]
    obtain ⟨hb, hr⟩ := h
    obtain ⟨ha, hr⟩ := soundFrom_cons.1 hr
    rw [after_separator] at hr
    refine ⟨hb, hr.ofBreak (ne_line_of_accepts ha rfl) ?_⟩
    cases trivia with
    | nil =>
        rintro token ⟨⟩
        rfl
    | cons token trivia =>
        rintro token ⟨⟩
        have hk := (List.forall_mem_cons.1 ht).1
        rw [isTrivia, Bool.or_eq_true] at hk
        rcases hk with hk | hk
        · exact isBreak_of_isLayout hk
        · rw [isBreak, hk, Bool.or_true]

/-- Tokens that begin as tokens do stay sound side by side. -/
theorem soundFrom_apply {rule : Rule} (hr : rule ∈ all)
    (hb : ∀ token ∈ tokens, Lexer.Begins token token.chars) (h : SoundFrom .free tokens) :
    SoundFrom .free (rule.apply options tokens) := by
  cases hr using mem_all_cases with
  | linebreaks => exact soundFrom_linebreaks h
  | header => exact soundFrom_header h
  | semicolons => exact soundFrom_semicolonsFrom h
  | ranges => exact soundFrom_ranges hb h
  | voidTypes => exact soundFrom_voidTypes h
  | hexLiterals => exact soundFrom_hexLiterals h
  | trailingCommas => exact soundWatch_settles.passes_trailingCommas h
  | braces => exact soundWatch_wraps.passes_braces h
  | blankLinesAtScopeEdges => exact soundWatch_steady.passes_blankLinesAtScopeEdges h
  | blankLinesBetweenScopes => exact soundWatch_steady.passes_blankLinesBetweenScopes h
  | consecutiveBlankLines =>
      exact soundWatch_steady.behindBlank.passes_consecutiveBlankLines (soundWatch_lined options) h
  | indentation =>
      exact (soundWatch_lined options).passes_indentFrom soundWatch_ignores.whitespace h
  | trailingWhitespace => exact (soundWatch_lined options).passes_trimLines h

end

end SourceStyle.Rule
