import Mathlib.Data.List.TakeWhile
import SourceStyle.Proofs.Watch

/-!
Properties of single tokens that every rule keeps: those that hold of the tokens that rules put in
and that no respelling destroys.
-/

namespace SourceStyle.Rule

open Token

/-- A property of tokens that rules keep. -/
structure Kept (options : Options) (P : Token → Prop) : Prop where
  terminator : P (.linebreak options.linebreak)
  space : ∀ c rest, (∀ d ∈ c :: rest, Lexer.isSpace d = true) →
    P (.whitespace (String.ofList (c :: rest)))
  comma : P (.separator .comma)
  name : P (.identifier "Void")
  opening : P (.opening .round)
  closing : P (.closing .round)
  respelled : ∀ token, P token → P (respellToken options.linebreak token)
  recased : ∀ token, P token → P (recaseHex options token)
  reindented : ∀ level token, P token → P (reindentToken (levels options level) token)
  trimmed : ∀ text, P (.lineComment text) →
    P (.lineComment (String.ofList (Text.trimEnd text.toList)))

section
variable {P : Token → Prop}

theorem forall_mem_of_dropWhile {p : Token → Bool} {tokens : List Token}
    (h : ∀ token ∈ tokens, P token) : ∀ token ∈ tokens.dropWhile p, P token :=
  fun token hm => h token ((List.dropWhile_sublist p).subset hm)

theorem forall_mem_of_takeWhile {p : Token → Bool} {tokens : List Token}
    (h : ∀ token ∈ tokens, P token) : ∀ token ∈ tokens.takeWhile p, P token :=
  fun token hm => h token ((List.takeWhile_sublist p).subset hm)

theorem forall_mem_of_skipSpace_eq {tokens rest : List Token} {token : Token}
    (hs : skipSpace tokens = token :: rest) (h : ∀ token ∈ tokens, P token) :
    P token ∧ ∀ token ∈ rest, P token := by
  have hd : ∀ token ∈ skipSpace tokens, P token := forall_mem_of_dropWhile h
  rwa [hs, List.forall_mem_cons] at hd

theorem forall_mem_header (options : Options) {tokens : List Token}
    (h : ∀ token ∈ tokens, P token) : ∀ token ∈ header options tokens, P token := by
  obtain ⟨lead, -, he, -⟩ := exists_append_header options tokens
  rw [he] at h
  exact (List.forall_mem_append.1 h).2

theorem forall_mem_dropBlankLines {tokens : List Token} (h : ∀ token ∈ tokens, P token) :
    ∀ token ∈ dropBlankLines tokens, P token :=
  fun token hm => h token ((dropBlankLines_suffix tokens).subset hm)

theorem forall_mem_trimScopeEdges {tokens : List Token} (h : ∀ token ∈ tokens, P token) :
    ∀ token ∈ trimScopeEdges tokens, P token := by
  fun_induction trimScopeEdges tokens with
  | case1 => exact h
  | case2 rest ending following hs _ _ ih =>
      obtain ⟨ho, hr⟩ := List.forall_mem_cons.1 h
      obtain ⟨he, hf⟩ := forall_mem_of_skipSpace_eq hs hr
      exact List.forall_mem_cons.2 ⟨ho, List.forall_mem_append.2 ⟨forall_mem_of_takeWhile hr,
        List.forall_mem_cons.2 ⟨he, ih (forall_mem_dropBlankLines hf)⟩⟩⟩
  | case3 rest _ ih | case5 _ rest _ _ ih | case6 _ rest _ _ ih =>
      obtain ⟨ht, hr⟩ := List.forall_mem_cons.1 h
      exact List.forall_mem_cons.2 ⟨ht, ih hr⟩
  | case4 ending rest _ _ ih =>
      obtain ⟨ht, hr⟩ := List.forall_mem_cons.1 h
      exact List.forall_mem_cons.2 ⟨ht, ih (forall_mem_dropBlankLines hr)⟩

theorem forall_mem_blankLinesAtScopeEdges (options : Options) {tokens : List Token}
    (h : ∀ token ∈ tokens, P token) :
    ∀ token ∈ blankLinesAtScopeEdges options tokens, P token := by
  unfold blankLinesAtScopeEdges
  split
  · exact forall_mem_trimScopeEdges h
  · exact h

theorem forall_mem_consecutiveBlankLines (options : Options) {tokens : List Token}
    (h : ∀ token ∈ tokens, P token) : ∀ token ∈ consecutiveBlankLines options tokens, P token :=
  fun token hm => h token ((consecutiveBlankLines_sublist options tokens).subset hm)

end

namespace Kept
variable {options : Options} {P : Token → Prop}

theorem forall_mem_linebreaks (hk : Kept options P) {tokens : List Token}
    (h : ∀ token ∈ tokens, P token) : ∀ token ∈ linebreaks options tokens, P token := by
  rw [linebreaks, List.forall_mem_map]
  exact fun token hm => hk.respelled token (h token hm)

theorem forall_mem_semicolonsFrom (hk : Kept options P) (nesting : Nat) {tokens : List Token}
    (h : ∀ token ∈ tokens, P token) :
    ∀ token ∈ semicolonsFrom options nesting tokens, P token := by
  intro token hm
  obtain hm | rfl := mem_semicolonsFrom hm
  · exact h token hm
  · exact hk.terminator

theorem oneSpace (hk : Kept options P) : P (.whitespace " ") :=
  hk.space ' ' [] (by simp [Lexer.isSpace])

theorem forall_mem_ranges (hk : Kept options P) {tokens : List Token}
    (h : ∀ token ∈ tokens, P token) : ∀ token ∈ ranges options tokens, P token := by
  fun_induction ranges options tokens with
  | case1 => exact h
  | case2 token rest _ text following hr _ ih =>
      obtain ⟨after, hs, rfl, -⟩ := eq_of_rangeAhead? hr
      obtain ⟨ht, hr⟩ := List.forall_mem_cons.1 h
      obtain ⟨ho, hf⟩ := forall_mem_of_skipSpace_eq hs hr
      have hg : ∀ token ∈ spacedRange options text, P token := by
        unfold spacedRange
        split <;> simp [hk.oneSpace, ho]
      exact List.forall_mem_cons.2 ⟨ht, List.forall_mem_append.2
        ⟨hg, ih (forall_mem_of_dropWhile hf)⟩⟩
  | case3 token rest _ _ ih | case4 token rest _ ih =>
      obtain ⟨ht, hr⟩ := List.forall_mem_cons.1 h
      exact List.forall_mem_cons.2 ⟨ht, ih hr⟩

theorem forall_mem_voidTypes (hk : Kept options P) {tokens : List Token}
    (h : ∀ token ∈ tokens, P token) : ∀ token ∈ voidTypes options tokens, P token := by
  have he : ∀ token ∈ emptyResult options, P token := by
    unfold emptyResult
    split <;> simp [hk.name, hk.opening, hk.closing]
  fun_induction voidTypes options tokens with
  | case1 => exact h
  | case2 rest after ha _ ih =>
      obtain ⟨ht, hr⟩ := List.forall_mem_cons.1 h
      have hs : ∀ token ∈ skipSpace rest, P token := forall_mem_of_dropWhile hr
      have hf : ∀ token ∈ after, P token := by
        rcases eq_of_afterEmptyResult? ha with ⟨-, inner, he, hi⟩ | ⟨-, he⟩
        · rw [he, List.forall_mem_cons] at hs
          exact (forall_mem_of_skipSpace_eq hi hs.2).2
        · rw [he, List.forall_mem_cons] at hs
          exact hs.2
      exact List.forall_mem_cons.2 ⟨ht, List.forall_mem_append.2
        ⟨List.forall_mem_append.2 ⟨forall_mem_of_takeWhile hr, he⟩, ih hf⟩⟩
  | case3 rest _ ih | case4 token rest _ ih =>
      obtain ⟨ht, hr⟩ := List.forall_mem_cons.1 h
      exact List.forall_mem_cons.2 ⟨ht, ih hr⟩

theorem forall_mem_hexLiterals (hk : Kept options P) {tokens : List Token}
    (h : ∀ token ∈ tokens, P token) : ∀ token ∈ hexLiterals options tokens, P token := by
  rw [hexLiterals, List.forall_mem_map]
  exact fun token hm => hk.recased token (h token hm)

theorem forall_mem_settleComma (hk : Kept options P) {inside : List Token}
    (h : ∀ token ∈ inside, P token) : ∀ token ∈ settleComma options inside, P token := by
  rcases settleComma_cases options inside with he | ⟨before, trivia, -, -, ⟨-, rfl, -, hs⟩ | ⟨-, rfl, hs⟩⟩
  · rwa [he]
  · rw [List.forall_mem_append] at h
    rw [hs, List.forall_mem_append, List.forall_mem_cons]
    exact ⟨h.1, hk.comma, h.2⟩
  · rw [List.forall_mem_append, List.forall_mem_cons] at h
    rw [hs, List.forall_mem_append]
    exact ⟨h.1, h.2.2⟩

theorem forall_mem_trailingCommas (hk : Kept options P) {tokens : List Token}
    (h : ∀ token ∈ tokens, P token) : ∀ token ∈ trailingCommas options tokens, P token := by
  fun_induction trailingCommas options tokens with
  | case1 => exact h
  | case2 rest split hs _ _ ihInside ihAfter =>
      obtain ⟨ht, hr⟩ := List.forall_mem_cons.1 h
      rw [← Scope.append_of_splitAtClose hs, List.forall_mem_append, List.forall_mem_cons] at hr
      exact List.forall_mem_cons.2 ⟨ht, List.forall_mem_append.2
        ⟨hk.forall_mem_settleComma (ihInside hr.1), List.forall_mem_cons.2 ⟨hr.2.1, ihAfter hr.2.2⟩⟩⟩
  | case3 rest _ ih | case4 token rest _ ih =>
      obtain ⟨ht, hr⟩ := List.forall_mem_cons.1 h
      exact List.forall_mem_cons.2 ⟨ht, ih hr⟩

theorem forall_mem_braces (hk : Kept options P) {tokens : List Token}
    (h : ∀ token ∈ tokens, P token) : ∀ token ∈ braces options tokens, P token := by
  have hg : P (braceGap options) := by
    unfold braceGap
    split
    · exact hk.terminator
    · exact hk.oneSpace
  fun_induction braces options tokens with
  | case1 => exact h
  | case2 token rest _ body hb _ ih =>
      obtain ⟨gap, -, rfl⟩ := eq_append_of_misplacedBody? hb
      simp only [List.forall_mem_cons, List.forall_mem_append] at h
      obtain ⟨ht, -, ho, hr⟩ := h
      simp only [List.forall_mem_cons]
      exact ⟨ht, hg, ho, ih hr⟩
  | case3 token rest _ _ ih | case4 token rest _ ih =>
      obtain ⟨ht, hr⟩ := List.forall_mem_cons.1 h
      exact List.forall_mem_cons.2 ⟨ht, ih hr⟩

theorem forall_mem_spaceDeclarations (hk : Kept options P) (bodies : List Bool) (view : LineView)
    {tokens : List Token} (h : ∀ token ∈ tokens, P token) :
    ∀ token ∈ spaceDeclarations options bodies view tokens, P token := by
  fun_induction spaceDeclarations options bodies view tokens with
  | case1 => exact h
  | case2 bodies view token rest _ ending following hc _ ih =>
      obtain ⟨ht, hr⟩ := List.forall_mem_cons.1 h
      obtain ⟨he, hf⟩ := forall_mem_of_skipSpace_eq (eq_append_of_codeAfterBody? hc).1 hr
      exact List.forall_mem_cons.2 ⟨ht, List.forall_mem_append.2 ⟨forall_mem_of_takeWhile hr,
        List.forall_mem_cons.2 ⟨he, List.forall_mem_cons.2 ⟨hk.terminator, ih hf⟩⟩⟩⟩
  | case3 bodies view token rest _ _ ih | case4 bodies view token rest _ ih =>
      obtain ⟨ht, hr⟩ := List.forall_mem_cons.1 h
      exact List.forall_mem_cons.2 ⟨ht, ih hr⟩

theorem forall_mem_blankLinesBetweenScopes (hk : Kept options P) {tokens : List Token}
    (h : ∀ token ∈ tokens, P token) :
    ∀ token ∈ blankLinesBetweenScopes options tokens, P token := by
  unfold blankLinesBetweenScopes
  split
  · exact hk.forall_mem_spaceDeclarations [] {} h
  · exact h

theorem forall_mem_indentationTokens (hk : Kept options P) (level : Nat) :
    ∀ token ∈ indentationTokens (levels options level), P token := by
  unfold indentationTokens
  have hs : ∀ c ∈ levels options level, Lexer.isSpace c = true := isSpace_of_mem_levels
  cases hl : levels options level with
  | nil => simp
  | cons c rest =>
      rw [hl] at hs
      simpa using hk.space c rest hs

theorem forall_mem_indentLine (hk : Kept options P) (state : IndentState) {line : List Token}
    (h : ∀ token ∈ line, P token) : ∀ token ∈ indentLine options state line, P token := by
  obtain ⟨lead, level, respell, hl, hr, he⟩ := indentLine_eq options state line
  have hc := congrArg (fun tokens => ∀ token ∈ tokens, P token) (lineLead_append_lineContent line)
  simp only [List.forall_mem_append, eq_iff_iff] at hc
  obtain ⟨hlead, hcontent⟩ := hc.2 h
  rw [he, List.forall_mem_append, List.forall_mem_map]
  constructor
  · rcases hl with rfl | rfl | rfl
    · exact hlead
    · simp
    · exact hk.forall_mem_indentationTokens level
  · intro token hm
    rcases hr with rfl | rfl
    · exact hcontent token hm
    · exact hk.reindented level token (hcontent token hm)

theorem forall_mem_indentFrom (hk : Kept options P) (state : IndentState) {tokens : List Token}
    (h : ∀ token ∈ tokens, P token) : ∀ token ∈ indentFrom options state tokens, P token := by
  fun_induction indentFrom options state tokens with
  | case1 => simp
  | case2 => exact hk.forall_mem_indentLine _ (forall_mem_of_takeWhile h)
  | case3 =>
      rename_i state tokens _ line ending rest hd _ ih
      have ht : ∀ token ∈ ending :: rest, P token := hd ▸ forall_mem_of_dropWhile h
      rw [List.forall_mem_cons] at ht
      exact List.forall_mem_append.2 ⟨hk.forall_mem_indentLine _ (forall_mem_of_takeWhile h),
        List.forall_mem_cons.2 ⟨ht.1, ih ht.2⟩⟩

theorem forall_mem_trimLines (hk : Kept options P) (lineStart : Bool) {tokens : List Token}
    (h : ∀ token ∈ tokens, P token) : ∀ token ∈ trimLines options lineStart tokens, P token := by
  fun_induction trimLines options lineStart tokens with
  | case1 => exact h
  | case2 lineStart text rest _ ih => exact ih (List.forall_mem_cons.1 h).2
  | case3 lineStart text rest _ ih | case5 lineStart ending rest ih
  | case6 lineStart token rest _ _ _ ih =>
      obtain ⟨ht, hr⟩ := List.forall_mem_cons.1 h
      exact List.forall_mem_cons.2 ⟨ht, ih hr⟩
  | case4 lineStart text rest ih =>
      obtain ⟨ht, hr⟩ := List.forall_mem_cons.1 h
      exact List.forall_mem_cons.2 ⟨hk.trimmed text ht, ih hr⟩

end Kept

/-- The tokens after a sequence of rules, whatever rules are enabled. -/
def applyAll (rules : List Rule) (options : Options) (tokens : List Token) : List Token :=
  rules.foldl (fun tokens rule => rule.apply options tokens) tokens

/-- What every rule preserves, a sequence of rules preserves. -/
theorem applyAll_induction {options : Options} {Holds : List Token → Prop}
    (hs : ∀ rule ∈ all, ∀ tokens, Holds tokens → Holds (rule.apply options tokens))
    {rules : List Rule} (hr : ∀ rule ∈ rules, rule ∈ all) {tokens : List Token}
    (h : Holds tokens) : Holds (applyAll rules options tokens) := by
  induction rules generalizing tokens with
  | nil => exact h
  | cons rule rules ih =>
      obtain ⟨hm, hr⟩ := List.forall_mem_cons.1 hr
      exact ih hr (hs rule hm tokens h)

theorem Kept.forall_mem_apply {options : Options} {P : Token → Prop} (hk : Kept options P)
    {rule : Rule} (hr : rule ∈ all) (tokens : List Token) (h : ∀ token ∈ tokens, P token) :
    ∀ token ∈ rule.apply options tokens, P token := by
  cases hr using mem_all_cases with
  | linebreaks => exact hk.forall_mem_linebreaks h
  | header => exact forall_mem_header options h
  | semicolons => exact hk.forall_mem_semicolonsFrom 0 h
  | ranges => exact hk.forall_mem_ranges h
  | voidTypes => exact hk.forall_mem_voidTypes h
  | hexLiterals => exact hk.forall_mem_hexLiterals h
  | trailingCommas => exact hk.forall_mem_trailingCommas h
  | braces => exact hk.forall_mem_braces h
  | blankLinesAtScopeEdges => exact forall_mem_blankLinesAtScopeEdges options h
  | blankLinesBetweenScopes => exact hk.forall_mem_blankLinesBetweenScopes h
  | consecutiveBlankLines => exact forall_mem_consecutiveBlankLines options h
  | indentation => exact hk.forall_mem_indentFrom {} h
  | trailingWhitespace => exact hk.forall_mem_trimLines true h

theorem Kept.forall_mem_applyAll {options : Options} {P : Token → Prop} (hk : Kept options P)
    {rules : List Rule} (hr : ∀ rule ∈ rules, rule ∈ all) {tokens : List Token}
    (h : ∀ token ∈ tokens, P token) : ∀ token ∈ applyAll rules options tokens, P token :=
  applyAll_induction (fun _ hm => hk.forall_mem_apply hm) hr h

theorem Kept.forall_mem_run {options : Options} {P : Token → Prop} (hk : Kept options P)
    {tokens : List Token} (h : ∀ token ∈ tokens, P token) :
    ∀ token ∈ run all options tokens, P token :=
  hk.forall_mem_applyAll (fun _ hm => (List.mem_filter.1 hm).1) h

end SourceStyle.Rule
