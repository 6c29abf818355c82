import SourceStyle.Proofs.Repetition.Scopes

/-!
A line comment runs to the end of its line, so code right after one would be lost in it. Rules
remove line terminators, move brackets across lines and put in commas, and still leave every line
comment at the end of a line. They leave balanced scopes balanced as well.
-/

namespace SourceStyle

open Token Rule

def Token.isLineComment : Token → Bool
  | .lineComment _ => true
  | _ => false

/-- Every line comment comes last or right before a line terminator. -/
def CommentsEndLines (tokens : List Token) : Prop :=
  tokens.IsChain fun first second => first.isLineComment = true → second.isLinebreak = true

instance (tokens : List Token) : Decidable (CommentsEndLines tokens) :=
  inferInstanceAs (Decidable (tokens.IsChain _))

/-- A watch for tokens on the line of a line comment, behind it. The state is whether a line comment
came right before. -/
def commentWatch : Watch Bool where
  accepts behind token := behind = true → token.isLinebreak = true
  next _ token := token.isLineComment

section
variable {options : Options} {behind : Bool} {tokens first second : List Token}

theorem commentWatch_passes_iff :
    commentWatch.Passes behind tokens ↔
      (behind = true → ∀ token ∈ tokens.head?, token.isLinebreak = true) ∧
        CommentsEndLines tokens := by
  induction tokens generalizing behind with
  | nil => simp [Watch.Passes, commentWatch, CommentsEndLines]
  | cons token rest ih =>
      have hc : CommentsEndLines (token :: rest) ↔
          (token.isLineComment = true → ∀ next ∈ rest.head?, next.isLinebreak = true) ∧
            CommentsEndLines rest := by
        rw [CommentsEndLines, List.isChain_cons]
        exact and_congr_left' ⟨fun h hc next hm => h next hm hc, fun h next hm hc => h hc next hm⟩
      rw [Watch.Passes, ih, hc]
      simp [commentWatch]

/-- Anything may stand behind what is no line comment. -/
theorem commentWatch_accepts_false (token : Token) : commentWatch.accepts false token :=
  fun h => absurd h Bool.false_ne_true

/-- What may stand behind a line comment may stand anywhere. -/
theorem commentWatch_passes_false (h : commentWatch.Passes behind tokens) :
    commentWatch.Passes false tokens := by
  rw [commentWatch_passes_iff] at h ⊢
  exact ⟨nofun, h.2⟩

theorem commentWatch_passes_suffix (h : commentWatch.Passes behind (first ++ second)) :
    commentWatch.Passes false second :=
  commentWatch_passes_false (Watch.passes_append.1 h).2

theorem commentWatch_passes_skipSpace (h : commentWatch.Passes behind tokens) :
    commentWatch.Passes false (skipSpace tokens) := by
  rw [← takeWhile_append_skipSpace tokens] at h
  exact commentWatch_passes_suffix h

/-- Whatever comes right behind a line comment ends the line. -/
theorem eq_false_of_commentWatch_accepts {token : Token} (h : commentWatch.accepts behind token)
    (ht : token.isLinebreak = false) : behind = false :=
  Bool.eq_false_iff.2 fun hb => Bool.eq_false_iff.1 ht (h hb)

theorem commentWatch_ignores : commentWatch.Ignores isLayout false := by
  intro token ht
  refine ⟨commentWatch_accepts_false token, ?_⟩
  cases token <;> first | rfl | cases ht

theorem commentWatch_steady : commentWatch.Steady := fun _ _ => commentWatch_ignores

theorem commentWatch_blind {respell : Token → Token}
    (hl : ∀ token, (respell token).isLinebreak = token.isLinebreak)
    (hc : ∀ token, (respell token).isLineComment = token.isLineComment) :
    commentWatch.Blind respell := by
  intro behind token
  simp only [commentWatch, hl, hc, and_self]

theorem commentWatch_lined (options : Options) : commentWatch.Lined options where
  closes _ _ _ := trivial
  ends _ _ := ⟨fun _ => rfl, rfl⟩
  rests state ending := (commentWatch_steady state ending).whitespace
  reindents _ := commentWatch_blind (fun token => by cases token <;> rfl)
    fun token => by cases token <;> rfl
  trims _ _ := ⟨Iff.rfl, rfl⟩

theorem commentWatch_wraps : commentWatch.Wraps := by
  intro behind header gap hh hg
  have hn : commentWatch.next behind header = false := by
    cases header <;> first | rfl | cases hh
  obtain ⟨hr, hf⟩ := commentWatch_ignores.reads hg
  rw [hn, hf]
  exact ⟨hr, Iff.rfl, rfl⟩

theorem commentWatch_passes_semicolonsFrom {nesting : Nat}
    (h : commentWatch.Passes behind tokens) :
    commentWatch.Passes behind (semicolonsFrom options nesting tokens) := by
  fun_induction semicolonsFrom options nesting tokens generalizing behind with
  | case1 => exact h
  | case2 nesting rest _ ih | case6 nesting _ rest _ ih | case7 nesting _ rest _ _ ih =>
      exact ⟨h.1, ih h.2⟩
  | case3 nesting rest _ ih =>
      obtain rfl := eq_false_of_commentWatch_accepts h.1 rfl
      exact ih h.2
  | case4 nesting rest _ ih =>
      exact ⟨fun _ => rfl, ih (commentWatch_passes_skipSpace h.2)⟩
  | case5 nesting text rest _ ih =>
      obtain rfl := eq_false_of_commentWatch_accepts h.1 rfl
      exact ih h.2

theorem commentWatch_passes_ranges (h : commentWatch.Passes behind tokens) :
    commentWatch.Passes behind (ranges options tokens) := by
  fun_induction ranges options tokens generalizing behind with
  | case1 => exact h
  | case2 token rest ht range following hr _ ih =>
      obtain ⟨after, hs, rfl, -, -⟩ := eq_of_rangeAhead? hr
      have hn : commentWatch.next behind token = false := by
        cases token <;> first | rfl | cases ht
      have hp := commentWatch_passes_skipSpace h.2
      rw [hs] at hp
      have hf := ih (commentWatch_passes_skipSpace hp.2)
      refine ⟨h.1, ?_⟩
      rw [hn, spacedRange]
      split
      · exact ⟨commentWatch_accepts_false _, commentWatch_accepts_false _,
          commentWatch_accepts_false _, hf⟩
      · exact ⟨commentWatch_accepts_false _, hf⟩
  | case3 token rest _ _ ih | case4 token rest _ ih => exact ⟨h.1, ih h.2⟩

theorem commentWatch_passes_voidTypes (h : commentWatch.Passes behind tokens) :
    commentWatch.Passes behind (voidTypes options tokens) := by
  fun_induction voidTypes options tokens generalizing behind with
  | case1 => exact h
  | case2 rest after ha _ ih =>
      have hf : commentWatch.Passes false after := by
        have hs := commentWatch_passes_skipSpace h.2
        rcases eq_of_afterEmptyResult? ha with ⟨-, inner, he, hi⟩ | ⟨-, he⟩
        · rw [he] at hs
          have hs := commentWatch_passes_skipSpace hs.2
          rw [hi] at hs
          exact hs.2
        · rw [he] at hs
          exact hs.2
      refine ⟨h.1, ?_⟩
      rw [List.append_assoc]
      refine (commentWatch_ignores.passes_append isLayout_of_mem_takeWhile_isWhitespace).2 ?_
      rw [emptyResult]
      split
      · exact ⟨commentWatch_accepts_false _, ih hf⟩
      · exact ⟨commentWatch_accepts_false _, commentWatch_accepts_false _, ih hf⟩
  | case3 rest _ ih | case4 token rest _ ih => exact ⟨h.1, ih h.2⟩

/-- A comma goes in behind code, so it does not come between a comment and the end of its line. -/
theorem commentWatch_settles : commentWatch.Settles options := by
  intro behind inside after bracket h
  rcases settleComma_cases options inside with
    he | ⟨before, trivia, -, -, ⟨-, hi, ⟨earlier, last, hb, hn⟩, hs⟩ | ⟨-, hi, hs⟩⟩
  · rwa [he]
  · rw [hi, List.append_assoc, Watch.passes_append] at h
    rw [hs, List.append_assoc, Watch.passes_append]
    have hl : before.foldl commentWatch.next behind = false := by
      rw [hb, List.foldl_append]
      cases last <;> first | rfl | cases hn
    refine ⟨h.1, ?_⟩
    rw [hl] at h ⊢
    exact ⟨commentWatch_accepts_false _, h.2⟩
  · rw [hi, List.append_assoc, Watch.passes_append] at h
    rw [hs, List.append_assoc, Watch.passes_append]
    obtain ⟨hr, ha, hp⟩ := h
    refine ⟨hr, ?_⟩
    rw [eq_false_of_commentWatch_accepts ha rfl]
    exact hp

theorem commentWatch_passes_header (h : commentWatch.Passes false tokens) :
    commentWatch.Passes false (header options tokens) := by
  obtain ⟨lead, -, he, -⟩ := exists_append_header options tokens
  rw [he] at h
  exact commentWatch_passes_suffix h

/-- No rule puts anything between a line comment and the end of its line. -/
theorem commentWatch_passes_apply (options : Options) {rule : Rule} (hr : rule ∈ all)
    (h : commentWatch.Passes false tokens) :
    commentWatch.Passes false (rule.apply options tokens) := by
  cases hr using mem_all_cases with
  | linebreaks =>
      exact (commentWatch_blind (fun token => by cases token <;> rfl)
        fun token => by cases token <;> rfl).passes_map h
  | header => exact commentWatch_passes_header h
  | semicolons => exact commentWatch_passes_semicolonsFrom h
  | ranges => exact commentWatch_passes_ranges h
  | voidTypes => exact commentWatch_passes_voidTypes h
  | hexLiterals =>
      refine (commentWatch_blind (fun token => ?_) fun token => ?_).passes_map h
      all_goals
        rcases recaseHex_cases options token with he | ⟨x, digits, -, rfl, he⟩
        · rw [he]
        · rw [he]
          rfl
  | trailingCommas => exact commentWatch_settles.passes_trailingCommas h
  | braces => exact commentWatch_wraps.passes_braces h
  | blankLinesAtScopeEdges => exact commentWatch_steady.passes_blankLinesAtScopeEdges h
  | blankLinesBetweenScopes => exact commentWatch_steady.passes_blankLinesBetweenScopes h
  | consecutiveBlankLines =>
      exact commentWatch_steady.behindBlank.passes_consecutiveBlankLines
        (commentWatch_lined options) h
  | indentation =>
      exact (commentWatch_lined options).passes_indentFrom commentWatch_ignores.whitespace h
  | trailingWhitespace => exact (commentWatch_lined options).passes_trimLines h

theorem CommentsEndLines.apply (options : Options) {rule : Rule} (hr : rule ∈ all)
    (h : CommentsEndLines tokens) : CommentsEndLines (rule.apply options tokens) := by
  have hp : commentWatch.Passes false tokens := commentWatch_passes_iff.2 ⟨nofun, h⟩
  exact (commentWatch_passes_iff.1 (commentWatch_passes_apply options hr hp)).2

theorem Scope.check_apply (options : Options) {rule : Rule} (hr : rule ∈ all) {fragment : Bool}
    (h : Scope.check tokens fragment = .ok ()) :
    Scope.check (rule.apply options tokens) fragment = .ok () := by
  rw [Scope.check_eq_ok_iff] at h ⊢
  exact h.imp_right (scopeWatch_passes_apply options hr)

end

/-- Rules in any order, also again and again, let no line comment swallow code and leave balanced
scopes balanced. -/
theorem applyAll_contained {rules : List Rule} (hr : ∀ rule ∈ rules, rule ∈ all)
    (options : Options) {tokens : List Token} (hc : CommentsEndLines tokens) :
    CommentsEndLines (applyAll rules options tokens) ∧
      (Scope.check tokens false = .ok () →
        Scope.check (applyAll rules options tokens) false = .ok ()) := by
  refine ⟨applyAll_induction (fun _ hm _ h => h.apply options hm) hr hc, fun hs => ?_⟩
  have hk : ∀ rule ∈ all, ∀ tokens, Scope.check tokens false = .ok () →
      Scope.check (rule.apply options tokens) false = .ok () :=
    fun rule hm tokens h => Scope.check_apply options hm h
  exact applyAll_induction hk hr hs

/-- A bracket below a comment, a literal whose last element a comment follows, and semicolons. -/
def commentedTokens : List Token :=
  [.identifier "f", .lineComment "// a ", .linebreak .lf, .opening .curly, .linebreak .lf,
   .linebreak .lf, .opening .square, .identifier "b", .lineComment "// c", .linebreak .lf,
   .closing .square, .separator .semicolon, .whitespace " ", .identifier "d",
   .separator .semicolon, .lineComment "// e", .linebreak .lf, .closing .curly, .lineComment "//"]

theorem applyAll_contained_comments :
    CommentsEndLines commentedTokens ∧ Scope.check commentedTokens false = .ok () ∧
      CommentsEndLines (applyAll (all ++ all.reverse) {} commentedTokens) ∧
      Scope.check (applyAll (all ++ all.reverse) {} commentedTokens) false = .ok () := by
  have hc : CommentsEndLines commentedTokens := by decide
  have hs : Scope.check commentedTokens false = .ok () := by decide
  have hr : ∀ rule ∈ all ++ all.reverse, rule ∈ all := by
    intro rule hm
    rw [List.mem_append, List.mem_reverse, or_self] at hm
    exact hm
  obtain ⟨hk, hb⟩ := applyAll_contained hr {} hc
  exact ⟨hc, hs, hk, hb hs⟩

end SourceStyle
