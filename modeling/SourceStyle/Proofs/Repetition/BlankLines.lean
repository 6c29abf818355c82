import SourceStyle.Proofs.Spaces

/-!
Blank lines that were removed do not come back: neither those at the edges of blocks, nor those
behind another, nor those at the end of a file.
-/

namespace SourceStyle.Rule

open Token

/-- Where a blank line stands: on a line with code, behind an opening bracket, on the line after
one, behind a line's end, or behind a blank line. -/
inductive EdgeState where
  | code
  | opened
  | openedLine
  | line
  | blank
deriving DecidableEq

/-- A watch for blank lines at the edges of blocks. -/
def edgeWatch : Watch EdgeState where
  accepts
    | .openedLine, .linebreak _ => False
    | .blank, token => token ≠ .closing .curly
    | _, _ => True
  next
    | state, .whitespace _ => state
    | .opened, .linebreak _ => .openedLine
    | .code, .linebreak _ => .line
    | _, .linebreak _ => .blank
    | _, .opening .curly => .opened
    | _, _ => .code

section
variable {state : EdgeState} {tokens : List Token}

theorem edgeWatch_deaf : edgeWatch.Deaf where
  ignores state token ht := by
    cases token with
    | whitespace text =>
        cases state <;> first | exact ⟨trivial, rfl⟩ | exact ⟨Token.noConfusion, rfl⟩
    | _ => cases ht
  closes _ _ := trivial
  lineComments state first second := by
    cases state <;> first
      | exact ⟨Iff.rfl, rfl⟩
      | exact ⟨iff_of_true Token.noConfusion Token.noConfusion, rfl⟩
  blockComments state first second := by
    cases state <;> first
      | exact ⟨Iff.rfl, rfl⟩
      | exact ⟨iff_of_true Token.noConfusion Token.noConfusion, rfl⟩

theorem edgeWatch_ignores_blank : edgeWatch.Ignores isLayout .blank := by
  intro token ht
  cases token <;> first | exact ⟨Token.noConfusion, rfl⟩ | cases ht

theorem edgeWatch_next_linebreaks (state : EdgeState) (first second : Linebreak) :
    edgeWatch.next (edgeWatch.next state (.linebreak first)) (.linebreak second) = .blank := by
  cases state <;> rfl

theorem edgeWatch_steadyBehindBlank : edgeWatch.SteadyBehindBlank := by
  intro state first second _
  rw [edgeWatch_next_linebreaks]
  exact edgeWatch_ignores_blank

/-- A blank line does not matter to code that closes no block. -/
theorem edgeWatch_passes_blank {rest : List Token} (hc : continuesWithCode rest = true)
    (h : edgeWatch.Passes .line rest) : edgeWatch.Passes .blank rest := by
  rw [← (edgeWatch_deaf.ignores _).passes_skipSpace] at h ⊢
  unfold continuesWithCode at hc
  split at hc
  · cases hc
  · cases hc
  · cases hc
  · rename_i hl hk
    cases hs : skipSpace rest with
    | nil => trivial
    | cons token following =>
        rw [hs] at h
        refine ⟨?_, ?_⟩
        · rintro rfl
          exact hk _ _ hs
        · have hp := h.2
          cases token with
          | linebreak ending => exact absurd hs (hl _ _)
          | opening bracket => cases bracket <;> exact hp
          | whitespace text => cases isWhitespace_of_skipSpace_eq hs
          | _ => exact hp

theorem edgeWatch_passes_spaceDeclarations (options : Options) {bodies : List Bool}
    {view : LineView} (h : edgeWatch.Passes state tokens) :
    edgeWatch.Passes state (spaceDeclarations options bodies view tokens) := by
  fun_induction spaceDeclarations options bodies view tokens generalizing state with
  | case1 => trivial
  | case2 bodies view token rest hc ending following hb _ ih =>
      obtain ⟨rfl, -⟩ := hc
      obtain ⟨hs, hk⟩ := eq_append_of_codeAfterBody? hb
      have hg : ∀ token ∈ rest.takeWhile isWhitespace, token.isWhitespace = true :=
        List.all_eq_true.1 List.all_takeWhile
      have hn : edgeWatch.next state (.closing .curly) = .code := by cases state <;> rfl
      obtain ⟨ha, hp⟩ := h
      rw [hn, ← (edgeWatch_deaf.ignores _).passes_skipSpace, hs] at hp
      refine ⟨ha, ?_⟩
      rw [hn, (edgeWatch_deaf.ignores _).passes_append hg]
      exact ⟨trivial, trivial, ih (edgeWatch_passes_blank hk hp.2)⟩
  | case3 bodies view token rest _ _ ih | case4 bodies view token rest _ ih => exact ⟨h.1, ih h.2⟩

theorem edgeWatch_passes_blankLinesBetweenScopes (options : Options)
    (h : edgeWatch.Passes state tokens) :
    edgeWatch.Passes state (blankLinesBetweenScopes options tokens) := by
  unfold blankLinesBetweenScopes
  split
  · exact edgeWatch_passes_spaceDeclarations options h
  · exact h

/-- What comes next does not make a blank line at an edge that the rule has not seen to. -/
def EdgeState.Fits : EdgeState → List Token → Prop
  | .code, _ => True
  | .opened, tokens | .openedLine, tokens => (skipSpace tokens).head?.any isLinebreak = false
  | .line, tokens => closesBlock (dropBlankLines tokens) = true →
    (skipSpace tokens).head?.any isLinebreak = false
  | .blank, tokens => closesBlock (dropBlankLines tokens) = false

theorem EdgeState.Fits.accepts {token : Token} {rest : List Token}
    (h : state.Fits (token :: rest)) : edgeWatch.accepts state token := by
  cases state with
  | openedLine => cases token <;> trivial
  | blank =>
      rintro rfl
      have hn : dropBlankLines (.closing .curly :: rest) = .closing .curly :: rest :=
        dropBlankLines_of_not_isLinebreak rfl
      rw [Fits, hn] at h
      cases h
  | _ => trivial

theorem EdgeState.Fits.next {token : Token} {rest : List Token} (h : state.Fits (token :: rest))
    (ho : token ≠ .opening .curly) (hl : ∀ ending, token ≠ .linebreak ending) :
    (edgeWatch.next state token).Fits rest := by
  cases token with
  | whitespace text =>
      cases state with
      | line | blank =>
          rw [Fits, closesBlock_dropBlankLines_whitespace] at h
          exact h
      | _ => exact h
  | linebreak ending => exact absurd rfl (hl ending)
  | opening bracket =>
      cases bracket with
      | curly => exact absurd rfl ho
      | _ => cases state <;> trivial
  | _ => cases state <;> trivial

theorem edgeWatch_next_opening (state : EdgeState) :
    edgeWatch.next state (.opening .curly) = .opened := by
  cases state <;> rfl

theorem edgeWatch_passes_trimScopeEdges_of_fits (h : state.Fits tokens) :
    edgeWatch.Passes state (trimScopeEdges tokens) := by
  fun_induction trimScopeEdges tokens generalizing state with
  | case1 => trivial
  | case2 rest ending following hs _ _ ih =>
      have hg : ∀ token ∈ rest.takeWhile isWhitespace, token.isWhitespace = true :=
        List.all_eq_true.1 List.all_takeWhile
      refine ⟨h.accepts, ?_⟩
      rw [edgeWatch_next_opening, (edgeWatch_deaf.ignores _).passes_append hg]
      exact ⟨trivial, ih (not_isLinebreak_dropBlankLines following)⟩
  | case3 rest hn ih =>
      refine ⟨h.accepts, ?_⟩
      rw [edgeWatch_next_opening]
      refine ih (Bool.eq_false_iff.2 fun hl => ?_)
      obtain ⟨ending, following, hs⟩ := exists_skipSpace_eq_linebreak hl
      exact hn ending following hs
  | case4 ending rest _ hc ih =>
      have hd : dropBlankLines (.linebreak ending :: rest) = dropBlankLines rest :=
        dropBlankLines_of_skipSpace_eq rfl
      refine ⟨h.accepts, ih ?_⟩
      cases state with
      | code => exact fun _ => not_isLinebreak_dropBlankLines rest
      | opened | openedLine => cases h
      | line =>
          rw [EdgeState.Fits, hd] at h
          cases h hc
      | blank =>
          rw [EdgeState.Fits, hd, hc] at h
          cases h
  | case5 ending rest _ hc ih =>
      refine ⟨h.accepts, ih ?_⟩
      cases state with
      | code => exact fun hk => absurd hk hc
      | opened | openedLine => cases h
      | line | blank => exact Bool.eq_false_iff.2 hc
  | case6 token rest ho hl ih => exact ⟨h.accepts, ih (h.next ho hl)⟩

theorem not_passes_blank (hc : closesBlock (dropBlankLines tokens) = true) :
    ¬edgeWatch.Passes .blank tokens := by
  intro h
  rw [← edgeWatch_ignores_blank.passes_dropBlankLines,
    ← (edgeWatch_deaf.ignores _).passes_skipSpace] at h
  rw [closesBlock, beq_iff_eq] at hc
  obtain ⟨rest, hs⟩ := List.head?_eq_some_iff.1 hc
  rw [hs] at h
  exact h.1 rfl

/-- On the line behind a bracket that passes, and on a line that closes a block, there is no blank
line to remove. -/
theorem dropBlankLines_eq_self {ending : Linebreak}
    (h : edgeWatch.Passes (edgeWatch.next state (.linebreak ending)) tokens)
    (hk : state = .opened ∨ closesBlock (dropBlankLines tokens) = true) :
    dropBlankLines tokens = tokens := by
  refine dropBlankLines_of_not_isLinebreak (Bool.eq_false_iff.2 fun hl => ?_)
  obtain ⟨second, rest, hs⟩ := exists_skipSpace_eq_linebreak hl
  rw [← (edgeWatch_deaf.ignores _).passes_skipSpace, hs] at h
  rcases hk with rfl | hc
  · exact h.1
  · rw [dropBlankLines_of_skipSpace_eq hs] at hc
    have hp := h.2
    rw [edgeWatch_next_linebreaks] at hp
    exact not_passes_blank hc hp

theorem trimScopeEdges_eq_self (h : edgeWatch.Passes state tokens) :
    trimScopeEdges tokens = tokens := by
  fun_induction trimScopeEdges tokens generalizing state with
  | case1 => rfl
  | case2 rest ending following hs _ _ ih =>
      have hp := h.2
      rw [edgeWatch_next_opening, ← (edgeWatch_deaf.ignores _).passes_skipSpace, hs] at hp
      have hd : dropBlankLines following = following := dropBlankLines_eq_self hp.2 (.inl rfl)
      rw [hd] at ih ⊢
      rw [ih hp.2, ← eq_append_of_skipSpace_eq hs]
  | case4 ending rest _ hc ih =>
      have hd : dropBlankLines rest = rest := dropBlankLines_eq_self h.2 (.inr hc)
      rw [hd] at ih ⊢
      rw [ih h.2]
  | case3 rest hn ih | case5 ending rest _ hc ih | case6 token rest ho hl ih => rw [ih h.2]

end

/-- A watch for blank lines behind another, and at the end. The state is the number of line
terminators since the last code. -/
def blankWatch : Watch Nat where
  accepts
    | ended, .linebreak _ => ended < 2
    | _, _ => True
  next
    | ended, .whitespace _ => ended
    | ended, .linebreak _ => ended + 1
    | _, _ => 0
  final ended := ended < 2

section
variable {ended : Nat} {tokens : List Token}

theorem blankWatch_deaf : blankWatch.Deaf where
  ignores ended token ht := by
    cases token with
    | whitespace text => exact ⟨trivial, rfl⟩
    | _ => cases ht
  closes ha _ := ha
  lineComments _ _ _ := ⟨Iff.rfl, rfl⟩
  blockComments _ _ _ := ⟨Iff.rfl, rfl⟩

/-- Where lines have ended, no other ends before code comes. -/
def FewBlanks (ended : Nat) (tokens : List Token) : Prop :=
  ended = 0 ∨ ended ≤ 2 ∧ (skipSpace tokens).head?.any isLinebreak = false

theorem FewBlanks.accepts {token : Token} {rest : List Token} (h : FewBlanks ended (token :: rest)) :
    blankWatch.accepts ended token := by
  cases token with
  | linebreak ending =>
      rcases h with rfl | ⟨-, h⟩
      · exact Nat.zero_lt_two
      · cases h
  | _ => trivial

theorem FewBlanks.next {token : Token} {rest : List Token} (h : FewBlanks ended (token :: rest))
    (hl : ∀ ending, token ≠ .linebreak ending) : FewBlanks (blankWatch.next ended token) rest := by
  cases token with
  | whitespace text => exact h
  | linebreak ending => exact absurd rfl (hl ending)
  | _ => exact .inl rfl

theorem FewBlanks.eq_zero {ending : Linebreak} {rest : List Token}
    (h : FewBlanks ended (.linebreak ending :: rest)) : ended = 0 := by
  rcases h with h | ⟨-, h⟩
  · exact h
  · cases h

theorem blankWatch_reads_collapseBlankLines (h : FewBlanks ended tokens) :
    blankWatch.Reads ended (collapseBlankLines tokens) := by
  fun_induction collapseBlankLines tokens generalizing ended with
  | case1 => trivial
  | case2 ending rest second following hs _ _ ih =>
      obtain rfl := h.eq_zero
      have hg : ∀ token ∈ rest.takeWhile isWhitespace, token.isWhitespace = true :=
        List.all_eq_true.1 List.all_takeWhile
      obtain ⟨hr, hn⟩ := (blankWatch_deaf.ignores 1).reads hg
      refine ⟨h.accepts, Watch.reads_append.2 ⟨hr, ?_⟩⟩
      rw [show blankWatch.next 0 (.linebreak ending) = 1 from rfl, hn]
      exact ⟨Nat.one_lt_two, ih (.inr ⟨Nat.le_refl 2, not_isLinebreak_dropBlankLines following⟩)⟩
  | case3 ending rest hn ih =>
      obtain rfl := h.eq_zero
      refine ⟨h.accepts, ih (.inr ⟨Nat.le_of_lt Nat.one_lt_two, Bool.eq_false_iff.2 fun hl => ?_⟩)⟩
      obtain ⟨second, following, hs⟩ := exists_skipSpace_eq_linebreak hl
      exact hn second following hs
  | case4 token rest hl ih => exact ⟨h.accepts, ih (h.next hl)⟩

/-- How many lines have ended since the last code of tokens, given last token first. -/
def endedAfter (reversed : List Token) : Nat :=
  reversed.reverse.foldl blankWatch.next 0

theorem endedAfter_cons (token : Token) (reversed : List Token) :
    endedAfter (token :: reversed) = blankWatch.next (endedAfter reversed) token := by
  rw [endedAfter, List.reverse_cons, List.foldl_append]
  rfl

theorem endedAfter_skipSpace (reversed : List Token) :
    endedAfter (skipSpace reversed) = endedAfter reversed := by
  induction reversed with
  | nil => rfl
  | cons token reversed ih =>
      cases token with
      | whitespace text =>
          rw [endedAfter_cons]
          exact ih
      | _ => rfl

theorem endedAfter_of_skipSpace_eq {reversed earlier : List Token} {ending : Linebreak}
    (h : skipSpace reversed = .linebreak ending :: earlier) :
    endedAfter reversed = endedAfter earlier + 1 := by
  rw [← endedAfter_skipSpace, h, endedAfter_cons]
  rfl

theorem endedAfter_eq_zero {reversed : List Token}
    (h : ∀ ending earlier, skipSpace reversed ≠ .linebreak ending :: earlier) :
    endedAfter reversed = 0 := by
  rw [← endedAfter_skipSpace]
  cases hs : skipSpace reversed with
  | nil => rfl
  | cons token earlier =>
      have hw := isWhitespace_of_skipSpace_eq hs
      rw [endedAfter_cons]
      cases token with
      | whitespace text => cases hw
      | linebreak ending => exact absurd hs (h ending earlier)
      | _ => rfl

theorem endedAfter_dropBlankTail_lt (reversed : List Token) :
    endedAfter (dropBlankTail reversed) < 2 := by
  fun_induction dropBlankTail reversed with
  | case1 reversed ending earlier hs second rest _ _ ih => exact ih
  | case2 reversed ending earlier hs hn =>
      rw [endedAfter_of_skipSpace_eq hs, endedAfter_eq_zero fun ending rest he => hn ending rest he]
      exact Nat.one_lt_two
  | case3 reversed hn =>
      rw [endedAfter_eq_zero fun ending earlier he => hn ending earlier he]
      exact Nat.zero_lt_two

theorem dropBlankTail_eq_self {reversed : List Token} (h : endedAfter reversed < 2) :
    dropBlankTail reversed = reversed := by
  rw [dropBlankTail]
  split
  · rename_i ending earlier hs
    split
    · rename_i second rest hr
      rw [endedAfter_of_skipSpace_eq hs, endedAfter_of_skipSpace_eq hr] at h
      omega
    · rfl
  · rfl

theorem blankWatch_passes_consecutiveBlankLines (options : Options) (tokens : List Token) :
    blankWatch.Passes 0 (consecutiveBlankLines options tokens) := by
  have hr : blankWatch.Reads 0 (collapseBlankLines tokens) :=
    blankWatch_reads_collapseBlankLines (.inl rfl)
  obtain ⟨gap, -, he⟩ := exists_collapseBlankLines_eq_append options tokens
  rw [he] at hr
  have hl := endedAfter_dropBlankTail_lt (collapseBlankLines tokens).reverse
  exact Watch.passes_iff.2 ⟨(Watch.reads_append.1 hr).1, hl⟩

theorem collapseBlankLines_eq_self (h : blankWatch.Passes ended tokens) :
    collapseBlankLines tokens = tokens := by
  fun_induction collapseBlankLines tokens generalizing ended with
  | case1 => rfl
  | case2 ending rest second following hs _ _ ih =>
      obtain ⟨ha, hp⟩ := h
      rw [← (blankWatch_deaf.ignores _).passes_skipSpace, hs] at hp
      obtain ⟨hb, hp⟩ := hp
      have hd : dropBlankLines following = following := by
        refine dropBlankLines_of_not_isLinebreak (Bool.eq_false_iff.2 fun hl => ?_)
        obtain ⟨third, more, ht⟩ := exists_skipSpace_eq_linebreak hl
        rw [← (blankWatch_deaf.ignores _).passes_skipSpace, ht] at hp
        have hc : ended + 1 + 1 < 2 := hp.1
        omega
      rw [hd] at ih ⊢
      rw [ih hp, ← eq_append_of_skipSpace_eq hs]
  | case3 ending rest hn ih | case4 token rest hl ih => rw [ih h.2]

theorem consecutiveBlankLines_eq_self (options : Options) (h : blankWatch.Passes 0 tokens) :
    consecutiveBlankLines options tokens = tokens := by
  have hf : endedAfter tokens.reverse < 2 := by
    rw [endedAfter, List.reverse_reverse]
    exact (Watch.passes_iff.1 h).2
  rw [consecutiveBlankLines, collapseBlankLines_eq_self h, dropBlankTail_eq_self hf,
    List.reverse_reverse]

end

end SourceStyle.Rule
