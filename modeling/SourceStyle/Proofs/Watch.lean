import SourceStyle.Rule

/-!
Watches tell what is to be told of tokens by reading them one by one. Rules that only move layout
keep tokens passing every watch that does not mind layout where they move it.
-/

namespace SourceStyle

open Token Rule

/-- A reader of tokens that refuses some of them, by what it remembers of those before. -/
structure Watch (State : Type) where
  accepts : State → Token → Prop
  next : State → Token → State
  final : State → Prop := fun _ => True

namespace Watch
variable {State : Type}

def Reads (watch : Watch State) (state : State) : List Token → Prop
  | [] => True
  | token :: rest => watch.accepts state token ∧ watch.Reads (watch.next state token) rest

/-- The tokens are accepted, and the source may end after them. -/
def Passes (watch : Watch State) (state : State) : List Token → Prop
  | [] => watch.final state
  | token :: rest => watch.accepts state token ∧ watch.Passes (watch.next state token) rest

/-- Tokens of this kind are accepted in this state and do not change it. -/
def Ignores (watch : Watch State) (kind : Token → Bool) (state : State) : Prop :=
  ∀ token, kind token = true → watch.accepts state token ∧ watch.next state token = state

/-- Respelling that is not noticed. -/
def Blind (watch : Watch State) (respell : Token → Token) : Prop :=
  ∀ state token, (watch.accepts state (respell token) ↔ watch.accepts state token) ∧
    watch.next state (respell token) = watch.next state token

/-- Space at the edges of lines is not minded, nor how comments are laid out. -/
structure Lined (watch : Watch State) (options : Options) : Prop where
  closes : ∀ {state token}, token.isLayout = true → watch.accepts state token →
    watch.final (watch.next state token) → watch.final state
  ends : ∀ {state text ending}, watch.accepts state (.whitespace text) →
    watch.accepts (watch.next state (.whitespace text)) (.linebreak ending) →
    watch.accepts state (.linebreak ending) ∧
      watch.next (watch.next state (.whitespace text)) (.linebreak ending) =
        watch.next state (.linebreak ending)
  rests : ∀ state ending, watch.Ignores isWhitespace (watch.next state (.linebreak ending))
  reindents : ∀ level, watch.Blind (reindentToken (levels options level))
  trims : ∀ state text, (watch.accepts state
        (.lineComment (String.ofList (Text.trimEnd text.toList))) ↔
      watch.accepts state (.lineComment text)) ∧
    watch.next state (.lineComment (String.ofList (Text.trimEnd text.toList))) =
      watch.next state (.lineComment text)

/-- Layout is not minded once a line has ended. -/
def Steady (watch : Watch State) : Prop :=
  ∀ state ending, watch.Ignores isLayout (watch.next state (.linebreak ending))

/-- Layout is not minded behind a blank line. -/
def SteadyBehindBlank (watch : Watch State) : Prop :=
  ∀ state first second,
    watch.accepts (watch.next state (.linebreak first)) (.linebreak second) →
    watch.Ignores isLayout (watch.next (watch.next state (.linebreak first)) (.linebreak second))

/-- Layout between a block's header and its bracket is not minded. -/
def Wraps (watch : Watch State) : Prop :=
  ∀ state header gap, endsBlockHeader header = true → (∀ token ∈ gap, token.isLayout = true) →
    watch.Reads (watch.next state header) gap ∧
      (watch.accepts (gap.foldl watch.next (watch.next state header)) (.opening .curly) ↔
        watch.accepts (watch.next state header) (.opening .curly)) ∧
      watch.next (gap.foldl watch.next (watch.next state header)) (.opening .curly) =
        watch.next (watch.next state header) (.opening .curly)

/-- Settling the last comma of a literal is not minded. -/
def Settles (watch : Watch State) (options : Options) : Prop :=
  ∀ {state : State} {inside after : List Token} {bracket : Bracket},
    watch.Passes state (inside ++ .closing bracket :: after) →
    watch.Passes state (settleComma options inside ++ .closing bracket :: after)

/-- Commas, layout and comments are accepted, and a line terminator makes all else forgotten. -/
structure Resets (watch : Watch State) : Prop where
  accepts : ∀ state token, token.isTrivia = true ∨ token = .separator .comma →
    watch.accepts state token
  forgets : ∀ first second ending,
    watch.next first (.linebreak ending) = watch.next second (.linebreak ending)

section
variable {watch : Watch State} {state : State} {first second tokens : List Token}

theorem reads_append :
    watch.Reads state (first ++ second) ↔
      watch.Reads state first ∧ watch.Reads (first.foldl watch.next state) second := by
  induction first generalizing state with
  | nil => exact ⟨fun h => ⟨trivial, h⟩, fun h => h.2⟩
  | cons token first ih =>
      rw [List.cons_append, Reads, ih, Reads, and_assoc]
      rfl

theorem passes_append :
    watch.Passes state (first ++ second) ↔
      watch.Reads state first ∧ watch.Passes (first.foldl watch.next state) second := by
  induction first generalizing state with
  | nil => exact ⟨fun h => ⟨trivial, h⟩, fun h => h.2⟩
  | cons token first ih =>
      rw [List.cons_append, Passes, ih, Reads, and_assoc]
      rfl

theorem passes_iff :
    watch.Passes state tokens ↔
      watch.Reads state tokens ∧ watch.final (tokens.foldl watch.next state) := by
  rw [← tokens.append_nil, passes_append, tokens.append_nil]
  rfl

/-- What passes a watch goes on to pass it from some state. -/
theorem Passes.suffix (h : watch.Passes state (first ++ second)) :
    ∃ there, watch.Passes there second :=
  ⟨_, (passes_append.1 h).2⟩

theorem Ignores.reads {kind : Token → Bool} (h : watch.Ignores kind state)
    (hg : ∀ token ∈ first, kind token = true) :
    watch.Reads state first ∧ first.foldl watch.next state = state := by
  induction first with
  | nil => exact ⟨trivial, rfl⟩
  | cons token first ih =>
      obtain ⟨ht, hg⟩ := List.forall_mem_cons.1 hg
      obtain ⟨ha, hn⟩ := h token ht
      rw [Reads, List.foldl_cons, hn]
      exact ⟨⟨ha, (ih hg).1⟩, (ih hg).2⟩

/-- What is ignored may be left out or put in. -/
theorem Ignores.passes_append {kind : Token → Bool} (h : watch.Ignores kind state)
    (hg : ∀ token ∈ first, kind token = true) :
    watch.Passes state (first ++ second) ↔ watch.Passes state second := by
  obtain ⟨hr, hn⟩ := h.reads hg
  rw [Watch.passes_append, hn]
  exact and_iff_right hr

theorem Ignores.whitespace (h : watch.Ignores isLayout state) : watch.Ignores isWhitespace state :=
  fun token ht => h token (by rw [isLayout, ht, Bool.true_or])

theorem Ignores.passes_skipSpace (h : watch.Ignores isWhitespace state) :
    watch.Passes state (skipSpace tokens) ↔ watch.Passes state tokens := by
  have hg : ∀ token ∈ tokens.takeWhile isWhitespace, token.isWhitespace = true :=
    List.all_eq_true.1 List.all_takeWhile
  have ha : watch.Passes state (tokens.takeWhile isWhitespace ++ skipSpace tokens) ↔
      watch.Passes state (skipSpace tokens) := h.passes_append hg
  rw [takeWhile_append_skipSpace] at ha
  exact ha.symm

theorem Ignores.passes_dropBlankLines (h : watch.Ignores isLayout state) :
    watch.Passes state (dropBlankLines tokens) ↔ watch.Passes state tokens := by
  fun_induction dropBlankLines tokens with
  | case1 tokens ending rest hs _ ih =>
      obtain ⟨ha, hn⟩ := h (.linebreak ending) rfl
      have hk : watch.Passes state (skipSpace tokens) ↔ watch.Passes state tokens :=
        h.whitespace.passes_skipSpace
      rw [ih, ← hk, hs, Passes, hn]
      exact (and_iff_right ha).symm
  | case2 => rfl

/-- Where the source may end behind layout, it may end in front of it. -/
theorem Lined.passes_of_append {options : Options} (h : watch.Lined options)
    (hg : ∀ token ∈ second, token.isLayout = true) (hp : watch.Passes state (first ++ second)) :
    watch.Passes state first := by
  have hc : ∀ {state : State} {gap : List Token}, (∀ token ∈ gap, token.isLayout = true) →
      watch.Passes state gap → watch.final state := by
    intro state gap hg hp
    induction gap generalizing state with
    | nil => exact hp
    | cons token gap ih =>
        obtain ⟨ht, hg⟩ := List.forall_mem_cons.1 hg
        exact h.closes ht hp.1 (ih hg hp.2)
  obtain ⟨hr, hp⟩ := passes_append.1 hp
  exact passes_iff.2 ⟨hr, hc hg hp⟩

theorem Blind.passes_map_append {respell : Token → Token} (h : watch.Blind respell)
    (hs : ∀ state, watch.Passes state first → watch.Passes state second)
    (hp : watch.Passes state (tokens ++ first)) :
    watch.Passes state (tokens.map respell ++ second) := by
  induction tokens generalizing state with
  | nil => exact hs state hp
  | cons token tokens ih =>
      obtain ⟨ha, hn⟩ := h state token
      refine ⟨ha.2 hp.1, ?_⟩
      rw [hn]
      exact ih hp.2

theorem Blind.passes_map {respell : Token → Token} (h : watch.Blind respell)
    (hp : watch.Passes state tokens) : watch.Passes state (tokens.map respell) := by
  have hs : watch.Passes state (tokens.map respell ++ []) :=
    h.passes_map_append (fun _ h => h) (by rwa [List.append_nil])
  rwa [List.append_nil] at hs

theorem blind_id : watch.Blind id := fun _ _ => ⟨Iff.rfl, rfl⟩

theorem Steady.behindBlank (h : watch.Steady) : watch.SteadyBehindBlank :=
  fun state first second _ => h (watch.next state (.linebreak first)) second

end

section
variable {watch : Watch State} {options : Options} {state : State} {tokens : List Token}

theorem Resets.reads (h : watch.Resets) {trivia : List Token}
    (ht : ∀ token ∈ trivia, token.isTrivia = true) (state : State) : watch.Reads state trivia := by
  induction trivia generalizing state with
  | nil => trivial
  | cons token trivia ih =>
      obtain ⟨hk, ht⟩ := List.forall_mem_cons.1 ht
      exact ⟨h.accepts state token (.inl hk), ih ht (watch.next state token)⟩

theorem Resets.foldl_eq (h : watch.Resets) {trivia : List Token}
    (hl : ∃ token ∈ trivia, token.isLinebreak = true) (first second : State) :
    trivia.foldl watch.next first = trivia.foldl watch.next second := by
  induction trivia generalizing first second with
  | nil => simp at hl
  | cons token trivia ih =>
      rw [List.foldl_cons, List.foldl_cons]
      cases token with
      | linebreak ending => rw [h.forgets first second ending]
      | _ => exact ih (by simpa [isLinebreak] using hl) _ _

theorem Resets.settles (h : watch.Resets) : watch.Settles options := by
  intro state inside after bracket hp
  rcases settleComma_cases options inside with
    he | ⟨before, trivia, ht, hl, ⟨-, hi, -, hs⟩ | ⟨-, hi, hs⟩⟩
  · rwa [he]
  · rw [hi, List.append_assoc, passes_append, passes_append] at hp
    obtain ⟨hb, -, hp⟩ := hp
    rw [hs, List.append_assoc, passes_append, List.cons_append, Passes, passes_append]
    refine ⟨hb, h.accepts _ _ (.inr rfl), h.reads ht _, ?_⟩
    rwa [h.foldl_eq hl]
  · rw [hi, List.append_assoc, passes_append, List.cons_append, Passes, passes_append] at hp
    obtain ⟨hb, -, -, hp⟩ := hp
    rw [hs, List.append_assoc, passes_append, passes_append]
    refine ⟨hb, h.reads ht _, ?_⟩
    rwa [h.foldl_eq hl]

theorem Settles.passes_trailingCommas_append (h : watch.Settles options) {after : List Token}
    (hp : watch.Passes state (tokens ++ after)) :
    watch.Passes state (trailingCommas options tokens ++ after) := by
  fun_induction trailingCommas options tokens generalizing state after with
  | case1 => exact hp
  | case2 rest split hs _ _ ihInside ihAfter =>
      rw [← Scope.append_of_splitAtClose hs] at hp
      rw [List.cons_append, List.append_assoc, List.cons_append] at hp ⊢
      obtain ⟨ha, hp⟩ := hp
      have hm := passes_append.1 hp
      exact ⟨ha, h (ihInside (passes_append.2 ⟨hm.1, hm.2.1, ihAfter hm.2.2⟩))⟩
  | case3 rest _ ih | case4 token rest _ ih => exact ⟨hp.1, ih hp.2⟩

theorem Settles.passes_trailingCommas (h : watch.Settles options)
    (hp : watch.Passes state tokens) : watch.Passes state (trailingCommas options tokens) := by
  have ha : watch.Passes state (trailingCommas options tokens ++ []) :=
    h.passes_trailingCommas_append (by rwa [List.append_nil])
  rwa [List.append_nil] at ha

theorem Wraps.passes_braces (h : watch.Wraps) (hp : watch.Passes state tokens) :
    watch.Passes state (braces options tokens) := by
  fun_induction braces options tokens generalizing state with
  | case1 => exact hp
  | case2 header rest hh body hm _ ih =>
      obtain ⟨gap, hg, rfl⟩ := eq_append_of_misplacedBody? hm
      have hb : ∀ token ∈ [braceGap options], token.isLayout = true := by
        simp [isLayout_braceGap]
      obtain ⟨-, ha, hn⟩ := h state header gap hh hg
      obtain ⟨hr, hk, hx⟩ := h state header [braceGap options] hh hb
      obtain ⟨ht, hp⟩ := hp
      obtain ⟨-, hc, hp⟩ := passes_append.1 hp
      refine ⟨ht, hr.1, hk.2 (ha.1 hc), ?_⟩
      rw [hn, ← hx] at hp
      exact ih hp
  | case3 token rest _ _ ih | case4 token rest _ ih => exact ⟨hp.1, ih hp.2⟩

theorem Steady.passes_trimScopeEdges (h : watch.Steady) (hp : watch.Passes state tokens) :
    watch.Passes state (trimScopeEdges tokens) := by
  fun_induction trimScopeEdges tokens generalizing state with
  | case1 => exact hp
  | case2 rest ending following hs _ _ ih =>
      obtain ⟨ha, hp⟩ := hp
      rw [eq_append_of_skipSpace_eq hs, passes_append] at hp
      obtain ⟨hr, hl, hp⟩ := hp
      refine ⟨ha, passes_append.2 ⟨hr, hl, ih ?_⟩⟩
      exact (h _ ending).passes_dropBlankLines.2 hp
  | case3 rest _ ih | case5 _ rest _ _ ih | case6 _ rest _ _ ih => exact ⟨hp.1, ih hp.2⟩
  | case4 ending rest _ _ ih =>
      exact ⟨hp.1, ih ((h state ending).passes_dropBlankLines.2 hp.2)⟩

theorem Steady.passes_blankLinesAtScopeEdges (h : watch.Steady) (hp : watch.Passes state tokens) :
    watch.Passes state (blankLinesAtScopeEdges options tokens) := by
  unfold blankLinesAtScopeEdges
  split
  · exact h.passes_trimScopeEdges hp
  · exact hp

theorem Steady.passes_spaceDeclarations (h : watch.Steady) {bodies : List Bool} {view : LineView}
    (hp : watch.Passes state tokens) :
    watch.Passes state (spaceDeclarations options bodies view tokens) := by
  fun_induction spaceDeclarations options bodies view tokens generalizing state with
  | case1 => exact hp
  | case2 bodies view token rest _ ending following hb _ ih =>
      obtain ⟨ha, hp⟩ := hp
      rw [eq_append_of_skipSpace_eq (eq_append_of_codeAfterBody? hb).1, passes_append] at hp
      obtain ⟨hr, hl, hp⟩ := hp
      obtain ⟨hx, hn⟩ := h ((rest.takeWhile isWhitespace).foldl watch.next
        (watch.next state token)) ending (.linebreak options.linebreak) rfl
      refine ⟨ha, passes_append.2 ⟨hr, hl, hx, ?_⟩⟩
      rw [hn]
      exact ih hp
  | case3 bodies view token rest _ _ ih | case4 bodies view token rest _ ih =>
      exact ⟨hp.1, ih hp.2⟩

theorem Steady.passes_blankLinesBetweenScopes (h : watch.Steady)
    (hp : watch.Passes state tokens) :
    watch.Passes state (blankLinesBetweenScopes options tokens) := by
  unfold blankLinesBetweenScopes
  split
  · exact h.passes_spaceDeclarations hp
  · exact hp

/-- A run of blank lines may lose all but its first. -/
theorem SteadyBehindBlank.passes_collapseBlankLines (h : watch.SteadyBehindBlank)
    (hl : watch.Lined options) (hp : watch.Passes state tokens) :
    watch.Passes state (collapseBlankLines tokens) := by
  fun_induction collapseBlankLines tokens generalizing state with
  | case1 => exact hp
  | case2 ending rest second following hs _ _ ih =>
      obtain ⟨ha, hp⟩ := hp
      have hr := hl.rests state ending
      have hg : ∀ token ∈ rest.takeWhile isWhitespace, token.isWhitespace = true :=
        List.all_eq_true.1 List.all_takeWhile
      rw [← hr.passes_skipSpace, hs] at hp
      obtain ⟨hx, hp⟩ := hp
      refine ⟨ha, (hr.passes_append hg).2 ⟨hx, ih ?_⟩⟩
      exact (h state ending second hx).passes_dropBlankLines.2 hp
  | case3 ending rest _ ih | case4 _ rest _ ih => exact ⟨hp.1, ih hp.2⟩

theorem SteadyBehindBlank.passes_consecutiveBlankLines (h : watch.SteadyBehindBlank)
    (hl : watch.Lined options) (hp : watch.Passes state tokens) :
    watch.Passes state (consecutiveBlankLines options tokens) := by
  obtain ⟨gap, hg, he⟩ := exists_collapseBlankLines_eq_append options tokens
  have hc : watch.Passes state (collapseBlankLines tokens) := h.passes_collapseBlankLines hl hp
  rw [he] at hc
  exact hl.passes_of_append hg hc

theorem Lined.passes_indentLine_append (h : watch.Lined options) (lines : IndentState)
    (line : List Token) {first second : List Token} (hi : watch.Ignores isWhitespace state)
    (hs : ∀ state, watch.Passes state first → watch.Passes state second)
    (hp : watch.Passes state (line ++ first)) :
    watch.Passes state (indentLine options lines line ++ second) := by
  obtain ⟨lead, level, respell, hl, hr, he⟩ := indentLine_eq options lines line
  have hg : ∀ token ∈ lead, token.isWhitespace = true := by
    rcases hl with rfl | rfl | rfl
    · exact isWhitespace_of_mem_lineLead
    · simp
    · exact isWhitespace_of_mem_indentationTokens
  have hb : watch.Blind respell := by
    rcases hr with rfl | rfl
    · exact blind_id
    · exact h.reindents level
  rw [← lineLead_append_lineContent line, List.append_assoc,
    hi.passes_append isWhitespace_of_mem_lineLead] at hp
  rw [he, List.append_assoc, hi.passes_append hg]
  exact hb.passes_map_append hs hp

theorem Lined.passes_indentFrom (h : watch.Lined options) {lines : IndentState}
    (hi : watch.Ignores isWhitespace state) (hp : watch.Passes state tokens) :
    watch.Passes state (indentFrom options lines tokens) := by
  fun_induction indentFrom options lines tokens generalizing state with
  | case1 lines tokens he => rwa [List.isEmpty_iff.1 he] at hp
  | case2 =>
      rename_i lines tokens _ line hd
      rw [← takeWhile_append_of_dropWhile hd] at hp
      have hk := h.passes_indentLine_append lines line hi (fun _ h => h) hp
      rwa [List.append_nil] at hk
  | case3 =>
      rename_i lines tokens _ line ending rest hd _ ih
      have hl := isLinebreak_of_dropWhile hd
      rw [← takeWhile_append_of_dropWhile hd] at hp
      refine h.passes_indentLine_append lines line hi (fun state hr => ?_) hp
      cases ending with
      | linebreak ending => exact ⟨hr.1, ih (h.rests state ending) hr.2⟩
      | _ => cases hl

theorem Lined.passes_trimLines (h : watch.Lined options) {lineStart : Bool}
    (hp : watch.Passes state tokens) : watch.Passes state (trimLines options lineStart tokens) := by
  fun_induction trimLines options lineStart tokens generalizing state with
  | case1 => exact hp
  | case2 lineStart text rest hc ih =>
      have hl : atLineEnd rest = true := by simp_all
      obtain ⟨ha, hp⟩ := hp
      refine ih ?_
      unfold atLineEnd at hl
      split at hl
      · exact h.closes rfl ha hp
      · obtain ⟨hb, hn⟩ := h.ends ha hp.1
        refine ⟨hb, ?_⟩
        rw [← hn]
        exact hp.2
      · cases hl
  | case3 lineStart text rest _ ih | case5 lineStart ending rest ih
  | case6 lineStart token rest _ _ _ ih => exact ⟨hp.1, ih hp.2⟩
  | case4 lineStart text rest ih =>
      obtain ⟨ha, hn⟩ := h.trims state text
      refine ⟨ha.2 hp.1, ?_⟩
      rw [hn]
      exact ih hp.2

end

end Watch
end SourceStyle
