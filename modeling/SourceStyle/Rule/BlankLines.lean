import SourceStyle.Options
import SourceStyle.Token

/-!
Blank lines: none at the edges of a block, at most one in a row, none at the end of a file.
-/

namespace SourceStyle.Rule

open Token

/-- The tokens of a line's beginning without the blank lines in front of it. -/
def dropBlankLines (tokens : List Token) : List Token :=
  match h : skipSpace tokens with
  | .linebreak _ :: rest =>
    have := length_of_skipSpace_eq h
    dropBlankLines rest
  | _ => tokens
termination_by tokens.length

theorem dropBlankLines_suffix (tokens : List Token) : dropBlankLines tokens <:+ tokens := by
  fun_induction dropBlankLines tokens with
  | case1 tokens ending rest hs _ ih =>
      conv => rhs; rw [eq_append_of_skipSpace_eq hs]
      exact ih.trans ((List.suffix_cons _ rest).trans (List.suffix_append _ _))
  | case2 tokens => exact List.suffix_refl tokens

theorem length_dropBlankLines_le (tokens : List Token) :
    (dropBlankLines tokens).length ≤ tokens.length :=
  (dropBlankLines_suffix tokens).length_le

theorem dropBlankLines_of_skipSpace_eq {tokens rest : List Token} {ending : Linebreak}
    (h : skipSpace tokens = .linebreak ending :: rest) :
    dropBlankLines tokens = dropBlankLines rest := by
  rw [dropBlankLines]
  split
  · rename_i hs
    rw [h] at hs
    cases hs
    rfl
  · rename_i hn
    exact (hn _ _ h).elim

theorem dropBlankLines_of_not_isLinebreak {tokens : List Token}
    (h : (skipSpace tokens).head?.any isLinebreak = false) : dropBlankLines tokens = tokens := by
  rw [dropBlankLines]
  split
  · rename_i hs
    rw [hs] at h
    cases h
  · rfl

theorem exists_skipSpace_eq_linebreak {tokens : List Token}
    (h : (skipSpace tokens).head?.any isLinebreak = true) :
    ∃ ending rest, skipSpace tokens = .linebreak ending :: rest := by
  cases hs : skipSpace tokens with
  | nil =>
      rw [hs] at h
      cases h
  | cons token rest =>
      rw [hs] at h
      cases token with
      | linebreak ending => exact ⟨ending, rest, rfl⟩
      | _ => cases h

theorem not_isLinebreak_dropBlankLines (tokens : List Token) :
    (skipSpace (dropBlankLines tokens)).head?.any isLinebreak = false := by
  fun_induction dropBlankLines tokens with
  | case1 tokens ending rest hs _ ih => exact ih
  | case2 tokens hn =>
      refine Bool.eq_false_iff.2 fun hl => ?_
      obtain ⟨ending, rest, hs⟩ := exists_skipSpace_eq_linebreak hl
      exact hn ending rest hs

/-- Whether the next code is a closing curly bracket on the same line. -/
def closesBlock (tokens : List Token) : Bool :=
  (skipSpace tokens).head? == some (.closing .curly)

theorem closesBlock_dropBlankLines_whitespace (text : String) (rest : List Token) :
    closesBlock (dropBlankLines (.whitespace text :: rest)) = closesBlock (dropBlankLines rest) := by
  have hs : skipSpace (.whitespace text :: rest) = skipSpace rest := rfl
  cases hl : (skipSpace rest).head?.any isLinebreak with
  | true =>
      obtain ⟨ending, following, he⟩ := exists_skipSpace_eq_linebreak hl
      rw [dropBlankLines_of_skipSpace_eq he, dropBlankLines_of_skipSpace_eq (hs.trans he)]
  | false =>
      rw [dropBlankLines_of_not_isLinebreak hl, dropBlankLines_of_not_isLinebreak (by rw [hs, hl])]
      rfl

/-- Removes the blank lines after opening and before closing curly brackets. -/
def trimScopeEdges (tokens : List Token) : List Token :=
  match tokens with
  | [] => []
  | .opening .curly :: rest =>
    match h : skipSpace rest with
    | .linebreak ending :: following =>
      have := length_of_skipSpace_eq h
      have := length_dropBlankLines_le following
      .opening .curly :: (rest.takeWhile isWhitespace ++
        .linebreak ending :: trimScopeEdges (dropBlankLines following))
    | _ => .opening .curly :: trimScopeEdges rest
  | .linebreak ending :: rest =>
    have := length_dropBlankLines_le rest
    if closesBlock (dropBlankLines rest) then
      .linebreak ending :: trimScopeEdges (dropBlankLines rest)
    else .linebreak ending :: trimScopeEdges rest
  | token :: rest => token :: trimScopeEdges rest
termination_by tokens.length
decreasing_by all_goals simp only [List.length_cons]; omega

theorem trimScopeEdges_opening {rest following : List Token} {first : Linebreak}
    (hs : skipSpace rest = .linebreak first :: following) :
    trimScopeEdges (.opening .curly :: rest) = .opening .curly ::
      (rest.takeWhile isWhitespace ++ .linebreak first :: trimScopeEdges (dropBlankLines following)) := by
  rw [trimScopeEdges]
  split
  · rename_i he
    rw [hs] at he
    cases he
    rfl
  · rename_i hn
    exact absurd hs (hn _ _)

/-- Removes blank lines at the edges of blocks, unless they are to stay. -/
def blankLinesAtScopeEdges (options : Options) (tokens : List Token) : List Token :=
  if options.removeBlankLines then trimScopeEdges tokens else tokens

/-- Keeps the first of every run of blank lines. -/
def collapseBlankLines (tokens : List Token) : List Token :=
  match tokens with
  | [] => []
  | .linebreak ending :: rest =>
    match h : skipSpace rest with
    | .linebreak second :: following =>
      have := length_of_skipSpace_eq h
      have := length_dropBlankLines_le following
      .linebreak ending :: (rest.takeWhile isWhitespace ++
        .linebreak second :: collapseBlankLines (dropBlankLines following))
    | _ => .linebreak ending :: collapseBlankLines rest
  | token :: rest => token :: collapseBlankLines rest
termination_by tokens.length
decreasing_by all_goals simp only [List.length_cons]; omega

theorem collapseBlankLines_linebreak {rest following : List Token} {first second : Linebreak}
    (hs : skipSpace rest = .linebreak second :: following) :
    collapseBlankLines (.linebreak first :: rest) = .linebreak first :: (rest.takeWhile isWhitespace ++
      .linebreak second :: collapseBlankLines (dropBlankLines following)) := by
  rw [collapseBlankLines]
  split
  · rename_i he
    rw [hs] at he
    cases he
    rfl
  · rename_i hn
    exact absurd hs (hn _ _)

theorem collapseBlankLines_sublist (tokens : List Token) :
    (collapseBlankLines tokens).Sublist tokens := by
  fun_induction collapseBlankLines tokens with
  | case1 => exact .slnil
  | case2 ending rest second following hs _ _ ih =>
      refine .cons_cons _ ?_
      conv => rhs; rw [eq_append_of_skipSpace_eq hs]
      exact .append_left (.cons_cons _ (ih.trans (dropBlankLines_suffix following).sublist)) _
  | case3 ending rest _ ih => exact .cons_cons _ ih
  | case4 token rest _ ih => exact .cons_cons _ ih

/-- Removes the blank lines at the end of a file, given last token first. -/
def dropBlankTail (reversed : List Token) : List Token :=
  match h : skipSpace reversed with
  | .linebreak _ :: earlier =>
    match skipSpace earlier with
    | .linebreak _ :: _ =>
      have := length_of_skipSpace_eq h
      dropBlankTail earlier
    | _ => reversed
  | _ => reversed
termination_by reversed.length

/-- What is removed at the end of a file is layout. -/
theorem eq_append_of_dropBlankTail (reversed : List Token) :
    ∃ gap, (∀ token ∈ gap, token.isLayout = true) ∧
      reversed = gap ++ dropBlankTail reversed := by
  fun_induction dropBlankTail reversed with
  | case1 reversed ending earlier h second rest hs _ ih =>
      obtain ⟨gap, hg, he⟩ := ih
      refine ⟨reversed.takeWhile isWhitespace ++ .linebreak ending :: gap, ?_, ?_⟩
      · intro token hm
        rcases List.mem_append.1 hm with hm | hm
        · exact isLayout_of_mem_takeWhile_isWhitespace token hm
        · rcases List.mem_cons.1 hm with rfl | hm
          · rfl
          · exact hg token hm
      · rw [List.append_assoc, List.cons_append, ← he, ← h, takeWhile_append_skipSpace]
  | case2 => exact ⟨[], by simp⟩
  | case3 => exact ⟨[], by simp⟩

/-- Collapses runs of blank lines and removes those at the end. -/
def consecutiveBlankLines (_options : Options) (tokens : List Token) : List Token :=
  (dropBlankTail (collapseBlankLines tokens).reverse).reverse

/-- Once runs are collapsed, only layout at the end is left out. -/
theorem exists_collapseBlankLines_eq_append (options : Options) (tokens : List Token) :
    ∃ gap, (∀ token ∈ gap, token.isLayout = true) ∧
      collapseBlankLines tokens = consecutiveBlankLines options tokens ++ gap := by
  obtain ⟨gap, hg, he⟩ := eq_append_of_dropBlankTail (collapseBlankLines tokens).reverse
  refine ⟨gap.reverse, fun token hm => hg token (List.mem_reverse.1 hm), ?_⟩
  rw [consecutiveBlankLines, ← List.reverse_append, ← he, List.reverse_reverse]

theorem consecutiveBlankLines_sublist (options : Options) (tokens : List Token) :
    (consecutiveBlankLines options tokens).Sublist tokens := by
  obtain ⟨gap, -, he⟩ := exists_collapseBlankLines_eq_append options tokens
  have hs := collapseBlankLines_sublist tokens
  rw [he] at hs
  exact (List.sublist_append_left _ gap).trans hs

end SourceStyle.Rule
