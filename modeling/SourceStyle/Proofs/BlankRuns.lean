import SourceStyle.Proofs.Essence.Rules
import SourceStyle.Proofs.Neighbours
import SourceStyle.Proofs.Reindentation.Lines
import SourceStyle.Proofs.Repetition.BlankLines

/-!
Runs of blank lines. Behind the first line of a file, at most one blank line of each run is left, and
none at the end; but a file may still begin with two of them, which have no line in front of them.
-/

namespace SourceStyle.Rule

open Token

/-- The lines of a file. What stands behind the last terminator is one of them, unless it is space. -/
def fileLines (tokens : List Token) : List (List Token) :=
  if (lines tokens).getLast?.any (·.all isWhitespace) then (lines tokens).dropLast else lines tokens

/-- The line with this number is blank. The first line has the number zero. -/
def BlankAt (tokens : List Token) (number : Nat) : Prop :=
  ∃ line, (fileLines tokens)[number]? = some line ∧ line.all isWhitespace = true

/-- Some line has more on it than space. -/
def SomeLineFilled (tokens : List Token) : Prop :=
  ∃ line ∈ fileLines tokens, line.all isWhitespace = false

/-! ### The lines of a file -/

section
variable {line rest tokens : List Token} {ending : Token} {number : Nat}

theorem fileLines_last (hl : ∀ token ∈ line, token.isLinebreak = false) :
    fileLines line = if line.all isWhitespace then [] else [line] := by
  rw [fileLines, lines_last hl]
  rfl

theorem fileLines_line (hl : ∀ token ∈ line, token.isLinebreak = false)
    (he : ending.isLinebreak = true) : fileLines (line ++ ending :: rest) = line :: fileLines rest := by
  have hn : lines rest ≠ [] := lines_ne_nil rest
  rw [fileLines, lines_line hl he, List.getLast?_cons_of_ne_nil hn, List.dropLast_cons_of_ne_nil hn,
    fileLines]
  split <;> rfl

theorem not_blankAt_last (hl : ∀ token ∈ line, token.isLinebreak = false) : ¬BlankAt line number := by
  rintro ⟨found, hf, hblank⟩
  rw [fileLines_last hl] at hf
  split at hf
  · cases hf
  · rename_i hn
    cases number with
    | zero =>
        cases hf
        exact hn hblank
    | succ number => cases hf

theorem blankAt_line_zero (hl : ∀ token ∈ line, token.isLinebreak = false)
    (he : ending.isLinebreak = true) :
    BlankAt (line ++ ending :: rest) 0 ↔ line.all isWhitespace = true := by
  simp [BlankAt, fileLines_line hl he]

theorem blankAt_line_succ (hl : ∀ token ∈ line, token.isLinebreak = false)
    (he : ending.isLinebreak = true) :
    BlankAt (line ++ ending :: rest) (number + 1) ↔ BlankAt rest number := by
  simp [BlankAt, fileLines_line hl he]

/-- The first line is blank if the first token that is no space is a terminator. -/
theorem blankAt_zero_iff :
    BlankAt tokens 0 ↔ ∃ ending rest, skipSpace tokens = .linebreak ending :: rest := by
  have hlast {line following : List Token} {ending : Linebreak}
      (hl : ∀ token ∈ line, token.isLinebreak = false) :
      skipSpace line ≠ .linebreak ending :: following := by
    intro hs
    have hm : .linebreak ending ∈ line := by
      rw [eq_append_of_skipSpace_eq hs]
      simp
    cases hl _ hm
  induction tokens using line_induction with
  | nil => exact iff_of_false (not_blankAt_last nofun) nofun
  | last line _ hl =>
      apply iff_of_false (not_blankAt_last hl)
      rintro ⟨ending, rest, hs⟩
      exact hlast hl hs
  | line line ending rest hl he _ =>
      rw [blankAt_line_zero hl he]
      constructor
      · intro hblank
        cases ending with
        | linebreak ending => exact ⟨ending, rest, skipSpace_append (List.all_eq_true.1 hblank) rfl rest⟩
        | _ => cases he
      · rintro ⟨found, following, hs⟩
        by_contra hn
        have hfilled : ∃ token ∈ line, token.isWhitespace = false := by
          simpa using hn
        rw [skipSpace_append_of_exists hfilled] at hs
        obtain ⟨hnil, -⟩ | ⟨more, hmore, -⟩ := List.append_eq_cons_iff.1 hs
        · exact skipSpace_ne_nil hfilled hnil
        · exact hlast hl hmore

/-- Lines behind whole lines are counted from these. -/
theorem blankAt_append {before : List Token} (h : EndsLine before) :
    BlankAt (before ++ rest) (lineNumber before + number) ↔ BlankAt rest number := by
  induction before using line_induction with
  | nil => rw [List.nil_append, lineNumber, List.countP_nil, Nat.zero_add]
  | last line hn hl => exact absurd h (not_endsLine hn hl)
  | line line ending before hl he ih =>
      rw [List.append_assoc, List.cons_append, lineNumber_line_append hl he, Nat.add_right_comm,
        blankAt_line_succ hl he]
      exact ih ((endsLine_line_iff he _ _).1 h)

theorem exists_append_of_blankAt (h : BlankAt tokens number) :
    ∃ before rest, tokens = before ++ rest ∧ EndsLine before ∧ lineNumber before = number := by
  obtain ⟨line, hline, -⟩ := h
  have hlines : (lines tokens)[number]? = some line := by
    rw [fileLines] at hline
    split at hline
    · rw [List.getElem?_dropLast] at hline
      split at hline
      · exact hline
      · cases hline
    · exact hline
  obtain ⟨before, after, he, hb, hn, -⟩ := exists_eq_append_of_line hlines
  exact ⟨before, line ++ after, he, hb, hn⟩

/-- A line without its terminator is filled by any token that is not layout. -/
theorem all_isWhitespace_eq_false_iff (hl : ∀ token ∈ line, token.isLinebreak = false) :
    line.all isWhitespace = false ↔ ∃ token ∈ line, token.isLayout = false := by
  rw [List.all_eq_false]
  refine exists_congr fun token => and_congr_right fun hm => ?_
  rw [isLayout, hl token hm, Bool.or_false, Bool.not_eq_true]

theorem someLineFilled_last (hl : ∀ token ∈ line, token.isLinebreak = false) :
    SomeLineFilled line ↔ line.all isWhitespace = false := by
  rw [SomeLineFilled, fileLines_last hl]
  split
  · rename_i hw
    exact iff_of_false nofun (by simp [hw])
  · simp

theorem someLineFilled_line (hl : ∀ token ∈ line, token.isLinebreak = false)
    (he : ending.isLinebreak = true) :
    SomeLineFilled (line ++ ending :: rest) ↔ line.all isWhitespace = false ∨ SomeLineFilled rest := by
  rw [SomeLineFilled, fileLines_line hl he, List.exists_mem_cons_iff]
  rfl

theorem someLineFilled_iff : SomeLineFilled tokens ↔ ∃ token ∈ tokens, token.isLayout = false := by
  induction tokens using line_induction with
  | nil => exact iff_of_false nofun nofun
  | last line _ hl => rw [someLineFilled_last hl, all_isWhitespace_eq_false_iff hl]
  | line line ending rest hl he ih =>
      have hlayout : ¬ending.isLayout = false := by simp [isLayout, he]
      rw [someLineFilled_line hl he, all_isWhitespace_eq_false_iff hl, ih]
      simp [or_and_right, exists_or, hlayout]

/-- The second line is counted from the terminator of a blank first line. -/
theorem blankAt_one_iff {first : Linebreak} (hs : skipSpace tokens = .linebreak first :: rest) :
    BlankAt tokens 1 ↔ BlankAt rest 0 := by
  conv => lhs; rw [eq_append_of_skipSpace_eq hs]
  exact blankAt_line_succ not_isLinebreak_of_mem_takeWhile_isWhitespace rfl

/-- The first two lines are blank if the first two tokens that are no space are terminators. -/
theorem blankAt_zero_one_iff :
    BlankAt tokens 0 ∧ BlankAt tokens 1 ↔ ∃ first second rest following,
      skipSpace tokens = .linebreak first :: rest ∧
        skipSpace rest = .linebreak second :: following := by
  constructor
  · rintro ⟨hz, ho⟩
    obtain ⟨first, rest, hs⟩ := blankAt_zero_iff.1 hz
    obtain ⟨second, following, hr⟩ := blankAt_zero_iff.1 ((blankAt_one_iff hs).1 ho)
    exact ⟨first, second, rest, following, hs, hr⟩
  · rintro ⟨first, second, rest, following, hs, hr⟩
    exact ⟨blankAt_zero_iff.2 ⟨first, rest, hs⟩,
      (blankAt_one_iff hs).2 (blankAt_zero_iff.2 ⟨second, following, hr⟩)⟩

/-- Whether the first line is blank is known where there is anything but space. -/
theorem blankAt_zero_append {first : List Token}
    (h : ∃ token ∈ first, token.isWhitespace = false) (second : List Token) :
    BlankAt (first ++ second) 0 ↔ BlankAt first 0 := by
  rw [blankAt_zero_iff, blankAt_zero_iff, skipSpace_append_of_exists h]
  cases hs : skipSpace first with
  | nil => exact absurd hs (skipSpace_ne_nil h)
  | cons token following => simp

/-- Whether the first two lines are blank is known where some line is filled. -/
theorem beginsBlank_append {first : List Token} (h : SomeLineFilled first) (second : List Token) :
    BlankAt (first ++ second) 0 ∧ BlankAt (first ++ second) 1 ↔
      BlankAt first 0 ∧ BlankAt first 1 := by
  obtain ⟨token, hm, hlayout⟩ := someLineFilled_iff.1 h
  have hw : token.isWhitespace = false := (Bool.or_eq_false_iff.1 hlayout).1
  rw [blankAt_zero_append ⟨token, hm, hw⟩]
  refine and_congr_right fun hz => ?_
  obtain ⟨ending, rest, hs⟩ := blankAt_zero_iff.1 hz
  have hrest : token ∈ rest := by
    rw [eq_append_of_skipSpace_eq hs, List.mem_append, List.mem_cons] at hm
    obtain hm | rfl | hm := hm
    · rw [isLayout_of_mem_takeWhile_isWhitespace token hm] at hlayout
      cases hlayout
    · cases hlayout
    · exact hm
  have ha : skipSpace (first ++ second) = .linebreak ending :: (rest ++ second) := by
    rw [skipSpace_append_of_exists ⟨token, hm, hw⟩, hs]
    rfl
  rw [blankAt_one_iff ha, blankAt_one_iff hs, blankAt_zero_append ⟨token, hrest, hw⟩]

end

/-! ### What collapsing leaves -/

theorem filter_isLayout_consecutiveBlankLines (options : Options) (tokens : List Token) :
    (consecutiveBlankLines options tokens).filter (!·.isLayout) = tokens.filter (!·.isLayout) := by
  refine ((consecutiveBlankLines_sublist options tokens).filter _).eq_of_length ?_
  have hc := congrArg List.length (Essence.content_consecutiveBlankLines options tokens)
  rwa [Essence.content, Essence.content, List.length_map, List.length_map] at hc

theorem someLineFilled_consecutiveBlankLines (options : Options) (tokens : List Token) :
    SomeLineFilled (consecutiveBlankLines options tokens) ↔ SomeLineFilled tokens := by
  have hf (tokens : List Token) :
      SomeLineFilled tokens ↔ ∃ token, token ∈ tokens.filter (!·.isLayout) := by
    simp [someLineFilled_iff]
  rw [hf, hf, filter_isLayout_consecutiveBlankLines]

/-- Collapsing a run keeps the first blank line, and so what tokens begin with. -/
theorem head?_skipSpace_collapseBlankLines (tokens : List Token) :
    (skipSpace (collapseBlankLines tokens)).head? = (skipSpace tokens).head? := by
  fun_induction collapseBlankLines tokens with
  | case1 | case2 | case3 => rfl
  | case4 token rest hl ih =>
      cases token with
      | whitespace text => exact ih
      | linebreak ending => exact absurd rfl (hl ending)
      | _ => rfl

/-- The first two lines are blank behind collapsing if they were before. -/
theorem beginsBlank_collapseBlankLines (tokens : List Token) :
    BlankAt (collapseBlankLines tokens) 0 ∧ BlankAt (collapseBlankLines tokens) 1 ↔
      BlankAt tokens 0 ∧ BlankAt tokens 1 := by
  rw [blankAt_zero_one_iff, blankAt_zero_one_iff]
  fun_induction collapseBlankLines tokens with
  | case1 => rfl
  | case2 ending rest second following hs _ _ _ =>
      have hg : ∀ token ∈ rest.takeWhile isWhitespace, token.isWhitespace = true :=
        List.all_eq_true.1 List.all_takeWhile
      exact iff_of_true ⟨_, _, _, _, rfl, skipSpace_append hg rfl _⟩ ⟨_, _, _, _, rfl, hs⟩
  | case3 ending rest hn _ =>
      refine iff_of_false ?_ ?_
      · rintro ⟨first, second, more, following, hs, hr⟩
        cases hs
        have hh := head?_skipSpace_collapseBlankLines rest
        rw [hr, List.head?_cons] at hh
        obtain ⟨later, hl⟩ := List.head?_eq_some_iff.1 hh.symm
        exact hn second later hl
      · rintro ⟨first, second, more, following, hs, hr⟩
        cases hs
        exact hn second following hr
  | case4 token rest hl ih =>
      cases hw : token.isWhitespace with
      | true =>
          have hskip (more : List Token) : skipSpace (token :: more) = skipSpace more :=
            List.dropWhile_cons_of_pos hw
          simp only [hskip]
          exact ih
      | false =>
          have hno (more : List Token) : ¬∃ first second rest following,
              skipSpace (token :: more) = .linebreak first :: rest ∧
                skipSpace rest = .linebreak second :: following := by
            rintro ⟨first, second, rest, following, hs, -⟩
            rw [skipSpace, List.dropWhile_cons_of_neg (by simp [hw])] at hs
            cases hs
            exact hl first rfl
          exact iff_of_false (hno _) (hno _)

/-! ### Runs of blank lines -/

section
variable {tokens : List Token} {ended : Nat}

/-- Layout ends as many lines as there are terminators in it. -/
theorem foldl_blankWatch_of_isLayout (h : ∀ token ∈ tokens, token.isLayout = true) :
    tokens.foldl blankWatch.next ended = ended + lineNumber tokens := by
  induction tokens generalizing ended with
  | nil => rfl
  | cons token tokens ih =>
      obtain ⟨ht, hr⟩ := List.forall_mem_cons.1 h
      cases token with
      | whitespace text => exact ih hr
      | linebreak ending =>
          have hnext : blankWatch.next ended (.linebreak ending) = ended + 1 := rfl
          have hone : lineNumber (.linebreak ending :: tokens) = lineNumber tokens + 1 :=
            List.countP_cons_of_pos rfl
          rw [List.foldl_cons, hnext, ih hr, hone]
          omega
      | _ => cases ht

/-- Behind a line's end no two blank lines follow in tokens that pass. -/
theorem not_blankAt_of_passes (hended : ended ≠ 0) (h : blankWatch.Passes ended tokens) :
    ¬(BlankAt tokens 0 ∧ BlankAt tokens 1) := by
  rw [blankAt_zero_one_iff]
  rintro ⟨first, second, rest, following, hs, hr⟩
  rw [← (blankWatch_deaf.ignores _).passes_skipSpace, hs] at h
  obtain ⟨-, hp⟩ := h
  rw [← (blankWatch_deaf.ignores _).passes_skipSpace, hr] at hp
  have hlt : ended + 1 < 2 := hp.1
  omega

/-- Behind the first line of tokens that pass, no two adjacent lines are blank. -/
theorem not_blankAt_succ_of_passes {number : Nat} (hn : number ≠ 0)
    (h : blankWatch.Passes 0 tokens) : ¬(BlankAt tokens number ∧ BlankAt tokens (number + 1)) := by
  rintro ⟨hb, hb'⟩
  obtain ⟨before, rest, rfl, he, rfl⟩ := exists_append_of_blankAt hb
  obtain ⟨front, last, rfl⟩ : ∃ front last, before = front ++ [last] := by
    refine before.eq_nil_or_concat'.resolve_left ?_
    rintro rfl
    exact hn rfl
  have hlast : last.isLinebreak = true := he last List.getLast?_concat
  obtain ⟨-, hp⟩ := Watch.passes_append.1 h
  refine not_blankAt_of_passes ?_ hp ⟨(blankAt_append he).1 hb, (blankAt_append he).1 hb'⟩
  rw [List.foldl_append]
  cases last with
  | linebreak ending => exact Nat.succ_ne_zero _
  | _ => cases hlast

/-- Few lines end in tokens that pass and have nothing but layout. -/
theorem lineNumber_lt_of_passes (h : blankWatch.Passes ended tokens) (hn : ¬SomeLineFilled tokens) :
    ended + lineNumber tokens < 2 := by
  have hlayout : ∀ token ∈ tokens, token.isLayout = true := by
    simpa [someLineFilled_iff] using hn
  have hfinal : tokens.foldl blankWatch.next ended < 2 := (Watch.passes_iff.1 h).2
  rwa [foldl_blankWatch_of_isLayout hlayout] at hfinal

/-- In tokens that pass, blank lines at the beginning have something behind them. -/
theorem someLineFilled_of_passes (h : blankWatch.Passes 0 tokens) (hz : BlankAt tokens 0)
    (ho : BlankAt tokens 1) : SomeLineFilled tokens := by
  by_contra hn
  have hfew := lineNumber_lt_of_passes h hn
  obtain ⟨first, second, rest, following, hs, hr⟩ := blankAt_zero_one_iff.1 ⟨hz, ho⟩
  have hspace (rest : List Token) := @not_isLinebreak_of_mem_takeWhile_isWhitespace rest
  rw [eq_append_of_skipSpace_eq hs, lineNumber_line_append (hspace tokens) rfl,
    eq_append_of_skipSpace_eq hr, lineNumber_line_append (hspace rest) rfl] at hfew
  omega

/-- Where a line has ended, tokens that pass have no lines if none is filled. -/
theorem fileLines_eq_nil_of_passes (hended : ended ≠ 0) (h : blankWatch.Passes ended tokens)
    (hn : ¬SomeLineFilled tokens) : fileLines tokens = [] := by
  have hfew := lineNumber_lt_of_passes h hn
  have hl : ∀ token ∈ tokens, token.isLinebreak = false := by
    have hzero : lineNumber tokens = 0 := by omega
    simpa [lineNumber, List.countP_eq_zero] using hzero
  rw [someLineFilled_last hl, Bool.not_eq_false] at hn
  rw [fileLines_last hl, if_pos hn]

theorem exists_getLast?_fileLines (h : blankWatch.Passes ended tokens) (hf : SomeLineFilled tokens) :
    ∃ last, (fileLines tokens).getLast? = some last ∧ last.all isWhitespace = false := by
  induction tokens using line_induction generalizing ended with
  | nil => exact absurd hf nofun
  | last line _ hl =>
      rw [someLineFilled_last hl] at hf
      refine ⟨line, ?_, hf⟩
      rw [fileLines_last hl, hf]
      rfl
  | line line ending rest hl he ih =>
      obtain ⟨-, -, hp⟩ := Watch.passes_append.1 h
      rw [fileLines_line hl he, List.getLast?_cons]
      by_cases hr : SomeLineFilled rest
      · obtain ⟨last, hlast, hfilled⟩ := ih hp hr
        exact ⟨last, by rw [hlast]; rfl, hfilled⟩
      · refine ⟨line, ?_, ((someLineFilled_line hl he).1 hf).resolve_right hr⟩
        cases ending with
        | linebreak ending => rw [fileLines_eq_nil_of_passes (Nat.succ_ne_zero _) hp hr]; rfl
        | _ => cases he

/-- The first two lines stay blank if they are and something is behind them. -/
theorem beginsBlank_consecutiveBlankLines (options : Options) (tokens : List Token) :
    BlankAt (consecutiveBlankLines options tokens) 0 ∧
        BlankAt (consecutiveBlankLines options tokens) 1 ↔
      (BlankAt tokens 0 ∧ BlankAt tokens 1) ∧ SomeLineFilled tokens := by
  obtain ⟨gap, -, he⟩ := exists_collapseBlankLines_eq_append options tokens
  have hp := blankWatch_passes_consecutiveBlankLines options tokens
  rw [← beginsBlank_collapseBlankLines tokens, he,
    ← someLineFilled_consecutiveBlankLines options tokens]
  constructor
  · intro hb
    have hf := someLineFilled_of_passes hp hb.1 hb.2
    exact ⟨(beginsBlank_append hf gap).2 hb, hf⟩
  · rintro ⟨hb, hf⟩
    exact (beginsBlank_append hf gap).1 hb

/-- Blank lines are collapsed but for two at the beginning of a file. Behind the first line no two
adjacent lines are blank; the first two are if they were before and some line is filled. The last
line is filled if any line is. Nothing but layout is left out. -/
theorem consecutiveBlankLines_lines (options : Options) (tokens : List Token) :
    (∀ number, BlankAt (consecutiveBlankLines options tokens) number ∧
        BlankAt (consecutiveBlankLines options tokens) (number + 1) ↔
      number = 0 ∧ BlankAt tokens 0 ∧ BlankAt tokens 1 ∧ SomeLineFilled tokens) ∧
    (SomeLineFilled (consecutiveBlankLines options tokens) →
      ∃ last, (fileLines (consecutiveBlankLines options tokens)).getLast? = some last ∧
        last.all isWhitespace = false) ∧
    (consecutiveBlankLines options tokens).Sublist tokens ∧
    (consecutiveBlankLines options tokens).filter (!·.isLayout) =
      tokens.filter (!·.isLayout) := by
  have hp := blankWatch_passes_consecutiveBlankLines options tokens
  refine ⟨fun number => ?_, exists_getLast?_fileLines hp, consecutiveBlankLines_sublist options tokens,
    filter_isLayout_consecutiveBlankLines options tokens⟩
  cases number with
  | zero => rw [beginsBlank_consecutiveBlankLines, and_assoc, eq_self, true_and]
  | succ number =>
      exact iff_of_false (not_blankAt_succ_of_passes (Nat.succ_ne_zero number) hp)
        fun h => absurd h.1 (Nat.succ_ne_zero number)

/-- Two blank lines at the beginning of a file, with a line behind them, both stay. -/
theorem consecutiveBlankLines_at_beginning :
    ¬∀ options tokens number, ¬(BlankAt (consecutiveBlankLines options tokens) number ∧
      BlankAt (consecutiveBlankLines options tokens) (number + 1)) := by
  intro h
  have hkept : consecutiveBlankLines {} [.linebreak .lf, .linebreak .lf, .identifier "x"] =
      [.linebreak .lf, .linebreak .lf, .identifier "x"] := by cbv
  have hn := h {} [.linebreak .lf, .linebreak .lf, .identifier "x"] 0
  rw [hkept] at hn
  exact hn ⟨⟨[], by cbv, rfl⟩, ⟨[], by cbv, rfl⟩⟩

end

end SourceStyle.Rule
