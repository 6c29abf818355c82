import SourceStyle.Proofs.Neighbours
import SourceStyle.Rule.Ranges

/-!
Ranges between two operands are spaced as the options want them, and stay so. The rule changes space
only, so the tokens it leaves hold the same ranges as before, and it finds them spaced already.
-/

namespace SourceStyle.Rule

open Token

/-- The space on either side of a range operator between two operands. -/
def rangeSpace (options : Options) : List Token :=
  if options.spacedRanges then [.whitespace " "] else []

/-- The space around some range operators between two operands has given way to what the options
put there. -/
inductive Respaced (options : Options) : List Token → List Token → Prop
  | nil : Respaced options [] []
  | keep (token : Token) {tokens left : List Token} (h : Respaced options tokens left) :
      Respaced options (token :: tokens) (token :: left)
  | respace {first second : Token} {text : String} {before after tokens left : List Token}
      (he : isOperandEnd first = true) (hb : ∀ token ∈ before, token.isWhitespace = true)
      (hr : isRangeOperator text = true) (ha : ∀ token ∈ after, token.isWhitespace = true)
      (hs : isOperandStart second = true)
      (h : Respaced options (second :: tokens) (second :: left)) :
      Respaced options (first :: (before ++ .operator text :: (after ++ second :: tokens)))
        (first :: (rangeSpace options ++ .operator text :: (rangeSpace options ++ second :: left)))

/-- Every range between two operands has the space around it that the options want. -/
def RangesSpaced (options : Options) (tokens : List Token) : Prop :=
  ∀ front first rest text following, tokens = front ++ first :: rest → isOperandEnd first = true →
    rangeAhead? rest = some (text, following) → rest = spacedRange options text ++ following

section
variable {options : Options} {first second token : Token} {tokens rest following : List Token}
  {text : String}

theorem spacedRange_append (options : Options) (text : String) (following : List Token) :
    spacedRange options text ++ following =
      rangeSpace options ++ .operator text :: (rangeSpace options ++ following) := by
  unfold spacedRange rangeSpace
  split <;> rfl

theorem isWhitespace_of_mem_rangeSpace (h : token ∈ rangeSpace options) :
    token.isWhitespace = true := by
  unfold rangeSpace at h
  split at h
  · rw [List.mem_singleton.1 h]
    rfl
  · cases h

theorem isWhitespace_of_isOperandStart (h : isOperandStart token = true) :
    token.isWhitespace = false := by
  cases token <;> first | rfl | cases h

theorem skipSpace_of_isOperandStart (h : isOperandStart token = true) (rest : List Token) :
    skipSpace (token :: rest) = token :: rest :=
  List.dropWhile_cons_of_neg (Bool.eq_false_iff.1 (isWhitespace_of_isOperandStart h))

/-- A range ahead is space, its operator, space and its second operand, one after the other. -/
theorem exists_of_rangeAhead? (h : rangeAhead? rest = some (text, following)) :
    ∃ before after second more, rest = before ++ .operator text :: (after ++ second :: more) ∧
      following = second :: more ∧ isRangeOperator text = true ∧ isOperandStart second = true ∧
      (∀ token ∈ before, token.isWhitespace = true) ∧
      ∀ token ∈ after, token.isWhitespace = true := by
  obtain ⟨behind, hb, rfl, hr, hs⟩ := eq_of_rangeAhead? h
  obtain ⟨second, hh, hs⟩ := Option.any_eq_true _ _ |>.1 hs
  obtain ⟨more, hm⟩ := List.head?_eq_some_iff.1 hh
  refine ⟨rest.takeWhile isWhitespace, behind.takeWhile isWhitespace, second, more, ?_, hm, hr, hs,
    List.all_eq_true.1 List.all_takeWhile, List.all_eq_true.1 List.all_takeWhile⟩
  rw [← eq_append_of_skipSpace_eq hm]
  exact eq_append_of_skipSpace_eq hb

/-- Behind space, a range operator in front of an operand is a range ahead. -/
theorem rangeAhead?_append {before : List Token} (hb : ∀ token ∈ before, token.isWhitespace = true)
    (hr : isRangeOperator text = true) (hs : (skipSpace rest).head?.any isOperandStart = true) :
    rangeAhead? (before ++ .operator text :: rest) = some (text, skipSpace rest) := by
  rw [rangeAhead?, skipSpace_append hb rfl]
  simp [hr, hs]

/-! ### What the rule leaves alone -/

theorem head?_ranges (options : Options) (tokens : List Token) :
    (ranges options tokens).head? = tokens.head? := by
  fun_induction ranges options tokens <;> rfl

theorem ranges_of_not_isOperandEnd (h : isOperandEnd token = false) (rest : List Token) :
    ranges options (token :: rest) = token :: ranges options rest := by
  apply ranges_of_none
  intro he
  rw [h] at he
  cases he

theorem skipSpace_ranges (options : Options) (tokens : List Token) :
    skipSpace (ranges options tokens) = ranges options (skipSpace tokens) := by
  induction tokens with
  | nil => simp [skipSpace, ranges]
  | cons token rest ih =>
      by_cases hw : token.isWhitespace = true
      · have he : isOperandEnd token = false := by
          cases token <;> first | rfl | cases hw
        rw [ranges_of_not_isOperandEnd he, skipSpace, List.dropWhile_cons_of_pos hw, skipSpace,
          List.dropWhile_cons_of_pos hw]
        exact ih
      · obtain ⟨more, hm⟩ := List.head?_eq_some_iff.1
          ((head?_ranges options (token :: rest)).trans List.head?_cons)
        have hs : skipSpace (token :: rest) = token :: rest := List.dropWhile_cons_of_neg hw
        rw [hs, hm]
        exact List.dropWhile_cons_of_neg hw

/-- The range ahead is the same one, and the rule goes on behind it. -/
theorem rangeAhead?_ranges (options : Options) (tokens : List Token) :
    rangeAhead? (ranges options tokens) =
      (rangeAhead? tokens).map fun range => (range.1, ranges options range.2) := by
  rw [rangeAhead?, rangeAhead?, skipSpace_ranges]
  cases hs : skipSpace tokens with
  | nil =>
      rw [ranges]
      rfl
  | cons token rest =>
      cases token with
      | operator text =>
          rw [ranges_of_not_isOperandEnd rfl]
          dsimp only
          rw [skipSpace_ranges, head?_ranges]
          split <;> rfl
      | _ =>
          obtain ⟨more, hm⟩ := List.head?_eq_some_iff.1
            ((head?_ranges options _).trans List.head?_cons)
          rw [hm]
          rfl

/-! ### Spaced ranges -/

theorem rangesSpaced_cons_iff :
    RangesSpaced options (token :: rest) ↔
      (isOperandEnd token = true → ∀ text following, rangeAhead? rest = some (text, following) →
        rest = spacedRange options text ++ following) ∧ RangesSpaced options rest := by
  constructor
  · intro h
    refine ⟨fun he text following hr => h [] token rest text following rfl he hr, ?_⟩
    intro front first behind text following ht
    exact h (token :: front) first behind text following (congrArg (token :: ·) ht)
  · rintro ⟨ht, hrest⟩ front first behind text following heq
    cases front with
    | nil =>
        obtain ⟨rfl, rfl⟩ := List.cons.inj heq
        intro he hr
        exact ht he text following hr
    | cons other front => exact hrest front first behind text following (List.cons.inj heq).2

theorem rangesSpaced_cons_of_not (h : isOperandEnd token = false) :
    RangesSpaced options (token :: rest) ↔ RangesSpaced options rest := by
  rw [rangesSpaced_cons_iff, h]
  exact and_iff_right nofun

theorem rangesSpaced_spacedRange_append :
    RangesSpaced options (spacedRange options text ++ following) ↔
      RangesSpaced options following := by
  unfold spacedRange
  split
  · exact ((rangesSpaced_cons_of_not rfl).trans (rangesSpaced_cons_of_not rfl)).trans
      (rangesSpaced_cons_of_not rfl)
  · exact rangesSpaced_cons_of_not rfl

theorem rangeAhead?_spacedRange_append (hr : isRangeOperator text = true)
    (hs : following.head?.any isOperandStart = true) :
    rangeAhead? (spacedRange options text ++ following) = some (text, following) := by
  obtain ⟨second, hh, hs⟩ := Option.any_eq_true _ _ |>.1 hs
  obtain ⟨more, rfl⟩ := List.head?_eq_some_iff.1 hh
  have hg : ∀ token ∈ rangeSpace options, token.isWhitespace = true :=
    fun token => isWhitespace_of_mem_rangeSpace
  have hk : skipSpace (rangeSpace options ++ second :: more) = second :: more :=
    skipSpace_append hg (isWhitespace_of_isOperandStart hs) more
  rw [spacedRange_append, rangeAhead?_append hg hr, hk]
  rw [hk]
  exact hs

/-- The rule sees to every range. -/
theorem rangesSpaced_ranges (options : Options) (tokens : List Token) :
    RangesSpaced options (ranges options tokens) := by
  fun_induction ranges options tokens with
  | case1 =>
      intro front first rest text following h
      simp at h
  | case2 token rest he text following hr _ ih =>
      obtain ⟨behind, -, -, ho, hs⟩ := eq_of_rangeAhead? hr
      rw [rangesSpaced_cons_iff, rangesSpaced_spacedRange_append]
      refine ⟨?_, ih⟩
      intro _ other more hm
      rw [← head?_ranges options] at hs
      rw [rangeAhead?_spacedRange_append ho hs] at hm
      cases hm
      rfl
  | case3 token rest he hr ih =>
      rw [rangesSpaced_cons_iff]
      refine ⟨?_, ih⟩
      intro _ text following hm
      rw [rangeAhead?_ranges, hr] at hm
      cases hm
  | case4 token rest he ih =>
      rw [rangesSpaced_cons_of_not (Bool.eq_false_iff.2 he)]
      exact ih

theorem RangesSpaced.ranges_eq (h : RangesSpaced options tokens) : ranges options tokens = tokens := by
  fun_induction ranges options tokens with
  | case1 => rfl
  | case2 token rest he text following hr _ ih =>
      obtain ⟨ht, hrest⟩ := rangesSpaced_cons_iff.1 h
      have heq := ht he text following hr
      rw [heq, rangesSpaced_spacedRange_append] at hrest
      rw [ih hrest, ← heq]
  | case3 token rest he hr ih => rw [ih (rangesSpaced_cons_iff.1 h).2]
  | case4 token rest he ih => rw [ih (rangesSpaced_cons_iff.1 h).2]

/-- What stands around a spaced range operator between two operands. -/
theorem RangesSpaced.around (h : RangesSpaced options tokens) {before after : List Token}
    (ht : tokens = before ++ .operator text :: after) (hr : isRangeOperator text = true)
    (hf : lastBut? isWhitespace before = some first) (he : isOperandEnd first = true)
    (hn : (skipSpace after).head? = some second) (hs : isOperandStart second = true) :
    ∃ front rest, before = front ++ first :: rangeSpace options ∧
      after = rangeSpace options ++ second :: rest := by
  obtain ⟨front, gap, rfl, -, hg⟩ := lastBut?_eq_some_iff.1 hf
  obtain ⟨rest, hk⟩ := List.head?_eq_some_iff.1 hn
  rw [List.append_assoc, List.cons_append] at ht
  have ha : rangeAhead? (gap ++ .operator text :: after) = some (text, skipSpace after) :=
    rangeAhead?_append hg hr (by rw [hn, Option.any_some, hs])
  have heq := h front first _ text _ ht he ha
  rw [spacedRange_append, hk] at heq
  have hspace := congrArg (List.takeWhile isWhitespace) heq
  have hspaced : ∀ token ∈ rangeSpace options, token.isWhitespace = true :=
    fun token => isWhitespace_of_mem_rangeSpace
  have hop : ¬isWhitespace (.operator text) = true := Bool.false_ne_true
  rw [List.takeWhile_append_of_pos hg, List.takeWhile_append_of_pos hspaced,
    List.takeWhile_cons_of_neg hop, List.takeWhile_cons_of_neg hop, List.append_nil,
    List.append_nil] at hspace
  subst hspace
  exact ⟨front, rest, rfl, (List.cons.inj (List.append_cancel_left heq)).2⟩

theorem respaced_ranges (options : Options) (tokens : List Token) :
    Respaced options tokens (ranges options tokens) := by
  fun_induction ranges options tokens with
  | case1 => exact .nil
  | case2 token rest he text following hr _ ih =>
      obtain ⟨before, after, second, more, rfl, rfl, ho, hs, hb, ha⟩ := exists_of_rangeAhead? hr
      obtain ⟨left, hl⟩ := List.head?_eq_some_iff.1
        ((head?_ranges options (second :: more)).trans List.head?_cons)
      rw [hl] at ih
      rw [hl, spacedRange_append]
      exact .respace he hb ho ha hs ih
  | case3 token rest _ _ ih | case4 token rest _ ih => exact .keep token ih

/-- Every range operator between two operands has the space on either side that the options want:
one blank if ranges are spaced, and none otherwise. Only space around such operators changes, and
ranges that were spaced are left alone afterwards. -/
theorem ranges_evenly_spaced (options : Options) (tokens : List Token) :
    Respaced options tokens (ranges options tokens) ∧
    (∀ before text after, ranges options tokens = before ++ .operator text :: after →
      isRangeOperator text = true →
      ∀ first, lastBut? isWhitespace before = some first → isOperandEnd first = true →
      ∀ second, (skipSpace after).head? = some second → isOperandStart second = true →
        ∃ front rest, before = front ++ first :: rangeSpace options ∧
          after = rangeSpace options ++ second :: rest) ∧
    ranges options (ranges options tokens) = ranges options tokens := by
  have hs : RangesSpaced options (ranges options tokens) := rangesSpaced_ranges options tokens
  refine ⟨respaced_ranges options tokens, ?_, hs.ranges_eq⟩
  intro before text after ht hr first hf he second hn hk
  exact hs.around ht hr hf he hn hk

example : ranges { spacedRanges := true }
    [.identifier "a", .operator "...", .whitespace " ", .whitespace " ", .number "1",
      .operator "..<", .identifier "b", .operator "...", .closing .square] =
    [.identifier "a", .whitespace " ", .operator "...", .whitespace " ", .number "1",
      .whitespace " ", .operator "..<", .whitespace " ", .identifier "b", .operator "...",
      .closing .square] := by
  cbv

end

end SourceStyle.Rule
