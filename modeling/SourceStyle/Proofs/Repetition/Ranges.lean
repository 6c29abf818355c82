import SourceStyle.Proofs.RangeSpacing
import SourceStyle.Proofs.Spaces

/-!
Ranges stay spaced. What the rule for ranges leaves passes a watch for ranges that are spaced in
another way, every later rule keeps it passing, and tokens that pass are left alone by the rule.
-/

namespace SourceStyle.Rule

open Token

/-- Where a range stands: behind no operand, behind an operand and space, or behind the operator
too. Space is remembered as its text. -/
inductive RangeState where
  | idle
  | ended (gap : Option String)
  | ranged (before after : Option String)

def widen (gap : Option String) (text : String) : Option String :=
  some (gap.elim text (· ++ text))

def RangeState.after : RangeState → Token → RangeState
  | .ended gap, .whitespace text => .ended (widen gap text)
  | .ended gap, .operator text => if isRangeOperator text then .ranged gap none else .idle
  | .ranged before after, .whitespace text => .ranged before (widen after text)
  | _, _ => .idle

/-- The space that the options want on either side of a range operator. -/
def rangeGap (options : Options) : Option String :=
  if options.spacedRanges then some " " else none

/-- A watch for ranges between two operands that are spaced in another way. -/
def rangeWatch (options : Options) : Watch RangeState where
  accepts
    | .ranged before after, token =>
      isOperandStart token = true → before = rangeGap options ∧ after = rangeGap options
    | _, _ => True
  next state token := if isOperandEnd token then .ended none else state.after token

section
variable {options : Options} {state : RangeState} {tokens : List Token}

theorem rangeWatch_accepts {token : Token} (h : isOperandStart token = false)
    (state : RangeState) : (rangeWatch options).accepts state token := by
  cases state with
  | ranged before after =>
      intro hs
      rw [h] at hs
      cases hs
  | _ => trivial

theorem rangeWatch_next_linebreak (state : RangeState) (ending : Linebreak) :
    (rangeWatch options).next state (.linebreak ending) = .idle := by
  cases state <;> rfl

theorem rangeWatch_steady : (rangeWatch options).Steady := by
  intro state ending token ht
  rw [rangeWatch_next_linebreak]
  exact ⟨trivial, by cases token <;> first | rfl | cases ht⟩

theorem rangeWatch_resets : (rangeWatch options).Resets where
  accepts state token ht := by
    refine rangeWatch_accepts ?_ state
    rcases ht with ht | rfl
    · cases token <;> first | rfl | cases ht
    · rfl
  forgets first second ending := by
    rw [rangeWatch_next_linebreak, rangeWatch_next_linebreak]

theorem rangeWatch_wraps : (rangeWatch options).Wraps := by
  intro state header gap _ hg
  refine ⟨rangeWatch_resets.reads (fun token hm => by rw [isTrivia, hg token hm, Bool.true_or]) _,
    ?_, ?_⟩
  · exact iff_of_true (rangeWatch_accepts rfl _) (rangeWatch_accepts rfl _)
  · have hn : ∀ state, (rangeWatch options).next state (.opening .curly) = .idle := by
      intro state
      cases state <;> rfl
    rw [hn, hn]

theorem rangeWatch_lined : (rangeWatch options).Lined options where
  closes _ _ _ := trivial
  ends _ _ := by
    refine ⟨rangeWatch_accepts rfl _, ?_⟩
    rw [rangeWatch_next_linebreak, rangeWatch_next_linebreak]
  rests state ending := (rangeWatch_steady state ending).whitespace
  reindents _ state token := by
    cases token with
    | blockComment text => cases state <;> exact ⟨Iff.rfl, rfl⟩
    | _ => exact ⟨Iff.rfl, rfl⟩
  trims state text := by cases state <;> exact ⟨Iff.rfl, rfl⟩

theorem widen_widen (gap : Option String) (text following : String) :
    widen (widen gap text) following = widen gap (text ++ following) := by
  cases gap with
  | none => rfl
  | some before => simp [widen, String.append_assoc]

theorem rangeWatch_merges : (rangeWatch options).Merges := by
  intro state text following _ _
  refine ⟨rangeWatch_accepts rfl state, ?_⟩
  cases state with
  | idle => rfl
  | ended gap => exact congrArg RangeState.ended (widen_widen gap text following).symm
  | ranged before after =>
      exact congrArg (RangeState.ranged before) (widen_widen after text following).symm

theorem rangeWatch_recaseHex : (rangeWatch options).Blind (recaseHex options) := by
  intro state token
  cases token with
  | number text =>
      rw [recaseHex]
      split <;> cases state <;> exact ⟨Iff.rfl, rfl⟩
  | _ => exact ⟨Iff.rfl, rfl⟩

/-- What comes next does not complete a range that the rule has not seen to. -/
def RangeState.Fits (options : Options) : RangeState → List Token → Prop
  | .idle, _ => True
  | .ended _, tokens => rangeAhead? tokens = none
  | .ranged before after, tokens =>
    before = rangeGap options ∧ after = rangeGap options ∧
        tokens.head?.any isOperandStart = true ∨
      (skipSpace tokens).head?.any isOperandStart = false

theorem RangeState.Fits.accepts {token : Token} {rest : List Token}
    (h : state.Fits options (token :: rest)) : (rangeWatch options).accepts state token := by
  cases state with
  | ranged before after =>
      intro hs
      rcases h with ⟨hb, ha, -⟩ | h
      · exact ⟨hb, ha⟩
      · rw [skipSpace_of_isOperandStart hs, List.head?_cons, Option.any_some, hs] at h
        cases h
  | _ => trivial

theorem RangeState.Fits.after {token : Token} {rest : List Token}
    (h : state.Fits options (token :: rest)) : (state.after token).Fits options rest := by
  cases state with
  | idle => trivial
  | ended gap =>
      cases token with
      | whitespace text => exact h
      | operator text =>
          rw [RangeState.after]
          split
          · rename_i hr
            refine .inr (Bool.eq_false_iff.2 fun hs => ?_)
            have hn : rangeAhead? (.operator text :: rest) = some (text, skipSpace rest) := by
              rw [rangeAhead?, show skipSpace (.operator text :: rest) = .operator text :: rest from rfl]
              simp [hr, hs]
            rw [Fits, hn] at h
            cases h
          · trivial
      | _ => trivial
  | ranged before after =>
      cases token with
      | whitespace text =>
          rcases h with ⟨-, -, h⟩ | h
          · cases h
          · exact .inr h
      | _ => trivial

theorem rangeWatch_next_operator {gap : Option String} {text : String}
    (h : isRangeOperator text = true) :
    (rangeWatch options).next (.ended gap) (.operator text) = .ranged gap none :=
  if_pos h

theorem rangeWatch_passes_ranges_of_fits (h : state.Fits options tokens) :
    (rangeWatch options).Passes state (ranges options tokens) := by
  fun_induction ranges options tokens generalizing state with
  | case1 => trivial
  | case2 token rest ht text following hr _ ih =>
      obtain ⟨after, -, -, ho, hf⟩ := eq_of_rangeAhead? hr
      have hn : (rangeWatch options).next state token = .ended none := if_pos ht
      have hs : (RangeState.ranged (rangeGap options) (rangeGap options)).Fits options following :=
        .inl ⟨rfl, rfl, hf⟩
      refine ⟨h.accepts, ?_⟩
      rw [hn, spacedRange]
      split
      · rename_i hg
        rw [rangeGap, if_pos hg] at hs
        refine ⟨trivial, trivial, rangeWatch_accepts rfl _, ?_⟩
        rw [show (rangeWatch options).next (.ended none) (.whitespace " ") = .ended (some " ") from rfl,
          rangeWatch_next_operator ho]
        exact ih hs
      · rename_i hg
        rw [rangeGap, if_neg hg] at hs
        refine ⟨trivial, ?_⟩
        rw [rangeWatch_next_operator ho]
        exact ih hs
  | case3 token rest ht hr ih =>
      have hn : (rangeWatch options).next state token = .ended none := if_pos ht
      refine ⟨h.accepts, ?_⟩
      rw [hn]
      exact ih hr
  | case4 token rest ht ih =>
      have hn : (rangeWatch options).next state token = state.after token := if_neg ht
      refine ⟨h.accepts, ?_⟩
      rw [hn]
      exact ih h.after

theorem rangeWatch_passes_ranges (options : Options) (tokens : List Token) :
    (rangeWatch options).Passes .idle (ranges options tokens) :=
  rangeWatch_passes_ranges_of_fits trivial

/-- A name in place of an empty tuple, or the other way round, ends an operand as well. -/
theorem rangeWatch_passes_voidTypes (h : (rangeWatch options).Passes state tokens) :
    (rangeWatch options).Passes state (voidTypes options tokens) := by
  have hi : (rangeWatch options).Ignores isWhitespace .idle := by
    intro token ht
    cases token <;> first | exact ⟨trivial, rfl⟩ | cases ht
  fun_induction voidTypes options tokens generalizing state with
  | case1 => exact h
  | case2 rest after ha _ ih =>
      have hn : (rangeWatch options).next state (.operator "->") = .idle := by
        cases state <;> rfl
      obtain ⟨hk, hp⟩ := h
      rw [hn, ← hi.passes_skipSpace] at hp
      have he : (rangeWatch options).Passes (.ended none) after := by
        rcases eq_of_afterEmptyResult? ha with ⟨-, inner, he, hs⟩ | ⟨-, he⟩
        · rw [he] at hp
          have hp : (rangeWatch options).Passes .idle inner := hp.2
          rw [← hi.passes_skipSpace, hs] at hp
          exact hp.2
        · rw [he] at hp
          exact hp.2
      have hg : ∀ token ∈ rest.takeWhile isWhitespace, token.isWhitespace = true :=
        List.all_eq_true.1 List.all_takeWhile
      refine ⟨hk, ?_⟩
      rw [hn, List.append_assoc, hi.passes_append hg, emptyResult]
      split
      · exact ⟨trivial, ih he⟩
      · exact ⟨trivial, trivial, ih he⟩
  | case3 rest _ ih | case4 token rest _ ih => exact ⟨h.1, ih h.2⟩

def gapText : List Token → Option String
  | [.whitespace text] => some text
  | _ => none

/-- What a range between two operands that passes is made of. -/
theorem gapText_eq_of_passes {first second rest : List Token} {text : String} {operand : Token}
    (hf : first = [] ∨ ∃ text, first = [.whitespace text])
    (hs : second = [] ∨ ∃ text, second = [.whitespace text])
    (hr : isRangeOperator text = true) (ho : isOperandStart operand = true)
    (h : (rangeWatch options).Passes (.ended none)
      (first ++ .operator text :: (second ++ operand :: rest))) :
    gapText first = rangeGap options ∧ gapText second = rangeGap options ∧
      ∃ state, (rangeWatch options).Passes state (operand :: rest) := by
  have hb : first.foldl (rangeWatch options).next (.ended none) = .ended (gapText first) := by
    rcases hf with rfl | ⟨text, rfl⟩ <;> rfl
  have ha : second.foldl (rangeWatch options).next (.ranged (gapText first) none) =
      .ranged (gapText first) (gapText second) := by
    rcases hs with rfl | ⟨text, rfl⟩ <;> rfl
  obtain ⟨-, hp⟩ := Watch.passes_append.1 h
  rw [hb] at hp
  obtain ⟨-, hp⟩ := hp
  rw [rangeWatch_next_operator hr] at hp
  obtain ⟨-, hp⟩ := Watch.passes_append.1 hp
  rw [ha] at hp
  obtain ⟨hx, hy⟩ := hp.1 ho
  exact ⟨hx, hy, _, hp⟩

theorem eq_rangeSpace_of_gapText {gap : List Token}
    (hg : gap = [] ∨ ∃ text, gap = [.whitespace text]) (h : gapText gap = rangeGap options) :
    gap = rangeSpace options := by
  rcases hg with rfl | ⟨text, rfl⟩ <;> unfold rangeGap at h <;> unfold rangeSpace <;>
    split at h <;> simp_all [gapText]

/-- Where space is one token or none, the watch sees how wide it is. -/
theorem rangesSpaced_of_passes (h : (rangeWatch options).Passes state tokens) (hm : Merged tokens) :
    RangesSpaced options tokens := by
  intro front first rest text following ht he hr
  obtain ⟨before, after, second, more, rfl, rfl, ho, hs, hb, ha⟩ := exists_of_rangeAhead? hr
  rw [ht] at h hm
  obtain ⟨there, -, hp⟩ := h.suffix
  rw [show (rangeWatch options).next there first = .ended none from if_pos he] at hp
  have hrest := hm.suffix.tail
  have hbefore := hrest.eq_gap hb rfl
  have hafter := hrest.suffix.tail.eq_gap ha (isWhitespace_of_isOperandStart hs)
  obtain ⟨hx, hy, -⟩ := gapText_eq_of_passes hbefore hafter ho hs hp
  rw [spacedRange_append, eq_rangeSpace_of_gapText hbefore hx, eq_rangeSpace_of_gapText hafter hy]

theorem ranges_eq_self (h : (rangeWatch options).Passes state tokens) (hm : Merged tokens) :
    ranges options tokens = tokens :=
  (rangesSpaced_of_passes h hm).ranges_eq

end

end SourceStyle.Rule
