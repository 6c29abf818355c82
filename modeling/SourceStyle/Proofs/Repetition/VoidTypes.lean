import SourceStyle.Proofs.Spaces

/-!
Empty result types stay in the wanted form.
-/

namespace SourceStyle.Rule

open Token

/-- Where an empty result type stands: nowhere, behind the arrow, or behind the parenthesis that
may open it. -/
inductive ArrowState where
  | idle
  | arrow
  | opened
deriving DecidableEq

/-- A watch for empty result types in the form to change. -/
def voidWatch (options : Options) : Watch ArrowState where
  accepts state token :=
    if options.useVoid then state = .opened → token ≠ .closing .round
    else state = .arrow → token ≠ .identifier "Void"
  next
    | state, .whitespace _ => state
    | _, .operator text => if text = "->" then .arrow else .idle
    | .arrow, .opening .round => .opened
    | _, _ => .idle

def endsResult : Token → Bool
  | .closing .round | .identifier _ => true
  | _ => false

section
variable {options : Options} {state : ArrowState} {tokens : List Token}

theorem voidWatch_accepts {token : Token} (h : endsResult token = false) (state : ArrowState) :
    (voidWatch options).accepts state token := by
  unfold voidWatch
  dsimp only
  split
  · rintro - rfl
    cases h
  · rintro - rfl
    cases h

theorem useVoid_of_accepts_name (h : (voidWatch options).accepts .arrow (.identifier "Void")) :
    options.useVoid = true := by
  unfold voidWatch at h
  dsimp only at h
  split at h
  · assumption
  · exact absurd rfl (h rfl)

theorem useVoid_of_accepts_closing (h : (voidWatch options).accepts .opened (.closing .round)) :
    options.useVoid = false := by
  unfold voidWatch at h
  dsimp only at h
  split at h
  · exact absurd rfl (h rfl)
  · exact Bool.eq_false_iff.2 ‹_›

theorem voidWatch_next_linebreak (state : ArrowState) (ending : Linebreak) :
    (voidWatch options).next state (.linebreak ending) = .idle := by
  cases state <;> rfl

theorem voidWatch_next_arrow (state : ArrowState) :
    (voidWatch options).next state (.operator "->") = .arrow := by
  cases state <;> rfl

theorem voidWatch_deaf : (voidWatch options).Deaf where
  ignores state token ht := by
    cases token with
    | whitespace text => exact ⟨voidWatch_accepts rfl state, rfl⟩
    | _ => cases ht
  closes _ _ := trivial
  lineComments state first second :=
    ⟨iff_of_true (voidWatch_accepts rfl state) (voidWatch_accepts rfl state),
      by cases state <;> rfl⟩
  blockComments state first second :=
    ⟨iff_of_true (voidWatch_accepts rfl state) (voidWatch_accepts rfl state),
      by cases state <;> rfl⟩

theorem voidWatch_steady : (voidWatch options).Steady := by
  intro state ending token ht
  rw [voidWatch_next_linebreak]
  cases token with
  | whitespace | linebreak => exact ⟨voidWatch_accepts rfl .idle, rfl⟩
  | _ => cases ht

theorem voidWatch_resets : (voidWatch options).Resets where
  accepts state token ht := by
    refine voidWatch_accepts ?_ state
    rcases ht with ht | rfl
    · cases token <;> first | rfl | cases ht
    · rfl
  forgets first second ending := by
    rw [voidWatch_next_linebreak, voidWatch_next_linebreak]

theorem voidWatch_wraps : (voidWatch options).Wraps := by
  intro state header gap _ hg
  refine ⟨voidWatch_resets.reads (fun token hm => by rw [isTrivia, hg token hm, Bool.true_or]) _,
    ?_, ?_⟩
  · exact iff_of_true (voidWatch_accepts rfl _) (voidWatch_accepts rfl _)
  · have hn : ∀ state, (voidWatch options).next state (.opening .curly) = .idle := by
      intro state
      cases state <;> rfl
    rw [hn, hn]

theorem voidWatch_recaseHex : (voidWatch options).Blind (recaseHex options) := by
  intro state token
  cases token with
  | number text =>
      rw [recaseHex]
      split
      · exact ⟨iff_of_true (voidWatch_accepts rfl state)
          (voidWatch_accepts rfl state), by cases state <;> rfl⟩
      · exact ⟨Iff.rfl, rfl⟩
  | _ => exact ⟨Iff.rfl, rfl⟩

/-- What comes next does not complete an empty result type that the rule has not seen to. -/
def ArrowState.Fits (options : Options) : ArrowState → List Token → Prop
  | .idle, _ => True
  | .arrow, tokens => afterEmptyResult? options (skipSpace tokens) = none
  | .opened, tokens => options.useVoid = true → (skipSpace tokens).head? ≠ some (.closing .round)

theorem ArrowState.Fits.accepts {token : Token} {rest : List Token}
    (h : state.Fits options (token :: rest)) : (voidWatch options).accepts state token := by
  unfold voidWatch
  dsimp only
  split
  · rintro rfl rfl
    exact h ‹_› rfl
  · rintro rfl rfl
    rw [Fits, afterEmptyResult?, if_neg ‹_›] at h
    cases h

theorem ArrowState.Fits.next {token : Token} {rest : List Token}
    (h : state.Fits options (token :: rest)) (ht : token ≠ .operator "->") :
    ((voidWatch options).next state token).Fits options rest := by
  cases token with
  | whitespace text => cases state <;> exact h
  | operator text =>
      have hn : text ≠ "->" := fun he => ht (by rw [he])
      simp only [voidWatch, if_neg hn, Fits]
  | opening bracket =>
      cases bracket with
      | round =>
          cases state with
          | arrow =>
              intro hv hs
              obtain ⟨after, he⟩ := List.head?_eq_some_iff.1 hs
              rw [Fits, afterEmptyResult?, if_pos hv, show skipSpace (.opening .round :: rest) =
                .opening .round :: rest from rfl, afterEmptyTuple?, he] at h
              cases h
          | _ => trivial
      | _ => cases state <;> trivial
  | _ => cases state <;> trivial

theorem voidWatch_passes_voidTypes_of_fits (h : state.Fits options tokens) :
    (voidWatch options).Passes state (voidTypes options tokens) := by
  fun_induction voidTypes options tokens generalizing state with
  | case1 => trivial
  | case2 rest after ha _ ih =>
      have hg : ∀ token ∈ rest.takeWhile isWhitespace, token.isWhitespace = true :=
        List.all_eq_true.1 List.all_takeWhile
      refine ⟨h.accepts, ?_⟩
      rw [voidWatch_next_arrow, List.append_assoc, (voidWatch_deaf.ignores _).passes_append hg, emptyResult]
      split
      · refine ⟨?_, ih trivial⟩
        simp [voidWatch, ‹options.useVoid = true›]
      · refine ⟨voidWatch_accepts rfl _, ?_, ih trivial⟩
        simp [voidWatch, ‹¬options.useVoid = true›]
  | case3 rest ha ih =>
      refine ⟨h.accepts, ?_⟩
      rw [voidWatch_next_arrow]
      exact ih ha
  | case4 token rest ht ih => exact ⟨h.accepts, ih (h.next ht)⟩

theorem voidWatch_passes_voidTypes (options : Options) (tokens : List Token) :
    (voidWatch options).Passes .idle (voidTypes options tokens) :=
  voidWatch_passes_voidTypes_of_fits trivial

theorem voidTypes_eq_self (h : (voidWatch options).Passes state tokens) :
    voidTypes options tokens = tokens := by
  fun_induction voidTypes options tokens generalizing state with
  | case1 => rfl
  | case2 rest after ha _ ih =>
      have hp := h.2
      rw [voidWatch_next_arrow, ← (voidWatch_deaf.ignores _).passes_skipSpace] at hp
      rcases eq_of_afterEmptyResult? ha with ⟨hv, inner, he, hs⟩ | ⟨hv, he⟩
      · rw [he] at hp
        have hp : (voidWatch options).Passes .opened inner := hp.2
        rw [← (voidWatch_deaf.ignores _).passes_skipSpace, hs] at hp
        cases hv.symm.trans (useVoid_of_accepts_closing hp.1)
      · rw [he] at hp
        cases hv.symm.trans (useVoid_of_accepts_name hp.1)
  | case3 rest _ ih | case4 token rest _ ih => rw [ih h.2]

end

end SourceStyle.Rule
