import SourceStyle.Proofs.Spaces

/-!
Declarations stay separated.
-/

namespace SourceStyle.Rule

open Token

/-- Where a declaration ends: nowhere, behind the bracket that closes its body, or on the line
after it. -/
inductive EndPhase where
  | idle
  | closed
  | closedLine
deriving DecidableEq

/-- What the rule for declarations knows, and where a declaration ends. -/
structure EndState where
  bodies : List Bool
  view : LineView
  phase : EndPhase

def EndState.phaseAfter (state : EndState) : Token → EndPhase
  | .whitespace _ => state.phase
  | .linebreak _ =>
    match state.phase with
    | .closed => .closedLine
    | _ => .idle
  | .closing .curly => if state.bodies.head? = some true then .closed else .idle
  | _ => .idle

/-- A watch for code on the line after a declaration. -/
def endWatch : Watch EndState where
  accepts state token := state.phase = .closedLine → token.isLayout = true ∨ token.isClosing = true
  next state token :=
    { bodies := bodiesAfter state.bodies state.view token
      view := state.view.after token
      phase := state.phaseAfter token }

section
variable {options : Options} {state : EndState} {tokens : List Token}

theorem endWatch_deaf : endWatch.Deaf where
  ignores state token ht := by
    cases token with
    | whitespace text => exact ⟨fun _ => .inl rfl, rfl⟩
    | _ => cases ht
  closes _ _ := trivial
  lineComments _ _ _ := ⟨Iff.rfl, rfl⟩
  blockComments _ _ _ := ⟨Iff.rfl, rfl⟩

theorem endWatch_steadyBehindBlank : endWatch.SteadyBehindBlank := by
  rintro ⟨bodies, view, phase⟩ first second - token ht
  cases phase <;> cases token <;> first | exact ⟨nofun, rfl⟩ | cases ht

/-- What comes next is not code on the line after a declaration that the rule has not seen to. -/
def EndState.Fits (state : EndState) (tokens : List Token) : Prop :=
  match state.phase with
  | .idle => True
  | .closed => codeAfterBody? tokens = none
  | .closedLine => continuesWithCode tokens = false

theorem continuesWithCode_cons {token : Token} (ht : token.isLayout = false)
    (hc : token.isClosing = false) (rest : List Token) : continuesWithCode (token :: rest) = true := by
  cases token with
  | whitespace | linebreak => cases ht
  | closing => cases hc
  | _ => rfl

theorem EndState.Fits.accepts {token : Token} {rest : List Token}
    (h : state.Fits (token :: rest)) : endWatch.accepts state token := by
  intro hp
  rw [Fits, hp] at h
  cases ht : token.isLayout with
  | true => exact .inl rfl
  | false =>
      cases hc : token.isClosing with
      | true => exact .inr rfl
      | false =>
          rw [continuesWithCode_cons ht hc] at h
          cases h

theorem EndState.Fits.next {token : Token} {rest : List Token} (h : state.Fits (token :: rest))
    (ht : ¬(token = .closing .curly ∧ state.bodies.head? = some true)) :
    (endWatch.next state token).Fits rest := by
  obtain ⟨bodies, view, phase⟩ := state
  cases token with
  | whitespace text => exact h
  | linebreak ending =>
      cases phase with
      | closed =>
          refine Bool.eq_false_iff.2 fun hc => ?_
          have hs : codeAfterBody? (.linebreak ending :: rest) = some (ending, rest) := by
            rw [codeAfterBody?, show skipSpace (.linebreak ending :: rest) =
              .linebreak ending :: rest from rfl]
            exact if_pos hc
          cases hs.symm.trans h
      | _ => trivial
  | closing bracket =>
      cases bracket with
      | curly =>
          have hn : ¬bodies.head? = some true := fun hb => ht ⟨rfl, hb⟩
          simp only [endWatch, Fits, phaseAfter, if_neg hn]
      | _ => trivial
  | _ => trivial

/-- The state behind the bracket that closes a declaration's body. -/
theorem endWatch_next_closing {bodies : List Bool} (hb : bodies.head? = some true) (view : LineView)
    (phase : EndPhase) :
    endWatch.next ⟨bodies, view, phase⟩ (.closing .curly) =
      ⟨bodies.tail, view.after (.closing .curly), .closed⟩ := by
  simp only [endWatch, EndState.phaseAfter, if_pos hb, bodiesAfter]

theorem endWatch_passes_spaceDeclarations_of_fits {bodies : List Bool} {view : LineView}
    {phase : EndPhase} (h : EndState.Fits ⟨bodies, view, phase⟩ tokens) :
    endWatch.Passes ⟨bodies, view, phase⟩ (spaceDeclarations options bodies view tokens) := by
  fun_induction spaceDeclarations options bodies view tokens generalizing phase with
  | case1 => trivial
  | case2 bodies view token rest hc ending following hb _ ih =>
      obtain ⟨rfl, hc⟩ := hc
      have hg : ∀ token ∈ rest.takeWhile isWhitespace, token.isWhitespace = true :=
        List.all_eq_true.1 List.all_takeWhile
      refine ⟨h.accepts, ?_⟩
      rw [endWatch_next_closing hc, (endWatch_deaf.ignores _).passes_append hg]
      exact ⟨fun h => (by cases h), fun _ => .inl rfl, ih trivial⟩
  | case3 bodies view token rest hc hb ih =>
      obtain ⟨rfl, hc⟩ := hc
      refine ⟨h.accepts, ?_⟩
      rw [endWatch_next_closing hc]
      exact ih hb
  | case4 bodies view token rest hc ih => exact ⟨h.accepts, ih (h.next hc)⟩

theorem endWatch_passes_spaceDeclarations (options : Options) (tokens : List Token) :
    endWatch.Passes ⟨[], {}, .idle⟩ (spaceDeclarations options [] {} tokens) :=
  endWatch_passes_spaceDeclarations_of_fits trivial

/-- Code on the line after a declaration does not pass. -/
theorem not_passes_closedLine {bodies : List Bool} {view : LineView}
    (hc : continuesWithCode tokens = true) : ¬endWatch.Passes ⟨bodies, view, .closedLine⟩ tokens := by
  intro h
  rw [← (endWatch_deaf.ignores _).passes_skipSpace] at h
  unfold continuesWithCode at hc
  split at hc
  · cases hc
  · cases hc
  · cases hc
  · rename_i hn hl hk
    cases hs : skipSpace tokens with
    | nil => exact hn hs
    | cons token rest =>
        rw [hs] at h
        have hw := isWhitespace_of_skipSpace_eq hs
        rcases h.1 rfl with ht | ht
        · cases token with
          | whitespace text => cases hw
          | linebreak ending => exact hl _ _ hs
          | _ => cases ht
        · cases token with
          | closing bracket => exact hk _ _ hs
          | _ => cases ht

theorem spaceDeclarations_eq_self {bodies : List Bool} {view : LineView} {phase : EndPhase}
    (h : endWatch.Passes ⟨bodies, view, phase⟩ tokens) :
    spaceDeclarations options bodies view tokens = tokens := by
  fun_induction spaceDeclarations options bodies view tokens generalizing phase with
  | case1 => rfl
  | case2 bodies view token rest hc ending following hb _ ih =>
      obtain ⟨rfl, hc⟩ := hc
      obtain ⟨hs, hk⟩ := eq_append_of_codeAfterBody? hb
      have hp := h.2
      rw [endWatch_next_closing hc, ← (endWatch_deaf.ignores _).passes_skipSpace, hs] at hp
      exact absurd hp.2 (not_passes_closedLine hk)
  | case3 bodies view token rest hc hb ih =>
      obtain ⟨rfl, hc⟩ := hc
      have hp := h.2
      rw [endWatch_next_closing hc] at hp
      rw [ih hp]
  | case4 bodies view token rest hc ih => rw [ih h.2]

end

end SourceStyle.Rule
