import SourceStyle.Proofs.Spaces

/-!
Brackets of blocks stay in place.
-/

namespace SourceStyle.Rule

open Token

/-- Where the bracket of a block stands: nowhere, behind the header, behind the header on a later
line, or at the end of the header's line. -/
inductive HeaderState where
  | idle
  | header
  | line
  | opened
deriving DecidableEq

def HeaderState.after (options : Options) : HeaderState → Token → HeaderState
  | state, .whitespace _ => state
  | .header, .linebreak _ => if options.allmanBraces then .idle else .line
  | .line, .linebreak _ => .line
  | .header, .opening .curly => if options.allmanBraces then .opened else .idle
  | _, _ => .idle

/-- A watch for brackets of blocks that are out of place. -/
def braceWatch (options : Options) : Watch HeaderState where
  accepts
    | .line, token => token ≠ .opening .curly
    | .opened, .linebreak _ | .opened, .lineComment _ => False
    | _, _ => True
  next state token := if endsBlockHeader token then .header else state.after options token
  final state := state ≠ .opened

section
variable {options : Options} {state : HeaderState} {tokens : List Token}

theorem braceWatch_deaf : (braceWatch options).Deaf where
  ignores state token ht := by
    cases token with
    | whitespace text =>
        cases state <;> first | exact ⟨trivial, rfl⟩ | exact ⟨Token.noConfusion, rfl⟩
    | _ => cases ht
  closes {state ending} ha _ := by
    rintro rfl
    exact ha
  lineComments state first second := by
    cases state <;> first
      | exact ⟨Iff.rfl, rfl⟩
      | exact ⟨iff_of_true Token.noConfusion Token.noConfusion, rfl⟩
  blockComments state first second := by
    cases state <;> first
      | exact ⟨Iff.rfl, rfl⟩
      | exact ⟨iff_of_true Token.noConfusion Token.noConfusion, rfl⟩

/-- No line begins behind a bracket at its end. -/
theorem braceWatch_next_linebreak (state : HeaderState) (ending : Linebreak) :
    (braceWatch options).next state (.linebreak ending) = .idle ∨
      (braceWatch options).next state (.linebreak ending) = .line := by
  cases state <;> simp [braceWatch, endsBlockHeader, HeaderState.after]

theorem braceWatch_ignores_line : (braceWatch options).Ignores isLayout .line := by
  intro token ht
  cases token <;> first | exact ⟨Token.noConfusion, rfl⟩ | cases ht

theorem braceWatch_steady : (braceWatch options).Steady := by
  intro state ending
  have hn : (braceWatch options).next state (.linebreak ending) = .idle ∨
      (braceWatch options).next state (.linebreak ending) = .line :=
    braceWatch_next_linebreak state ending
  rcases hn with hn | hn <;> rw [hn]
  · intro token ht
    cases token <;> first | exact ⟨trivial, rfl⟩ | cases ht
  · exact braceWatch_ignores_line

/-- Where brackets go on the header's line, layout with a line terminator leads off it. -/
theorem foldl_header_eq_line (ho : options.allmanBraces = false) {gap : List Token}
    (hg : ∀ token ∈ gap, token.isLayout = true) (hl : gap.any isLinebreak = true) :
    gap.foldl (braceWatch options).next .header = .line := by
  induction gap with
  | nil => cases hl
  | cons token gap ih =>
      obtain ⟨ht, hr⟩ := List.forall_mem_cons.1 hg
      rw [List.foldl_cons]
      cases token with
      | whitespace text => exact ih hr hl
      | linebreak ending =>
          have hn : (braceWatch options).next .header (.linebreak ending) = .line :=
            if_neg (by simp [ho])
          rw [hn]
          exact (braceWatch_ignores_line.reads hr).2
      | _ => cases ht

/-- What comes next does not complete a misplaced bracket that the rule has not seen to. -/
def HeaderState.Fits (options : Options) : HeaderState → List Token → Prop
  | .idle, _ => True
  | .header, tokens => misplacedBody? options tokens = none
  | .line, tokens => (tokens.dropWhile isLayout).head? ≠ some (.opening .curly)
  | .opened, tokens => endsLine tokens = false

theorem HeaderState.Fits.accepts {token : Token} {rest : List Token}
    (h : state.Fits options (token :: rest)) : (braceWatch options).accepts state token := by
  cases state with
  | line =>
      rintro rfl
      exact h rfl
  | opened =>
      cases token <;> trivial
  | _ => trivial

theorem HeaderState.Fits.after {token : Token} {rest : List Token}
    (h : state.Fits options (token :: rest)) : (state.after options token).Fits options rest := by
  cases state with
  | idle =>
      cases token with
      | opening bracket => cases bracket <;> trivial
      | _ => trivial
  | line | opened =>
      cases token with
      | opening bracket => cases bracket <;> trivial
      | _ => trivial
  | header =>
      cases token with
      | whitespace text => exact h
      | linebreak ending =>
          rw [HeaderState.after]
          split
          · trivial
          · rename_i ho
            intro hs
            obtain ⟨body, he⟩ := List.head?_eq_some_iff.1 hs
            rw [Fits, misplacedBody?, if_neg ho, bodyOnLaterLine?,
              List.dropWhile_cons_of_pos (by rfl), he] at h
            simp [isLayout, isLinebreak] at h
      | opening bracket =>
          cases bracket with
          | curly =>
              rw [HeaderState.after]
              split
              · rename_i ho
                rw [Fits, misplacedBody?, if_pos ho, bodyOnHeaderLine?, skipSpace,
                  List.dropWhile_cons_of_neg (by simp [isWhitespace])] at h
                have hn : endsLine rest = false := by simpa using h
                exact hn
              · trivial
          | _ => trivial
      | _ => trivial

theorem braceWatch_passes_braces_of_fits (h : state.Fits options tokens) :
    (braceWatch options).Passes state (braces options tokens) := by
  fun_induction braces options tokens generalizing state with
  | case1 =>
      rintro rfl
      cases h
  | case2 token rest ht body hm _ ih =>
      refine ⟨h.accepts, ?_⟩
      rw [show (braceWatch options).next state token = .header from if_pos ht, braceGap]
      split
      · rename_i ho
        have hn : (braceWatch options).next .header (.linebreak options.linebreak) = .idle :=
          if_pos ho
        refine ⟨trivial, ?_⟩
        rw [hn]
        exact ⟨trivial, ih trivial⟩
      · rename_i ho
        have hn : (braceWatch options).next .header (.opening .curly) = .idle := if_neg ho
        refine ⟨trivial, trivial, ?_⟩
        rw [show (braceWatch options).next .header (.whitespace " ") = .header from rfl, hn]
        exact ih trivial
  | case3 token rest ht hm ih =>
      refine ⟨h.accepts, ?_⟩
      rw [show (braceWatch options).next state token = .header from if_pos ht]
      exact ih hm
  | case4 token rest ht ih =>
      refine ⟨h.accepts, ?_⟩
      rw [show (braceWatch options).next state token = state.after options token from if_neg ht]
      exact ih h.after

theorem braceWatch_passes_braces (options : Options) (tokens : List Token) :
    (braceWatch options).Passes .idle (braces options tokens) :=
  braceWatch_passes_braces_of_fits trivial

theorem not_passes_header {rest body : List Token} (hm : misplacedBody? options rest = some body) :
    ¬(braceWatch options).Passes .header rest := by
  intro h
  obtain ⟨ho, hs, hi⟩ | ⟨ho, hd, hl⟩ := misplacedBody?_eq_some hm
  · rw [← (braceWatch_deaf.ignores _).passes_skipSpace, hs] at h
    have hp := h.2
    have hn : (braceWatch options).next .header (.opening .curly) = .opened := if_pos ho
    rw [hn, ← (braceWatch_deaf.ignores _).passes_skipSpace] at hp
    unfold endsLine at hi
    split at hi
    · rw [‹skipSpace body = []›] at hp
      exact hp rfl
    · rw [‹skipSpace body = _›] at hp
      exact hp.1
    · rw [‹skipSpace body = _›] at hp
      exact hp.1
    · cases hi
  · rw [← takeWhile_append_of_dropWhile hd] at h
    obtain ⟨-, hp⟩ := Watch.passes_append.1 h
    rw [foldl_header_eq_line ho (List.all_eq_true.1 List.all_takeWhile) hl] at hp
    exact hp.1 rfl

theorem braces_eq_self (h : (braceWatch options).Passes state tokens) :
    braces options tokens = tokens := by
  fun_induction braces options tokens generalizing state with
  | case1 => rfl
  | case2 token rest ht body hm _ ih =>
      have hp := h.2
      rw [show (braceWatch options).next state token = .header from if_pos ht] at hp
      exact absurd hp (not_passes_header hm)
  | case3 token rest _ _ ih | case4 token rest _ ih => rw [ih h.2]

end

end SourceStyle.Rule
