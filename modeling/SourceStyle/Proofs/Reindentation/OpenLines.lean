import Mathlib
import SourceStyle.Proofs.Balance
import SourceStyle.Proofs.Reindentation.Lines

/-!
Levels of indentation count lines. Where nothing but brackets opens scopes, a line is indented by
one level for each line that opened a scope still open behind the closing brackets it begins with.
-/

namespace SourceStyle

namespace Token

/-- The tokens up to the line that goes on behind them. -/
def linesBefore (before : List Token) : List Token :=
  before.rdropWhile (!·.isLinebreak)

def currentLine (before : List Token) : List Token :=
  before.rtakeWhile (!·.isLinebreak)

def isLeading (token : Token) : Bool :=
  token.isWhitespace || token.isClosing

/-- The space and the closing brackets that a line begins with. -/
def leadingRun (line : List Token) : List Token :=
  line.takeWhile isLeading

def lineAt (tokens : List Token) (number : Nat) : List Token :=
  (lines tokens)[number]?.getD []

def leadingSpace (line : List Token) : List Token :=
  line.takeWhile isWhitespace

/-! ### Places in lines -/

theorem linesBefore_append_currentLine (before : List Token) :
    linesBefore before ++ currentLine before = before :=
  List.rdropWhile_append_rtakeWhile

theorem not_isLinebreak_of_mem_currentLine {before : List Token} :
    ∀ token ∈ currentLine before, token.isLinebreak = false := by
  intro token hm
  simpa using List.mem_rtakeWhile_imp hm

theorem endsLine_linesBefore (before : List Token) : EndsLine (linesBefore before) := by
  intro token hm
  rw [linesBefore] at hm
  have hn : before.rdropWhile (!·.isLinebreak) ≠ [] := by
    intro he
    rw [he] at hm
    cases hm
  have hlast := List.rdropWhile_last_not (fun token : Token => !token.isLinebreak) before hn
  rw [List.getLast?_eq_some_getLast hn] at hm
  cases hm
  simpa using hlast

theorem lineNumber_linesBefore (before : List Token) :
    lineNumber (linesBefore before) = lineNumber before := by
  have hn := congrArg lineNumber (linesBefore_append_currentLine before)
  rwa [lineNumber_append, lineNumber_line not_isLinebreak_of_mem_currentLine, Nat.add_zero] at hn

theorem leadingRun_takeWhile (tokens : List Token) :
    leadingRun (tokens.takeWhile (!·.isLinebreak)) = leadingRun tokens := by
  induction tokens with
  | nil => rfl
  | cons token tokens ih =>
      cases token with
      | whitespace text => exact congrArg (Token.whitespace text :: ·) ih
      | closing bracket => exact congrArg (Token.closing bracket :: ·) ih
      | _ => rfl

end Token

namespace Scope

open Token

/-- How many different lines the scopes were opened on. -/
def openingLines (scopes : List (Bracket × List Token)) : Nat :=
  (scopes.map fun scope => lineNumber scope.2).dedup.length

/-! ### Scopes that are open on the way -/

theorem fault?_of_check {tokens : List Token} (h : check tokens false = .ok ()) :
    fault? tokens = none := by
  rw [check] at h
  split at h
  · cases h
  · assumption

/-- A closing bracket of accepted source closes the innermost scope. -/
theorem LeavesOpen.closes {before after : List Token} {bracket : Bracket}
    {scopes : List (Bracket × List Token)} (h : LeavesOpen before scopes)
    (hf : fault? (before ++ .closing bracket :: after) = none) :
    ∃ outer rest, scopes = (bracket, outer) :: rest := by
  rw [h.fault?_append] at hf
  cases scopes with
  | nil => cases hf
  | cons scope rest =>
      obtain ⟨innermost, outer⟩ := scope
      by_cases hb : innermost = bracket
      · exact ⟨outer, rest, by rw [hb]⟩
      · have hn : faultFrom (onLines ((innermost, outer) :: rest)) (1 + spanned before)
            (.closing bracket :: after) =
              some { line := 1 + spanned before, fault := .unexpected bracket } := if_neg hb
        rw [hn] at hf
        cases hf

/-- No bracket is out of place in front of any token of accepted source. -/
theorem exists_leavesOpen {before after : List Token} (h : fault? (before ++ after) = none) :
    ∃ scopes, LeavesOpen before scopes := by
  induction before using List.reverseRecOn generalizing after with
  | nil => exact ⟨[], .balanced .nil⟩
  | append_singleton before token ih =>
      rw [List.append_assoc, List.singleton_append] at h
      obtain ⟨scopes, ho⟩ := ih h
      cases hb : token.isBracket with
      | false => exact ⟨scopes, ho.append (balanced_singleton hb)⟩
      | true =>
          cases token with
          | opening bracket => exact ⟨(bracket, before) :: scopes, .opened ho .nil⟩
          | closing bracket =>
              obtain ⟨outer, rest, rfl⟩ := ho.closes h
              exact ⟨rest, ho.close⟩
          | _ => cases hb

theorem balanced_of_not_isBracket {tokens : List Token}
    (h : ∀ token ∈ tokens, token.isBracket = false) : Balanced tokens := by
  induction tokens with
  | nil => exact .nil
  | cons token tokens ih =>
      obtain ⟨ht, hr⟩ := List.forall_mem_cons.1 h
      exact .skip ht (ih hr)

/-- The innermost scope begins behind the tokens before it, and what follows is balanced. -/
theorem LeavesOpen.innermost {tokens before : List Token} {bracket : Bracket}
    {scopes : List (Bracket × List Token)} (h : LeavesOpen tokens ((bracket, before) :: scopes)) :
    LeavesOpen before scopes ∧
      ∃ inside, tokens = before ++ .opening bracket :: inside ∧ Balanced inside := by
  cases h with
  | opened ho hb => exact ⟨ho, _, rfl, hb⟩

/-- Scopes further out were opened on lines further up. -/
theorem LeavesOpen.lineNumber_le {tokens : List Token} {scopes : List (Bracket × List Token)}
    (h : LeavesOpen tokens scopes) : ∀ scope ∈ scopes, lineNumber scope.2 ≤ lineNumber tokens := by
  induction h with
  | balanced => nofun
  | @opened before inside bracket scopes _ _ ih =>
      have hle : lineNumber before ≤ lineNumber (before ++ .opening bracket :: inside) := by
        rw [lineNumber_append]
        omega
      exact List.forall_mem_cons.2 ⟨hle, fun scope hm => (ih scope hm).trans hle⟩

end Scope

namespace Rule

open Token Scope

/-- Accepted tokens whose scopes are no switches and are not opened by directives, without space
beside space. -/
structure PlainScopes (tokens : List Token) : Prop where
  accepted : check tokens false = .ok ()
  merged : Merged tokens
  noSwitch : .identifier "switch" ∉ tokens
  noDirective : ∀ token ∈ tokens, directive? token = none

/-! ### Levels count lines -/

/-- The scope as indentation keeps it, where nothing but brackets opens scopes and none of them is a
switch. -/
def openScope (scope : Bracket × List Token) : OpenScope :=
  { line := lineNumber scope.2 }

theorem depth_map_openScope {tokens : List Token} {scopes : List (Bracket × List Token)}
    (h : LeavesOpen tokens scopes) : depth (scopes.map openScope) = openingLines scopes := by
  induction h with
  | balanced => rfl
  | @opened before inside bracket scopes ho _ ih =>
      cases scopes with
      | nil => rfl
      | cons scope scopes =>
          obtain ⟨innermost, outer⟩ := scope
          have hd : depth (((bracket, before) :: (innermost, outer) :: scopes).map openScope) =
              openingLines ((innermost, outer) :: scopes) +
                if lineNumber before = lineNumber outer then 0 else 1 := by
            rw [← ih]
            rfl
          rw [hd, openingLines, openingLines, List.map_cons (l := (innermost, outer) :: scopes)]
          by_cases hl : lineNumber before = lineNumber outer
          · rw [if_pos hl, List.dedup_cons_of_mem (by simp [hl]), Nat.add_zero]
          · have hn : lineNumber before ∉
                ((innermost, outer) :: scopes).map fun scope => lineNumber scope.2 := by
              intro hm
              obtain ⟨scope, hs, he⟩ := List.mem_map.1 hm
              rcases List.mem_cons.1 hs with rfl | hs
              · exact hl he.symm
              · have hlow := ho.innermost.1.lineNumber_le scope hs
                have hhigh := ho.lineNumber_le (innermost, outer) List.mem_cons_self
                simp only at hhigh
                omega
            rw [if_neg hl, List.dedup_cons_of_notMem hn, List.length_cons]

/-! ### The state behind tokens -/

section
variable {state : IndentState}

theorem past_opening (hp : state.pendingSwitch = false) (bracket : Bracket) :
    state.past (.opening bracket) =
      { state with scopes := { line := state.line } :: state.scopes } := by
  cases bracket with
  | curly => simp [IndentState.past, IndentState.after, isLinebreak, hp]
  | _ => rfl

theorem past_closing {scope : OpenScope} {scopes : List OpenScope}
    (hs : state.scopes = scope :: scopes) (hc : scope.isConditional = false) (bracket : Bracket) :
    state.past (.closing bracket) = { state with scopes := scopes } := by
  simp [IndentState.past, IndentState.after, isLinebreak, hs, hc]

theorem past_of_not_isBracket {token : Token} (hb : token.isBracket = false)
    (hs : token ≠ .identifier "switch") :
    state.past token = { state with line := state.line + lineNumber [token] } := by
  cases token with
  | opening => cases hb
  | closing => cases hb
  | identifier name =>
      have hn : name ≠ "switch" := fun he => hs (congrArg Token.identifier he)
      simp [IndentState.past, IndentState.after, isLinebreak, lineNumber, hn]
  | _ => rfl

theorem foldl_past_of_balanced {tokens : List Token} (h : Balanced tokens)
    (hs : .identifier "switch" ∉ tokens) (hp : state.pendingSwitch = false) :
    tokens.foldl IndentState.past state =
      { state with line := state.line + lineNumber tokens } := by
  induction h generalizing state with
  | nil => rfl
  | @skip token rest hb _ ih =>
      obtain ⟨ht, hr⟩ := not_or.1 (mt List.mem_cons.2 hs)
      have hl : lineNumber (token :: rest) = lineNumber [token] + lineNumber rest :=
        lineNumber_append [token] rest
      have hrest : rest.foldl IndentState.past
          { state with line := state.line + lineNumber [token] } =
            { state with line := state.line + lineNumber [token] + lineNumber rest } := ih hr hp
      rw [List.foldl_cons, past_of_not_isBracket hb (Ne.symm ht), hrest, hl]
      simp only [Nat.add_assoc]
  | @scope bracket inside after _ _ ih ik =>
      have hi : .identifier "switch" ∉ inside := fun hm => hs (by simp [hm])
      have ha : .identifier "switch" ∉ after := fun hm => hs (by simp [hm])
      have hl : lineNumber (.opening bracket :: (inside ++ .closing bracket :: after)) =
          lineNumber inside + lineNumber after := by
        simp [lineNumber, isLinebreak]
      have hin : inside.foldl IndentState.past
          { state with scopes := { line := state.line } :: state.scopes } =
            { state with
              scopes := { line := state.line } :: state.scopes
              line := state.line + lineNumber inside } := ih hi hp
      have hout : after.foldl IndentState.past
          { state with line := state.line + lineNumber inside } =
            { state with line := state.line + lineNumber inside + lineNumber after } := ik ha hp
      rw [List.foldl_cons, past_opening hp, List.foldl_append, hin, List.foldl_cons,
        past_closing rfl rfl, hout, hl]
      simp only [Nat.add_assoc]

end

/-- Behind tokens, the state holds the scopes that they leave open. -/
theorem foldl_past_of_leavesOpen {tokens : List Token} {scopes : List (Bracket × List Token)}
    (h : LeavesOpen tokens scopes) (hs : .identifier "switch" ∉ tokens) :
    tokens.foldl IndentState.past {} =
      { scopes := scopes.map openScope, line := lineNumber tokens } := by
  induction h with
  | balanced hb =>
      rw [foldl_past_of_balanced hb hs rfl]
      simp only [Nat.zero_add, List.map_nil]
  | @opened before inside bracket scopes _ hb ih =>
      obtain ⟨hbefore, hrest⟩ := not_or.1 (mt List.mem_append.2 hs)
      have hl : lineNumber (before ++ .opening bracket :: inside) =
          lineNumber before + lineNumber inside := by
        simp [lineNumber, isLinebreak]
      rw [List.foldl_append, List.foldl_cons, ih hbefore, past_opening rfl,
        foldl_past_of_balanced hb (fun hm => hrest (List.mem_cons_of_mem _ hm)) rfl, hl]
      rfl

/-! ### The level of a line -/

theorem leadingClosers_eq (line : List Token) :
    leadingClosers line = (leadingRun line).countP isClosing := by
  induction line with
  | nil => rfl
  | cons token line ih =>
      rw [leadingClosers] at ih ⊢
      cases token with
      | whitespace text => exact ih
      | closing bracket => exact congrArg Nat.succ ih |>.trans (List.countP_cons_of_pos rfl).symm
      | _ => rfl

theorem leadingClosers_lineContent (line : List Token) :
    leadingClosers (lineContent line) = leadingClosers line := by
  cases line with
  | nil => rfl
  | cons token line => cases token <;> rfl

/-- Leading closing brackets close as many scopes. -/
theorem scopes_foldl_past_run {run : List Token} {state : IndentState}
    (hr : ∀ token ∈ run, token.isLeading = true)
    (hc : ∀ scope ∈ state.scopes, scope.isConditional = false) :
    (run.foldl IndentState.past state).scopes = state.scopes.drop (run.countP isClosing) := by
  induction run generalizing state with
  | nil => rfl
  | cons token run ih =>
      obtain ⟨ht, hrun⟩ := List.forall_mem_cons.1 hr
      rw [List.foldl_cons]
      cases token with
      | whitespace text => exact ih hrun hc
      | closing bracket =>
          have hp : (state.past (.closing bracket)).scopes = state.scopes.drop 1 := by
            cases hs : state.scopes with
            | nil => simp [IndentState.past, IndentState.after, isLinebreak, hs]
            | cons scope scopes =>
                rw [past_closing hs (hc scope (hs ▸ List.mem_cons_self))]
                rfl
          have hd : ∀ scope ∈ (state.past (.closing bracket)).scopes,
              scope.isConditional = false := by
            rw [hp]
            exact fun scope hm => hc scope (List.mem_of_mem_drop hm)
          rw [ih hrun hd, hp, List.drop_drop, List.countP_cons_of_pos rfl, Nat.add_comm]
      | _ => cases ht

/-- A line without switches and directives is indented by one level for each line that opened a
scope which is still open behind the leading closing brackets. -/
theorem levelOf_eq_openingLines (options : Options) {before line : List Token}
    {scopes ahead : List (Bracket × List Token)} (ho : LeavesOpen before scopes)
    (ha : LeavesOpen (before ++ leadingRun line) ahead)
    (hs : .identifier "switch" ∉ before ++ leadingRun line)
    (hd : ∀ token ∈ line, directive? token = none) :
    levelOf options (before.foldl IndentState.past {}) line = openingLines ahead := by
  have hn := bind_directive?_eq_none hd
  have hstate := foldl_past_of_leavesOpen ho fun hm => hs (List.mem_append_left _ hm)
  have hc : ∀ scope ∈ (before.foldl IndentState.past {}).scopes, scope.isConditional = false := by
    rw [hstate]
    exact List.forall_mem_map.2 fun _ _ => rfl
  have hrun : ∀ token ∈ leadingRun line, token.isLeading = true :=
    fun token hm => List.mem_takeWhile_imp hm
  have hkept : (before.foldl IndentState.past {}).scopes.drop (leadingClosers (lineContent line)) =
      ahead.map openScope := by
    rw [leadingClosers_lineContent, leadingClosers_eq, ← scopes_foldl_past_run hrun hc,
      ← List.foldl_append, foldl_past_of_leavesOpen ha hs]
  have hsw : (ahead.map openScope).head?.any (·.isSwitch) = false := by
    cases ahead <;> rfl
  rw [levelOf, lineLevel, hn]
  simp only [codeLevel, hkept, hsw, Bool.false_and, Bool.false_eq_true, if_false,
    depth_map_openScope ha]

/-! ### The space that a line is given -/

section
variable {options : Options} (hi : options.indentComments = true)
include hi

theorem leadingSpace_indentLine {state : IndentState} {line : List Token} (ht : Trim line)
    (hn : lineContent line ≠ []) :
    leadingSpace (indentLine options state line) =
      indentationTokens (levels options (levelOf options state line)) := by
  have hlead : newLead options state line =
      indentationTokens (levels options (levelOf options state line)) := by
    simp [newLead, hi, hn]
  have hw : leadingSpace (indentLine options state line) ++ newContent options state line =
      newLead options state line ++ newContent options state line := by
    rw [← indentLine_eq_append, ← skipSpace_indentLine ht]
    exact takeWhile_append_skipSpace _
  rw [List.append_cancel_right hw, hlead]

/-- Behind whole lines, a line is indented by one level for each line that opened a scope which is
still open behind the leading closing brackets. -/
theorem leadingSpace_of_endsLine {before rest : List Token} {ahead : List (Bracket × List Token)}
    (h : PlainScopes (before ++ rest)) (he : EndsLine before)
    (hn : lineContent (rest.takeWhile (!·.isLinebreak)) ≠ [])
    (ha : LeavesOpen (before ++ leadingRun rest) ahead) :
    leadingSpace (lineAt (indentation options (before ++ rest)) (lineNumber before)) =
      indentationTokens (levels options (openingLines ahead)) := by
  have hp : rest.takeWhile (!·.isLinebreak) <+: rest := List.takeWhile_prefix _
  have ht : Trim (rest.takeWhile (!·.isLinebreak)) :=
    trim_of_merged (h.merged.suffix.front hp)
  have hline : rest.takeWhile (!·.isLinebreak) ≠ [] := by
    intro hr
    rw [hr] at hn
    exact hn rfl
  have hd : ∀ token ∈ before, directive? token = none := fun token hm =>
    h.noDirective token (List.mem_append_left _ hm)
  have hnumber : lineNumber before = lineNumber (indentFrom options {} before) + 0 := by
    rw [lineNumber_indentFrom, Nat.add_zero]
  have hfirst : (lines (indentation options (before ++ rest)))[lineNumber before]? =
      some (indentLine options (before.foldl IndentState.past {})
        (rest.takeWhile (!·.isLinebreak))) := by
    rw [indentation, indentFrom_append he hd, hnumber,
      getElem?_lines_append (endsLine_indentFrom _ _ he), getElem?_zero_lines_indentFrom _ _ hline]
  obtain ⟨scopes, ho⟩ := exists_leavesOpen (fault?_of_check h.accepted)
  rw [← leadingRun_takeWhile] at ha
  have hs : .identifier "switch" ∉ before ++ leadingRun (rest.takeWhile (!·.isLinebreak)) := by
    intro hm
    apply h.noSwitch
    rcases List.mem_append.1 hm with hm | hm
    · exact List.mem_append_left _ hm
    · exact List.mem_append_right _ (hp.subset (List.takeWhile_subset _ hm))
  rw [lineAt, hfirst, Option.getD_some, leadingSpace_indentLine hi ht hn,
    levelOf_eq_openingLines options ho ha hs fun token hm =>
      h.noDirective token (List.mem_append_right _ (hp.subset hm))]

theorem leadingSpace_of_token {tokens front rest : List Token} {token : Token}
    {ahead : List (Bracket × List Token)} (h : PlainScopes tokens)
    (ht : front ++ token :: rest = tokens) (hw : token.isWhitespace = false)
    (hl : token.isLinebreak = false)
    (ha : LeavesOpen (linesBefore front ++ leadingRun (currentLine front ++ token :: rest)) ahead) :
    leadingSpace (lineAt (indentation options tokens) (lineNumber front)) =
      indentationTokens (levels options (openingLines ahead)) := by
  subst ht
  have hc : ∀ other ∈ currentLine front, (!other.isLinebreak) = true := by
    intro other hm
    rw [not_isLinebreak_of_mem_currentLine other hm]
    rfl
  have hline : (currentLine front ++ token :: rest).takeWhile (!·.isLinebreak) =
      currentLine front ++ token :: rest.takeWhile (!·.isLinebreak) := by
    rw [List.takeWhile_append_of_pos hc, List.takeWhile_cons_of_pos (by simp [hl])]
  have hn : lineContent ((currentLine front ++ token :: rest).takeWhile (!·.isLinebreak)) ≠ [] := by
    rw [hline]
    intro he
    have hm : token ∈ currentLine front ++ token :: rest.takeWhile (!·.isLinebreak) := by simp
    rw [← lineLead_append_lineContent (currentLine front ++ _), he, List.append_nil] at hm
    rw [isWhitespace_of_mem_lineLead token hm] at hw
    cases hw
  have hsplit : linesBefore front ++ (currentLine front ++ token :: rest) =
      front ++ token :: rest := by
    rw [← List.append_assoc, linesBefore_append_currentLine]
  rw [← hsplit, ← lineNumber_linesBefore front]
  exact leadingSpace_of_endsLine hi (hsplit ▸ h) (endsLine_linesBefore front) hn ha

end

end Rule

end SourceStyle
