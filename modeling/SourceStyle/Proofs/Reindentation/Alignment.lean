import Mathlib
import SourceStyle.Proofs.Reindentation.OpenLines

/-!
Closing brackets at the beginning of lines. Such a line is level with the line of the opening
bracket exactly if as many lines opened the scopes around the opening bracket as opened those that
its line begins in.
-/

namespace SourceStyle

namespace Token

/-- Whether the first token of a line, space aside, is a closing bracket. -/
def beginsClosing (line : List Token) : Bool :=
  (skipSpace line).head?.any isClosing

theorem currentLine_append {before line : List Token} (h : EndsLine before)
    (hl : ∀ token ∈ line, token.isLinebreak = false) : currentLine (before ++ line) = line := by
  have hr : ∀ token ∈ line.reverse, (!token.isLinebreak) = true := by
    intro token hm
    rw [hl token (List.mem_reverse.1 hm)]
    rfl
  have hb : before.reverse.takeWhile (!·.isLinebreak) = [] := by
    cases he : before.reverse with
    | nil => rfl
    | cons token rest =>
        have ht : before.getLast? = some token := by rw [← List.head?_reverse, he, List.head?_cons]
        exact List.takeWhile_cons_of_neg (by simp [h token ht])
  rw [currentLine, List.rtakeWhile, List.reverse_append, List.takeWhile_append_of_pos hr, hb,
    List.append_nil, List.reverse_reverse]

end Token

namespace Scope

open Token

/-- A scope whose closing bracket is the last one of those that a line begins with. -/
structure LedScope (tokens : List Token) where
  outer : List Token
  bracket : Bracket
  inside : List Token
  after : List Token
  tokens_eq : tokens = outer ++ .opening bracket :: (inside ++ .closing bracket :: after)
  balanced : Balanced inside
  leading : ∀ token ∈ currentLine (outer ++ .opening bracket :: inside), token.isLeading = true
  last : ∀ token ∈ (skipSpace after).head?, token.isClosing = false

namespace LedScope

variable {tokens : List Token} (scope : LedScope tokens)

def openingLine : Nat := lineNumber scope.outer

def closingLine : Nat := lineNumber (scope.outer ++ .opening scope.bracket :: scope.inside)

theorem closing_eq : (scope.outer ++ .opening scope.bracket :: scope.inside) ++
    .closing scope.bracket :: scope.after = tokens := by
  rw [List.append_assoc, List.cons_append]
  exact scope.tokens_eq.symm

/-- The tokens up to and with the closing brackets that the line of the opening bracket begins
with. -/
def ahead : List Token := linesBefore scope.outer ++ leadingRun (currentLine scope.outer)

/-- The tokens between those closing brackets and the opening bracket. -/
def between : List Token :=
  (currentLine scope.outer).dropWhile isLeading

end LedScope

end Scope

namespace Rule

open Token Scope

/-! ### The lines of a scope -/

theorem takeWhile_isLeading {after : List Token}
    (h : ∀ token ∈ (skipSpace after).head?, token.isClosing = false) :
    after.takeWhile isLeading = after.takeWhile isWhitespace := by
  induction after with
  | nil => rfl
  | cons token after ih =>
      cases token with
      | whitespace text => exact congrArg (Token.whitespace text :: ·) (ih h)
      | closing bracket => cases h (.closing bracket) rfl
      | _ => rfl

theorem leadingRun_opening (bracket : Bracket) (line rest : List Token) :
    leadingRun (line ++ .opening bracket :: rest) = leadingRun line := by
  induction line with
  | nil => rfl
  | cons token line ih =>
      cases token with
      | whitespace text => exact congrArg (Token.whitespace text :: ·) ih
      | closing other => exact congrArg (Token.closing other :: ·) ih
      | _ => rfl

section
variable {tokens : List Token} (scope : LedScope tokens)

/-- The scopes around an opening bracket are those that are open behind the closing bracket and the
space that follows it. -/
theorem leavesOpen_closing {around : List (Bracket × List Token)}
    (ha : LeavesOpen scope.outer around) :
    LeavesOpen (linesBefore (scope.outer ++ .opening scope.bracket :: scope.inside) ++
      leadingRun (currentLine (scope.outer ++ .opening scope.bracket :: scope.inside) ++
        .closing scope.bracket :: scope.after)) around := by
  have hrun : leadingRun (currentLine (scope.outer ++ .opening scope.bracket :: scope.inside) ++
      .closing scope.bracket :: scope.after) =
        currentLine (scope.outer ++ .opening scope.bracket :: scope.inside) ++
          ([.closing scope.bracket] ++ scope.after.takeWhile isWhitespace) := by
    rw [leadingRun, List.takeWhile_append_of_pos scope.leading, List.takeWhile_cons_of_pos rfl,
      takeWhile_isLeading scope.last, List.singleton_append]
  have hspace : Balanced (scope.after.takeWhile isWhitespace) := by
    apply balanced_of_not_isBracket
    intro token hm
    have hw := List.mem_takeWhile_imp hm
    cases token with
    | whitespace => rfl
    | _ => cases hw
  rw [hrun, ← List.append_assoc, linesBefore_append_currentLine, ← List.append_assoc]
  exact (LeavesOpen.opened ha scope.balanced).close.append hspace

end

/-- A line that begins with a closing bracket closes scopes, the last of them by the last of its
leading closing brackets. -/
theorem exists_last_closing {run : List Token} (hr : ∀ token ∈ run, token.isLeading = true)
    (hc : ∃ token ∈ run, token.isClosing = true) :
    ∃ front bracket space, run = front ++ .closing bracket :: space ∧
      ∀ token ∈ space, token.isWhitespace = true := by
  induction run using List.reverseRecOn with
  | nil =>
      obtain ⟨_, hm, _⟩ := hc
      cases hm
  | append_singleton run token ih =>
      cases token with
      | closing bracket => exact ⟨run, bracket, [], rfl, nofun⟩
      | whitespace text =>
          have hrun : ∃ token ∈ run, token.isClosing = true := by
            obtain ⟨token, hm, ht⟩ := hc
            rcases List.mem_append.1 hm with hm | hm
            · exact ⟨token, hm, ht⟩
            · rw [List.mem_singleton.1 hm] at ht
              cases ht
          obtain ⟨front, bracket, space, rfl, hs⟩ :=
            ih (fun token hm => hr token (List.mem_append_left _ hm)) hrun
          refine ⟨front, bracket, space ++ [.whitespace text], by simp, ?_⟩
          exact List.forall_mem_append.2 ⟨hs, List.forall_mem_singleton.2 rfl⟩
      | _ =>
          have ht := hr _ (List.mem_append_right _ (List.mem_singleton_self _))
          cases ht

theorem exists_closing_of_beginsClosing {line : List Token} (h : beginsClosing line = true) :
    ∃ token ∈ leadingRun line, token.isClosing = true := by
  induction line with
  | nil => cases h
  | cons token line ih =>
      cases token with
      | whitespace text =>
          obtain ⟨token, hm, ht⟩ := ih h
          exact ⟨token, List.mem_cons_of_mem _ hm, ht⟩
      | closing bracket => exact ⟨.closing bracket, List.mem_cons_self, rfl⟩
      | _ => cases h

theorem exists_ledScope {before line after : List Token}
    (hf : fault? (before ++ (line ++ after)) = none) (he : EndsLine before)
    (hl : ∀ token ∈ line, token.isLinebreak = false)
    (ha : ∀ token ∈ after.head?, token.isLinebreak = true) (hb : beginsClosing line = true) :
    ∃ scope : LedScope (before ++ (line ++ after)), scope.closingLine = lineNumber before := by
  have hrun : ∀ token ∈ leadingRun line, token.isLeading = true := fun token hm =>
    List.mem_takeWhile_imp hm
  obtain ⟨front, bracket, space, hfront, hspace⟩ :=
    exists_last_closing hrun (exists_closing_of_beginsClosing hb)
  have hline : line = front ++ .closing bracket :: (space ++ line.dropWhile isLeading) := by
    calc line = leadingRun line ++ line.dropWhile isLeading := List.takeWhile_append_dropWhile.symm
      _ = front ++ .closing bracket :: (space ++ line.dropWhile isLeading) := by
        rw [hfront, List.append_assoc, List.cons_append]
  have htokens : before ++ (line ++ after) =
      (before ++ front) ++ .closing bracket :: (space ++ (line.dropWhile isLeading ++ after)) := by
    conv_lhs => rw [hline]
    simp only [List.append_assoc, List.cons_append]
  rw [htokens] at hf
  obtain ⟨scopes, ho⟩ := exists_leavesOpen hf
  obtain ⟨outer, around, rfl⟩ := ho.closes hf
  obtain ⟨-, inside, hinside, hbalanced⟩ := ho.innermost
  have hfrontline : ∀ token ∈ front, token.isLinebreak = false := by
    intro token hm
    apply hl
    rw [hline]
    exact List.mem_append_left _ hm
  have hlast : ∀ token ∈ (skipSpace (space ++ (line.dropWhile isLeading ++ after))).head?,
      token.isClosing = false := by
    rw [skipSpace, List.dropWhile_append_of_pos hspace, ← skipSpace]
    cases hd : line.dropWhile isLeading with
    | nil =>
        cases after with
        | nil => simp [skipSpace]
        | cons ending rest =>
            have hk := ha ending rfl
            cases ending with
            | linebreak => simp [skipSpace, isWhitespace, isClosing]
            | _ => cases hk
    | cons token rest =>
        have hn := List.head?_dropWhile_not isLeading line
        rw [hd] at hn
        have hk : token.isLeading = false := by simpa using hn
        obtain ⟨hw, hc⟩ := Bool.or_eq_false_iff.1 hk
        rw [List.cons_append, skipSpace, List.dropWhile_cons_of_neg (by simp [hw])]
        exact fun other hm => Option.some.inj hm ▸ hc
  refine ⟨⟨outer, bracket, inside, space ++ (line.dropWhile isLeading ++ after), ?_, hbalanced, ?_,
    hlast⟩, ?_⟩
  · rw [htokens, hinside, List.append_assoc, List.cons_append]
  · rw [← hinside, currentLine_append he hfrontline]
    intro token hm
    exact hrun token (hfront ▸ List.mem_append_left _ hm)
  · rw [LedScope.closingLine, ← hinside, lineNumber_append, lineNumber_line hfrontline,
      Nat.add_zero]

/-! ### Levels told apart -/

theorem length_levels (options : Options) (level : Nat) :
    (levels options level).length = level * options.indent.unit.length := by
  rw [levels, List.length_flatten, List.map_replicate, List.sum_replicate_nat]

theorem indentationTokens_inj {first second : List Char}
    (h : indentationTokens first = indentationTokens second) : first = second := by
  unfold indentationTokens at h
  split at h <;> split at h
  · rw [‹first = []›, ‹second = []›]
  · cases h
  · cases h
  · have hs := Token.whitespace.inj (List.cons.inj h).1
    rw [← String.toList_ofList (l := first), hs, String.toList_ofList]

/-- Unless a level is nothing, different levels begin with different space. -/
theorem indentationTokens_levels_iff (options : Options) (first second : Nat) :
    indentationTokens (levels options first) = indentationTokens (levels options second) ↔
      options.indent.unit = [] ∨ first = second := by
  constructor
  · intro h
    have hl := congrArg List.length (indentationTokens_inj h)
    rw [length_levels, length_levels] at hl
    rcases Nat.eq_zero_or_pos options.indent.unit.length with hz | hp
    · exact .inl (List.length_eq_zero_iff.1 hz)
    · exact .inr (Nat.eq_of_mul_eq_mul_right hp hl)
  · rintro (hu | rfl)
    · have hn (level : Nat) : levels options level = [] := by
        rw [← List.length_eq_zero_iff, length_levels, hu]
        rfl
      rw [hn, hn]
    · rfl

/-! ### The two lines of a scope -/

theorem openingLines_unique {tokens : List Token} {first second : List (Bracket × List Token)}
    (hf : LeavesOpen tokens first) (hs : LeavesOpen tokens second)
    (hn : .identifier "switch" ∉ tokens) : openingLines first = openingLines second := by
  have hstate := (foldl_past_of_leavesOpen hf hn).symm.trans (foldl_past_of_leavesOpen hs hn)
  rw [← depth_map_openScope hf, ← depth_map_openScope hs, (IndentState.mk.inj hstate).1]

theorem ahead_append_between {tokens : List Token} (scope : LedScope tokens) :
    scope.ahead ++ scope.between = scope.outer := by
  rw [LedScope.ahead, LedScope.between, List.append_assoc, leadingRun,
    List.takeWhile_append_dropWhile, linesBefore_append_currentLine]

/-- Indented lines begin with a closing bracket where they did. -/
theorem map_beginsClosing_indentation (options : Options) {tokens : List Token}
    (h : Merged tokens) :
    (lines (indentation options tokens)).map beginsClosing = (lines tokens).map beginsClosing := by
  rw [indentation, lines_indentFrom]
  exact map_first_indentLines (·.any isClosing) {}
    (fun options level token => (alike_respelledAt options level token).isClosing_eq)
    fun line hm => trim_of_merged (merged_of_mem_lines h line hm)

/-- A line that begins with a closing bracket is the closing line of a scope. -/
theorem exists_closingLine {options : Options} {tokens : List Token} (h : PlainScopes tokens)
    {number : Nat} (hb : beginsClosing (lineAt (indentation options tokens) number) = true) :
    ∃ scope : LedScope tokens, scope.closingLine = number := by
  have hview := congrArg (·[number]?) (map_beginsClosing_indentation options h.merged)
  simp only [List.getElem?_map] at hview
  have hline : (lines tokens)[number]?.map beginsClosing = some true := by
    rw [← hview]
    rw [lineAt] at hb
    cases hl : (lines (indentation options tokens))[number]? with
    | none =>
        rw [hl] at hb
        cases hb
    | some line =>
        rw [hl] at hb
        exact congrArg some hb
  obtain ⟨line, hl, hbegins⟩ := Option.map_eq_some_iff.1 hline
  obtain ⟨before, after, rfl, he, rfl, hnone, ha⟩ := exists_eq_append_of_line hl
  exact exists_ledScope (fault?_of_check h.accepted) he hnone ha hbegins

/-- The last of the closing brackets that a line begins with is indented by one level for each line
that opened a scope around its opening bracket, and the line of the opening bracket by one level for
each line that opened a scope it begins in. So the two begin with the same space exactly if these
are as many, as where the brackets between the leading closing brackets and the opening bracket pair
up. Every line that begins with a closing bracket is the closing line of such a scope. -/
theorem indentation_closing_brackets {options : Options} (hi : options.indentComments = true)
    {tokens : List Token} (h : PlainScopes tokens) :
    (∀ number, beginsClosing (lineAt (indentation options tokens) number) = true →
      ∃ scope : LedScope tokens, scope.closingLine = number) ∧
    ∀ scope : LedScope tokens, ∃ around ahead,
      LeavesOpen scope.outer around ∧ LeavesOpen scope.ahead ahead ∧
      leadingSpace (lineAt (indentation options tokens) scope.closingLine) =
        indentationTokens (levels options (openingLines around)) ∧
      leadingSpace (lineAt (indentation options tokens) scope.openingLine) =
        indentationTokens (levels options (openingLines ahead)) ∧
      (leadingSpace (lineAt (indentation options tokens) scope.closingLine) =
          leadingSpace (lineAt (indentation options tokens) scope.openingLine) ↔
        options.indent.unit = [] ∨ openingLines around = openingLines ahead) ∧
      (Balanced scope.between → openingLines around = openingLines ahead) := by
  refine ⟨fun number hb => exists_closingLine h hb, fun scope => ?_⟩
  have hf := fault?_of_check h.accepted
  obtain ⟨around, haround⟩ : ∃ scopes, LeavesOpen scope.outer scopes := by
    apply exists_leavesOpen
    rw [← scope.tokens_eq]
    exact hf
  obtain ⟨ahead, hahead⟩ : ∃ scopes, LeavesOpen scope.ahead scopes := by
    have hahead : fault? (scope.ahead ++ (scope.between ++ .opening scope.bracket ::
        (scope.inside ++ .closing scope.bracket :: scope.after))) = none := by
      rw [← List.append_assoc, ahead_append_between, ← scope.tokens_eq]
      exact hf
    exact exists_leavesOpen hahead
  have hclosing : leadingSpace (lineAt (indentation options tokens) scope.closingLine) =
      indentationTokens (levels options (openingLines around)) :=
    leadingSpace_of_token hi h scope.closing_eq rfl rfl (leavesOpen_closing scope haround)
  have hopening : leadingSpace (lineAt (indentation options tokens) scope.openingLine) =
      indentationTokens (levels options (openingLines ahead)) := by
    apply leadingSpace_of_token hi h scope.tokens_eq.symm rfl rfl
    rw [leadingRun_opening]
    exact hahead
  refine ⟨around, ahead, haround, hahead, hclosing, hopening, ?_, ?_⟩
  · rw [hclosing, hopening, indentationTokens_levels_iff]
  · intro hb
    have hsame : LeavesOpen scope.outer ahead := ahead_append_between scope ▸ hahead.append hb
    refine openingLines_unique haround hsame fun hm => h.noSwitch ?_
    rw [scope.tokens_eq]
    exact List.mem_append_left _ hm

/-- Two scopes opened on one line and closed on one. -/
def pairedTokens : List Token :=
  [.identifier "foo", .opening .round, .identifier "bar", .whitespace " ", .opening .curly,
    .linebreak .lf, .identifier "x", .linebreak .lf, .closing .curly, .closing .round]

theorem plainScopes_paired : PlainScopes pairedTokens where
  accepted := rfl
  merged := by simp [Merged, pairedTokens, isWhitespace]
  noSwitch := by decide
  noDirective := by decide

def pairedScope : LedScope pairedTokens where
  outer := [.identifier "foo"]
  bracket := .round
  inside := [.identifier "bar", .whitespace " ", .opening .curly, .linebreak .lf, .identifier "x",
    .linebreak .lf, .closing .curly]
  after := []
  tokens_eq := rfl
  balanced := by
    have hx : Balanced [.linebreak .lf, .identifier "x", .linebreak .lf] :=
      balanced_of_not_isBracket (by decide)
    exact .skip rfl (.skip rfl (balanced_pair hx))
  leading := by decide
  last := by decide

theorem indentation_closing_brackets_paired :
    PlainScopes pairedTokens ∧
      leadingSpace (lineAt (indentation {} pairedTokens) 2) =
        leadingSpace (lineAt (indentation {} pairedTokens) 0) := by
  have hi : ({} : Options).indentComments = true := rfl
  obtain ⟨around, ahead, -, -, -, -, hiff, hb⟩ :=
    (indentation_closing_brackets hi plainScopes_paired).2 pairedScope
  have hbetween : Balanced pairedScope.between := balanced_of_not_isBracket (by decide)
  exact ⟨plainScopes_paired, hiff.2 (.inr (hb hbetween))⟩

/-- Two scopes opened on one line and closed on two. -/
def loneTokens : List Token :=
  [.identifier "foo", .opening .round, .identifier "bar", .whitespace " ", .opening .curly,
    .linebreak .lf, .identifier "x", .linebreak .lf, .closing .curly, .linebreak .lf,
    .closing .round]

theorem plainScopes_lone : PlainScopes loneTokens where
  accepted := rfl
  merged := by simp [Merged, loneTokens, isWhitespace]
  noSwitch := by decide
  noDirective := by decide

/-- The scope that the first of the two brackets closes, inside the other scope. -/
def loneScope : LedScope loneTokens where
  outer := [.identifier "foo", .opening .round, .identifier "bar", .whitespace " "]
  bracket := .curly
  inside := [.linebreak .lf, .identifier "x", .linebreak .lf]
  after := [.linebreak .lf, .closing .round]
  tokens_eq := rfl
  balanced := balanced_of_not_isBracket (by decide)
  leading := by decide
  last := by decide

/-- A bracket that closes one of two scopes opened on one line stays inside the other. -/
theorem indentation_lone_closing_bracket :
    ¬∀ (options : Options) (tokens : List Token), options.indentComments = true →
      PlainScopes tokens → ∀ scope : LedScope tokens,
        leadingSpace (lineAt (indentation options tokens) scope.closingLine) =
          leadingSpace (lineAt (indentation options tokens) scope.openingLine) := by
  intro h
  have hl : leadingSpace (lineAt (indentation {} loneTokens) loneScope.closingLine) ≠
      leadingSpace (lineAt (indentation {} loneTokens) loneScope.openingLine) := by decide +kernel
  exact hl (h {} loneTokens rfl plainScopes_lone loneScope)

end Rule

end SourceStyle
