import SourceStyle.Proofs.Reindentation.OpenLines

/-!
Matching brackets. In accepted source every scope is closed, by a bracket of its own kind, and the
search for that bracket, which does not look at kinds, finds it.
-/

namespace SourceStyle.Scope

open Token

section
variable {tokens inside after : List Token} {bracket : Bracket}

theorem Balanced.check_eq_ok (h : Balanced tokens) : check tokens false = .ok () := by
  have hf := (LeavesOpen.balanced h).fault?_append []
  rw [List.append_nil] at hf
  exact check_of_no_fault hf false

/-- Accepted source is balanced source. -/
theorem check_eq_ok_iff_balanced : check tokens false = .ok () ↔ Balanced tokens := by
  constructor
  · intro h
    have hf : fault? (tokens ++ []) = none := by
      rw [List.append_nil]
      exact fault?_of_check h
    obtain ⟨scopes, ho⟩ := exists_leavesOpen hf
    rw [ho.fault?_append] at hf
    cases ho with
    | balanced hb => exact hb
    | opened => cases hf
  · exact Balanced.check_eq_ok

theorem balanced_iff_passes : Balanced tokens ↔ scopeWatch.Passes [] tokens := by
  rw [← check_eq_ok_iff_balanced, check_eq_ok_iff]
  exact or_iff_right Bool.false_ne_true

theorem splitAtClose_of_not_isBracket {token : Token} (h : token.isBracket = false) (depth : Nat)
    (rest : List Token) :
    splitAtClose depth (token :: rest) = (splitAtClose depth rest).map (.cons token) := by
  cases token with
  | opening bracket => cases h
  | closing bracket => cases h
  | _ => rfl

theorem Balanced.splitAtClose_append (h : Balanced inside) (depth : Nat) (rest : List Token) :
    splitAtClose depth (inside ++ rest) =
      (splitAtClose depth rest).map fun split => { split with inside := inside ++ split.inside } := by
  induction h generalizing depth rest with
  | nil => simp
  | @skip token following ht _ ih =>
      rw [List.cons_append, splitAtClose_of_not_isBracket ht, ih, Option.map_map]
      rfl
  | @scope bracket inside following _ _ ih ik =>
      rw [List.cons_append, splitAtClose, List.append_assoc, List.cons_append, ih, splitAtClose, ik,
        Option.map_map, Option.map_map, Option.map_map]
      refine congrArg (Option.map · _) (funext fun split => ?_)
      simp [Split.cons]

theorem Balanced.splitAtClose_eq (h : Balanced inside) (bracket : Bracket) (after : List Token) :
    splitAtClose 0 (inside ++ .closing bracket :: after) =
      some { inside, close := bracket, after } := by
  rw [h.splitAtClose_append]
  simp [splitAtClose]

theorem Balanced.inside_eq {other rest : List Token} {close : Bracket} (h : Balanced inside)
    (k : Balanced other)
    (he : inside ++ .closing bracket :: after = other ++ .closing close :: rest) :
    inside = other := by
  have hs := h.splitAtClose_eq bracket after
  rw [he, k.splitAtClose_eq close rest] at hs
  cases hs
  rfl

/-- An opening bracket in a scope and the tokens behind it is the bracket of that scope, or stands
inside, or behind. -/
theorem opening_place {before rest : List Token} {first : Bracket}
    (h : .opening first :: (inside ++ .closing first :: after) =
      before ++ .opening bracket :: rest) :
    before = [] ∧ first = bracket ∧ rest = inside ++ .closing first :: after ∨
    (∃ front back, before = .opening first :: front ∧ inside = front ++ .opening bracket :: back ∧
      rest = back ++ .closing first :: after) ∨
    ∃ front, before = .opening first :: (inside ++ .closing first :: front) ∧
      after = front ++ .opening bracket :: rest := by
  cases before with
  | nil =>
      rw [List.nil_append, List.cons.injEq, Token.opening.injEq] at h
      exact .inl ⟨rfl, h.1, h.2.symm⟩
  | cons token front =>
      rw [List.cons_append, List.cons.injEq] at h
      obtain ⟨rfl, h⟩ := h
      obtain ⟨between, rfl, hb⟩ | ⟨between, rfl, hb⟩ := List.append_eq_append_iff.1 h
      · cases between with
        | nil => cases hb
        | cons token between =>
            rw [List.cons_append, List.cons.injEq] at hb
            obtain ⟨rfl, rfl⟩ := hb
            exact .inr (.inr ⟨between, rfl, rfl⟩)
      · cases between with
        | nil => cases hb
        | cons token between =>
            rw [List.cons_append, List.cons.injEq] at hb
            obtain ⟨rfl, rfl⟩ := hb
            exact .inr (.inl ⟨front, between, rfl, rfl, rfl⟩)

/-- Every scope of balanced tokens is closed, behind balanced tokens. -/
theorem Balanced.exists_close (h : Balanced tokens) {before rest : List Token}
    (ht : tokens = before ++ .opening bracket :: rest) :
    ∃ inside after, rest = inside ++ .closing bracket :: after ∧ Balanced inside := by
  induction h generalizing before rest with
  | nil => cases before <;> cases ht
  | @skip token following hn _ ih =>
      cases before with
      | nil =>
          cases ht
          cases hn
      | cons token before =>
          cases ht
          exact ih rfl
  | @scope first inside after hi _ ih ik =>
      obtain ⟨-, rfl, rfl⟩ | ⟨front, back, -, he, rfl⟩ | ⟨front, -, he⟩ := opening_place ht
      · exact ⟨inside, after, rfl, hi⟩
      · obtain ⟨inner, behind, rfl, hb⟩ := ih he
        exact ⟨inner, behind ++ .closing first :: after, by simp, hb⟩
      · exact ik he

end

/-! ### Positions -/

/-- The position of the bracket that brings the depth back to nothing, where the tokens begin at
`position` inside `depth` scopes. Brackets of all kinds count alike. -/
def closeFrom? (depth position : Nat) : List Token → Option Nat
  | [] => none
  | .opening _ :: rest => closeFrom? (depth + 1) (position + 1) rest
  | .closing _ :: rest =>
    if depth - 1 = 0 then some position else closeFrom? (depth - 1) (position + 1) rest
  | _ :: rest => closeFrom? depth (position + 1) rest

/-- The position of the bracket that closes the scope opened at `position`. -/
def matchingClose? (tokens : List Token) (position : Nat) : Option Nat :=
  closeFrom? 0 position (tokens.drop position)

def between (tokens : List Token) (first last : Nat) : List Token :=
  (tokens.drop (first + 1)).take (last - (first + 1))

/-- A scope of the kind runs from one position to the other: there is its closing bracket, and the
tokens between are accepted by themselves. -/
structure Closes (tokens : List Token) (bracket : Bracket) (position close : Nat) : Prop where
  later : position < close
  closing : tokens[close]? = some (.closing bracket)
  inside : check (between tokens position close) false = .ok ()

theorem map_position_cons (token : Token) (position : Nat) (found : Option Split) :
    (found.map (Split.cons token)).map (fun split => position + split.inside.length) =
      found.map fun split => position + 1 + split.inside.length := by
  rw [Option.map_map]
  refine congrArg (Option.map · found) (funext fun split => ?_)
  simp only [Function.comp_apply, Split.cons, List.length_cons]
  omega

/-- The search by position ends at the bracket at which the tokens are split. Its depth is one more,
since it has counted the opening bracket in front of them. -/
theorem closeFrom?_succ (depth position : Nat) (tokens : List Token) :
    closeFrom? (depth + 1) position tokens =
      (splitAtClose depth tokens).map fun split => position + split.inside.length := by
  fun_induction splitAtClose depth tokens generalizing position with
  | case1 => rfl
  | case2 depth bracket rest ih => rw [closeFrom?, ih, map_position_cons]
  | case3 bracket rest => rfl
  | case4 bracket rest outer ih =>
      rw [closeFrom?, if_neg (by omega), Nat.add_sub_cancel, ih, map_position_cons]
  | case5 depth token rest hopening hclosing ih =>
      rw [closeFrom?, ih, map_position_cons]
      · exact hopening
      · exact hclosing

section
variable {tokens : List Token} {position close : Nat} {token : Token} {bracket : Bracket}

theorem drop_of_getElem? (h : tokens[position]? = some token) :
    tokens.drop position = token :: tokens.drop (position + 1) := by
  obtain ⟨hp, rfl⟩ := List.getElem?_eq_some_iff.1 h
  exact List.drop_eq_getElem_cons hp

theorem matchingClose?_eq (h : tokens[position]? = some (.opening bracket)) :
    matchingClose? tokens position =
      (splitAtClose 0 (tokens.drop (position + 1))).map fun split =>
        position + 1 + split.inside.length := by
  rw [matchingClose?, drop_of_getElem? h, closeFrom?, closeFrom?_succ]

theorem length_between (h : tokens[close]? = some token) (position : Nat) :
    (between tokens position close).length = close - (position + 1) := by
  obtain ⟨hc, -⟩ := List.getElem?_eq_some_iff.1 h
  rw [between, List.length_take_of_le]
  rw [List.length_drop]
  omega

theorem drop_eq_between_append (hlt : position < close) (h : tokens[close]? = some token) :
    tokens.drop (position + 1) =
      between tokens position close ++ token :: tokens.drop (close + 1) := by
  have hdrop : (tokens.drop (position + 1)).drop (close - (position + 1)) = tokens.drop close := by
    rw [List.drop_drop, Nat.add_sub_cancel' hlt]
  rw [between, ← drop_of_getElem? h, ← hdrop, List.take_append_drop]

theorem Closes.splitAtClose_eq (h : Closes tokens bracket position close) :
    splitAtClose 0 (tokens.drop (position + 1)) =
      some { inside := between tokens position close
             close := bracket
             after := tokens.drop (close + 1) } := by
  rw [drop_eq_between_append h.later h.closing]
  exact (check_eq_ok_iff_balanced.1 h.inside).splitAtClose_eq bracket _

/-- The search finds the bracket that closes the scope, of whatever kind both are. -/
theorem Closes.matchingClose?_eq {first : Bracket} (h : Closes tokens bracket position close)
    (hp : tokens[position]? = some (.opening first)) :
    matchingClose? tokens position = some close := by
  have hlt := h.later
  rw [Scope.matchingClose?_eq hp, h.splitAtClose_eq, Option.map_some, length_between h.closing]
  exact congrArg some (by omega)

/-- In accepted tokens every opening bracket has a bracket that closes its scope. -/
theorem exists_closes (h : check tokens false = .ok ())
    (hp : tokens[position]? = some (.opening bracket)) :
    ∃ close, Closes tokens bracket position close := by
  have htokens : tokens = tokens.take position ++ .opening bracket :: tokens.drop (position + 1) := by
    rw [← drop_of_getElem? hp, List.take_append_drop]
  obtain ⟨inside, after, hrest, hinside⟩ := (check_eq_ok_iff_balanced.1 h).exists_close htokens
  refine ⟨position + 1 + inside.length, by omega, ?_, ?_⟩
  · rw [← List.getElem?_drop, hrest, List.getElem?_append_right (Nat.le_refl _), Nat.sub_self]
    rfl
  · rw [between, hrest, Nat.add_sub_cancel_left, List.take_left]
    exact hinside.check_eq_ok

/-- In accepted tokens the search, which does not look at kinds, comes from every opening bracket to
the one bracket that closes its scope, and parts the tokens there. -/
theorem closes_of_check (h : check tokens false = .ok ())
    (hp : tokens[position]? = some (.opening bracket)) :
    ∃ close, matchingClose? tokens position = some close ∧
      Closes tokens bracket position close ∧
      splitAtClose 0 (tokens.drop (position + 1)) =
        some { inside := between tokens position close
               close := bracket
               after := tokens.drop (close + 1) } ∧
      ∀ other kind, Closes tokens kind position other → other = close := by
  obtain ⟨close, hc⟩ := exists_closes h hp
  have hfound := hc.matchingClose?_eq hp
  refine ⟨close, hfound, hc, hc.splitAtClose_eq, ?_⟩
  intro other kind ho
  exact Option.some.inj ((ho.matchingClose?_eq hp).symm.trans hfound)

end

/-- Scopes of all kinds, inside one another and side by side. -/
def nestedTokens : List Token :=
  [.opening .square, .opening .round, .identifier "a", .opening .curly, .closing .curly,
   .closing .round, .separator .comma, .opening .round, .closing .round, .closing .square]

theorem closes_of_check_nested :
    check nestedTokens false = .ok () ∧ nestedTokens[1]? = some (.opening .round) ∧
      matchingClose? nestedTokens 1 = some 5 ∧ Closes nestedTokens .round 1 5 ∧
      splitAtClose 0 (nestedTokens.drop 2) =
        some { inside := between nestedTokens 1 5, close := .round, after := nestedTokens.drop 6 } ∧
      ∀ other kind, Closes nestedTokens kind 1 other → other = 5 := by
  have h : check nestedTokens false = .ok () := by decide
  have hp : nestedTokens[1]? = some (.opening .round) := by decide
  obtain ⟨close, hm, hrest⟩ := closes_of_check h hp
  have hfive : matchingClose? nestedTokens 1 = some 5 := by decide
  obtain rfl := Option.some.inj (hm.symm.trans hfive)
  exact ⟨h, hp, hm, hrest⟩

end SourceStyle.Scope
