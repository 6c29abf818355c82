import SourceStyle.Token.Fault

/-!
Balance of scopes. Whole source must close every scope it opens and nothing else; a fragment may do
either.
-/

namespace SourceStyle.Scope

def linesIn : Token → Nat
  | .linebreak _ => 1
  | .blockComment text | .stringLiteral text => Linebreak.count text.toList
  | _ => 0

/-- The first fault of tokens that begin on the given line inside the scopes in `stack`, innermost
first, each with the line it was opened on. -/
def faultFrom (stack : List (Bracket × Nat)) (line : Nat) : List Token → Option SyntaxError
  | [] => stack.head?.map fun scope => { line := scope.2, fault := .unclosed scope.1 }
  | .opening bracket :: rest => faultFrom ((bracket, line) :: stack) line rest
  | .closing bracket :: rest =>
    match stack with
    | [] => some { line, fault := .unexpected bracket }
    | (innermost, _) :: outer =>
      if innermost = bracket then faultFrom outer line rest
      else some { line, fault := .unexpected bracket }
  | token :: rest => faultFrom stack (line + linesIn token) rest

def fault? (tokens : List Token) : Option SyntaxError :=
  faultFrom [] 1 tokens

/-- Refuses whole source whose scopes are not balanced. A fragment is always accepted. -/
def check (tokens : List Token) (fragment : Bool) : Except SyntaxError Unit :=
  match fault? tokens with
  | some error => if fragment then .ok () else .error error
  | none => .ok ()

/-- What follows an opening bracket, split at the bracket that closes its scope. -/
structure Split where
  inside : List Token
  close : Bracket
  after : List Token
deriving DecidableEq, Repr

def Split.cons (token : Token) (split : Split) : Split :=
  { split with inside := token :: split.inside }

/-- Splits what follows an opening bracket at the bracket that closes its scope. `depth` counts the
scopes open inside, and brackets of all kinds count alike. -/
def splitAtClose (depth : Nat) : List Token → Option Split
  | [] => none
  | .opening bracket :: rest => (splitAtClose (depth + 1) rest).map (.cons (.opening bracket))
  | .closing bracket :: rest =>
    match depth with
    | 0 => some { inside := [], close := bracket, after := rest }
    | outer + 1 => (splitAtClose outer rest).map (.cons (.closing bracket))
  | token :: rest => (splitAtClose depth rest).map (.cons token)

/-- The inside of a scope, its closing bracket and what comes after are together what was split. -/
theorem append_of_splitAtClose {depth : Nat} {tokens : List Token} {split : Split}
    (h : splitAtClose depth tokens = some split) :
    split.inside ++ .closing split.close :: split.after = tokens := by
  fun_induction splitAtClose depth tokens generalizing split with
  | case1 => simp at h
  | case3 => cases h; rfl
  | case2 _ _ _ ih | case4 _ _ _ ih | case5 _ _ _ _ _ ih =>
    obtain ⟨inner, hs, rfl⟩ := Option.map_eq_some_iff.1 h
    simp [Split.cons, ih hs]

theorem length_inside_lt {depth : Nat} {tokens : List Token} {split : Split}
    (h : splitAtClose depth tokens = some split) : split.inside.length < tokens.length := by
  rw [← append_of_splitAtClose h, List.length_append, List.length_cons]
  omega

/-- What comes after a scope is shorter than what was split. -/
theorem length_after_lt {depth : Nat} {tokens : List Token} {split : Split}
    (h : splitAtClose depth tokens = some split) : split.after.length < tokens.length := by
  rw [← append_of_splitAtClose h, List.length_append, List.length_cons]
  omega

end SourceStyle.Scope
