import Mathlib
import SourceStyle.Proofs.LineNumbers
import SourceStyle.Proofs.Repetition.Scopes

/-!
Balance of scopes. The check of whole source accepts exactly the balanced token lists, and tells of
the others the first closing bracket that is out of place, or else the innermost scope left open.
-/

namespace SourceStyle

namespace Scope

open Token

/-- The brackets among the tokens pair up, each kind with its own. -/
inductive Balanced : List Token → Prop
  | nil : Balanced []
  | skip {token : Token} {rest : List Token} : token.isBracket = false → Balanced rest →
      Balanced (token :: rest)
  | scope {bracket : Bracket} {inside after : List Token} : Balanced inside → Balanced after →
      Balanced (.opening bracket :: (inside ++ .closing bracket :: after))

/-- The scopes that the tokens leave open, innermost first, each with the tokens before it. No
closing bracket among the tokens is out of place. -/
inductive LeavesOpen : List Token → List (Bracket × List Token) → Prop
  | balanced {tokens : List Token} : Balanced tokens → LeavesOpen tokens []
  | opened {before inside : List Token} {bracket : Bracket} {scopes : List (Bracket × List Token)} :
      LeavesOpen before scopes → Balanced inside →
      LeavesOpen (before ++ .opening bracket :: inside) ((bracket, before) :: scopes)

/-- What is to be told of the scopes of whole source. -/
inductive Verdict (tokens : List Token) : Except SyntaxError Unit → Prop
  | balanced : Balanced tokens → Verdict tokens (.ok ())
  | unexpected {before after : List Token} {bracket : Bracket}
      {scopes : List (Bracket × List Token)} :
      tokens = before ++ .closing bracket :: after → LeavesOpen before scopes →
      scopes.head?.map Prod.fst ≠ some bracket →
      Verdict tokens (.error { line := lineAfter before, fault := .unexpected bracket })
  | unclosed {before inside : List Token} {bracket : Bracket}
      {scopes : List (Bracket × List Token)} :
      tokens = before ++ .opening bracket :: inside → LeavesOpen before scopes → Balanced inside →
      Verdict tokens (.error { line := lineAfter before, fault := .unclosed bracket })

theorem Balanced.append {first second : List Token} (h : Balanced first) (k : Balanced second) :
    Balanced (first ++ second) := by
  induction h with
  | nil => exact k
  | skip ht _ ih => exact .skip ht ih
  | @scope bracket inside after hi _ _ ih =>
      rw [List.cons_append, List.append_assoc, List.cons_append]
      exact .scope hi ih

theorem balanced_singleton {token : Token} (h : token.isBracket = false) : Balanced [token] :=
  .skip h .nil

theorem balanced_pair {bracket : Bracket} {inside : List Token} (h : Balanced inside) :
    Balanced (.opening bracket :: (inside ++ [.closing bracket])) :=
  .scope h .nil

theorem LeavesOpen.append {before tokens : List Token} {scopes : List (Bracket × List Token)}
    (h : LeavesOpen before scopes) (k : Balanced tokens) : LeavesOpen (before ++ tokens) scopes := by
  cases h with
  | balanced hb => exact .balanced (hb.append k)
  | opened ho hb =>
      rw [List.append_assoc, List.cons_append]
      exact .opened ho (hb.append k)

theorem LeavesOpen.close {before outer : List Token} {bracket : Bracket}
    {scopes : List (Bracket × List Token)}
    (h : LeavesOpen before ((bracket, outer) :: scopes)) :
    LeavesOpen (before ++ [.closing bracket]) scopes := by
  cases h with
  | opened ho hb =>
      rw [List.append_assoc, List.cons_append]
      exact ho.append (balanced_pair hb)

/-! ### What the check makes of it -/

def spanned (tokens : List Token) : Nat :=
  (tokens.map linesIn).sum

@[simp] theorem spanned_append (first second : List Token) :
    spanned (first ++ second) = spanned first + spanned second := by
  simp [spanned]

@[simp] theorem spanned_cons (token : Token) (rest : List Token) :
    spanned (token :: rest) = linesIn token + spanned rest := by
  simp [spanned]

def onLines (scopes : List (Bracket × List Token)) : List (Bracket × Nat) :=
  scopes.map fun scope => (scope.1, 1 + spanned scope.2)

theorem faultFrom_skip {token : Token} (h : token.isBracket = false) (stack : List (Bracket × Nat))
    (line : Nat) (rest : List Token) :
    faultFrom stack line (token :: rest) = faultFrom stack (line + linesIn token) rest := by
  cases token with
  | opening bracket => cases h
  | closing bracket => cases h
  | _ => rfl

theorem Balanced.faultFrom_append {tokens : List Token} (h : Balanced tokens)
    (stack : List (Bracket × Nat)) (line : Nat) (rest : List Token) :
    faultFrom stack line (tokens ++ rest) = faultFrom stack (line + spanned tokens) rest := by
  induction h generalizing stack line rest with
  | nil => rfl
  | @skip token following ht _ ih =>
      rw [List.cons_append, faultFrom_skip ht, ih, spanned_cons, Nat.add_assoc]
  | @scope bracket inside after _ _ ih ik =>
      rw [List.cons_append, List.append_assoc, List.cons_append, faultFrom, ih, faultFrom,
        if_pos rfl, ik]
      simp [linesIn, Nat.add_assoc]

theorem LeavesOpen.fault?_append {before : List Token} {scopes : List (Bracket × List Token)}
    (h : LeavesOpen before scopes) (rest : List Token) :
    fault? (before ++ rest) = faultFrom (onLines scopes) (1 + spanned before) rest := by
  induction h generalizing rest with
  | balanced hb => exact hb.faultFrom_append [] 1 rest
  | @opened before inside bracket scopes _ hb ih =>
      rw [List.append_assoc, List.cons_append, ih, faultFrom, hb.faultFrom_append]
      simp [onLines, linesIn, Nat.add_assoc]

theorem check_of_fault {tokens : List Token} {error : SyntaxError} (h : fault? tokens = some error) :
    check tokens false = .error error := by
  rw [check, h]
  rfl

theorem check_of_no_fault {tokens : List Token} (h : fault? tokens = none) (fragment : Bool) :
    check tokens fragment = .ok () := by
  rw [check, h]

section
variable {tokens : List Token}
  (hl : ∀ first second, tokens = first ++ second → lineAfter first = 1 + spanned first)
include hl

/-- The check tells the verdict of tokens of which some have been read. The induction is on the
others: each but a bracket out of place leads to the same scopes, to one more or to one less. -/
theorem verdict_check_of_append {before rest : List Token} {scopes : List (Bracket × List Token)}
    (ht : tokens = before ++ rest) (h : LeavesOpen before scopes) :
    Verdict tokens (check tokens false) := by
  have hf := h.fault?_append rest
  rw [← ht] at hf
  -- what is read so far moves into `before`, and the scopes that it leaves open carry the verdict
  induction rest generalizing before scopes with
  | nil =>
      cases h with
      | balanced hb =>
          rw [check_of_no_fault hf, ht, List.append_nil]
          exact .balanced hb
      | @opened outer inside bracket scopes ho hb =>
          have hu : tokens = outer ++ .opening bracket :: inside := by rw [ht, List.append_nil]
          have hunclosed : fault? tokens =
              some { line := 1 + spanned outer, fault := .unclosed bracket } := hf
          rw [check_of_fault hunclosed, ← hl outer _ hu]
          exact .unclosed hu ho hb
  | cons token rest ih =>
      have hsplit : tokens = before ++ [token] ++ rest := by
        rw [ht, List.append_assoc, List.singleton_append]
      have hgo {after : List (Bracket × List Token)} (ha : LeavesOpen (before ++ [token]) after) :
          Verdict tokens (check tokens false) := by
        apply ih hsplit ha
        rw [hsplit]
        exact ha.fault?_append rest
      cases hb : token.isBracket with
      | false => exact hgo (h.append (balanced_singleton hb))
      | true =>
          cases token with
          | opening bracket => exact hgo (.opened h .nil)
          | closing bracket =>
              have hunexpected (hn : scopes.head?.map Prod.fst ≠ some bracket)
                  (hf : fault? tokens =
                    some { line := 1 + spanned before, fault := .unexpected bracket }) :
                  Verdict tokens (check tokens false) := by
                rw [check_of_fault hf, ← hl before _ ht]
                exact .unexpected ht h hn
              cases scopes with
              | nil => exact hunexpected nofun hf
              | cons scope scopes =>
                  obtain ⟨innermost, outer⟩ := scope
                  by_cases hm : innermost = bracket
                  · subst hm
                    exact hgo h.close
                  · apply hunexpected
                    · intro he
                      exact hm (Option.some.inj he)
                    · rw [hf]
                      exact if_neg hm
          | _ => cases hb

theorem Verdict.check_eq {verdict : Except SyntaxError Unit} (h : Verdict tokens verdict) :
    check tokens false = verdict := by
  cases h with
  | balanced hb =>
      apply check_of_no_fault
      have hf := (LeavesOpen.balanced hb).fault?_append []
      rwa [List.append_nil] at hf
  | @unexpected before after bracket scopes ht ho hn =>
      apply check_of_fault
      have hf := ho.fault?_append (.closing bracket :: after)
      rw [ht, hf, hl before _ ht]
      cases scopes with
      | nil => rfl
      | cons scope scopes =>
          have hm : scope.1 ≠ bracket := by
            intro he
            exact hn (congrArg some he)
          exact if_neg hm
  | @unclosed before inside bracket scopes ht ho hb =>
      apply check_of_fault
      have hs : LeavesOpen (before ++ .opening bracket :: inside) ((bracket, before) :: scopes) :=
        .opened ho hb
      have hf := hs.fault?_append []
      rw [List.append_nil, ← ht] at hf
      rw [hf, hl before _ ht]
      rfl

end

end Scope

open Token

/-- The line of each token is the number of lines that the tokens before it span, and one. -/
theorem lineAfter_of_tokenize {source : String} {first second : List Token}
    (h : tokenize source = .ok (first ++ second)) :
    lineAfter first = 1 + Scope.spanned first := by
  rw [lineAfter, (tokenize_eq_ok_iff.1 h).upTo.count_renderChars, Scope.spanned]

/-- The check accepts exactly balanced source, tells of other source what is wrong first and where,
and accepts every fragment. -/
theorem check_verdict {source : String} {tokens : List Token} (h : tokenize source = .ok tokens) :
    source.toList = renderChars tokens ∧
      (∀ verdict, Scope.check tokens false = verdict ↔ Scope.Verdict tokens verdict) ∧
      Scope.check tokens true = .ok () := by
  have hl : ∀ first second, tokens = first ++ second →
      lineAfter first = 1 + Scope.spanned first := by
    intro first second ht
    rw [ht] at h
    exact lineAfter_of_tokenize h
  refine ⟨(tokenize_eq_ok_iff.1 h).renderChars.symm, ?_, Scope.check_eq_ok_iff.2 (.inl rfl)⟩
  intro verdict
  constructor
  · rintro rfl
    exact Scope.verdict_check_of_append hl rfl (.balanced .nil)
  · exact fun hv => hv.check_eq hl

/-- A bracket out of place behind line terminators in a comment and in a literal. -/
def misplacedTokens : List Token :=
  [.opening .curly, .blockComment "/*\r\n*/", .opening .square, .stringLiteral "\"\\\n\"",
    .closing .round]

theorem check_verdict_misplaced :
    tokenize "\x7b/*\r\n*/[\"\\\n\")" = .ok misplacedTokens ∧
      Scope.Verdict misplacedTokens (.error { line := 3, fault := .unexpected .round }) ∧
      Scope.check misplacedTokens true = .ok () := by
  have h : tokenize "\x7b/*\r\n*/[\"\\\n\")" = .ok misplacedTokens := by cbv
  obtain ⟨-, hv, hc⟩ := check_verdict h
  exact ⟨h, (hv _).1 (by decide +kernel), hc⟩

end SourceStyle
