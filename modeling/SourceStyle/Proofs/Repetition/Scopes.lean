import SourceStyle.Formatter
import SourceStyle.Proofs.Essence.Rules
import SourceStyle.Proofs.Spaces

/-!
Scopes stay balanced: what rules leave of source that was accepted would be accepted again.
-/

namespace SourceStyle

open Token Rule Essence

/-- A watch for brackets that do not close the innermost open scope, and for scopes that are not
closed. -/
def scopeWatch : Watch (List Bracket) where
  accepts
    | stack, .closing bracket => stack.head? = some bracket
    | _, _ => True
  next
    | stack, .opening bracket => bracket :: stack
    | stack, .closing _ => stack.tail
    | stack, _ => stack
  final stack := stack = []

def Token.isBracket : Token → Bool
  | .opening _ | .closing _ => true
  | _ => false

section
variable {stack : List Bracket} {tokens first second : List Token}

theorem scopeWatch_ignores (stack : List Bracket) :
    scopeWatch.Ignores (!·.isBracket) stack := by
  intro token ht
  cases token <;> first | exact ⟨trivial, rfl⟩ | cases ht

theorem scopeWatch_passes_cons {token : Token} (ht : token.isBracket = false) :
    scopeWatch.Passes stack (token :: tokens) ↔ scopeWatch.Passes stack tokens := by
  obtain ⟨ha, hn⟩ := scopeWatch_ignores stack token (by simp [ht])
  rw [Watch.Passes, hn]
  exact and_iff_right ha

theorem scopeWatch_plain : scopeWatch.Blind plain := by
  intro stack token
  cases token <;> exact ⟨Iff.rfl, rfl⟩

theorem scopeWatch_passes_content :
    scopeWatch.Passes stack (content tokens) ↔ scopeWatch.Passes stack tokens := by
  induction tokens generalizing stack with
  | nil => rfl
  | cons token tokens ih =>
      rw [content_cons]
      split
      · have ht : token.isBracket = false := by
          cases token <;> first | rfl | simp [isLayout, isWhitespace, isLinebreak] at *
        rw [scopeWatch_passes_cons ht, ih]
      · obtain ⟨ha, hn⟩ := scopeWatch_plain stack token
        rw [Watch.Passes, Watch.Passes, ha, hn, ih]

theorem scopeWatch_passes_dropSemicolons (nesting : Nat) :
    scopeWatch.Passes stack (dropSemicolons nesting tokens) ↔ scopeWatch.Passes stack tokens := by
  induction tokens generalizing stack nesting with
  | nil => rfl
  | cons token tokens ih =>
      rw [dropSemicolons]
      split
      · rename_i hs
        rw [ih, scopeWatch_passes_cons (by rw [hs.1]; rfl)]
      · rw [Watch.Passes, Watch.Passes, ih]

theorem scopeWatch_passes_dropCommas :
    scopeWatch.Passes stack (dropCommas tokens) ↔ scopeWatch.Passes stack tokens := by
  induction tokens generalizing stack with
  | nil => rfl
  | cons token tokens ih =>
      rw [dropCommas]
      split
      · rename_i hs
        rw [ih, scopeWatch_passes_cons (by rw [hs.1]; rfl)]
      · rw [Watch.Passes, Watch.Passes, ih]

theorem scopeWatch_passes_core (nesting : Nat) :
    scopeWatch.Passes stack (core nesting tokens) ↔ scopeWatch.Passes stack tokens := by
  rw [core, scopeWatch_passes_dropCommas, scopeWatch_passes_dropSemicolons,
    scopeWatch_passes_content]

theorem Essence.EmptyResult.scopeWatch_passes {form : List Token} (h : EmptyResult form) :
    scopeWatch.Passes stack (form ++ tokens) ↔ scopeWatch.Passes stack tokens := by
  cases h with
  | name => exact scopeWatch_passes_cons rfl
  | tuple =>
      rw [List.cons_append, List.cons_append, List.nil_append, Watch.Passes, Watch.Passes]
      exact (and_iff_right trivial).trans (and_iff_right rfl)

theorem Essence.VoidAlike.scopeWatch_passes {arrow : Bool} (h : VoidAlike arrow first second) :
    scopeWatch.Passes stack first ↔ scopeWatch.Passes stack second := by
  induction h generalizing stack with
  | nil => rfl
  | cons _ ih => rw [Watch.Passes, Watch.Passes, ih]
  | result hf ho _ ih => rw [hf.scopeWatch_passes, ho.scopeWatch_passes, ih]

theorem scopeWatch_recaseHex (options : Options) : scopeWatch.Blind (recaseHex options) := by
  intro stack token
  cases token with
  | number text =>
      rw [recaseHex]
      split <;> exact ⟨Iff.rfl, rfl⟩
  | _ => exact ⟨Iff.rfl, rfl⟩

theorem scopeWatch_merges : scopeWatch.Merges := fun _ _ _ _ _ => ⟨trivial, rfl⟩

theorem scopeWatch_passes_header (options : Options) (h : scopeWatch.Passes stack tokens) :
    scopeWatch.Passes stack (header options tokens) := by
  obtain ⟨lead, hl, he, -⟩ := exists_append_header options tokens
  rw [he] at h
  refine ((scopeWatch_ignores stack).passes_append fun token hm => ?_).1 h
  have ht := hl token hm
  cases token <;> first | rfl | cases ht

/-- No rule opens or closes a scope without closing or opening it as well. -/
theorem scopeWatch_passes_apply (options : Options) {rule : Rule} (hr : rule ∈ all)
    (h : scopeWatch.Passes stack tokens) : scopeWatch.Passes stack (rule.apply options tokens) := by
  have hc : ∀ {edited : List Token}, content edited = content tokens →
      scopeWatch.Passes stack edited := by
    intro edited he
    rwa [← scopeWatch_passes_content, he, scopeWatch_passes_content]
  cases hr using mem_all_cases with
  | linebreaks => exact hc (content_linebreaks options tokens)
  | header => exact scopeWatch_passes_header options h
  | semicolons =>
      have hs := dropSemicolons_semicolonsFrom options 0 tokens
      rw [← scopeWatch_passes_content, ← scopeWatch_passes_dropSemicolons 0] at h ⊢
      exact hs ▸ h
  | ranges => exact hc (content_ranges options tokens)
  | voidTypes =>
      rw [← scopeWatch_passes_content] at h ⊢
      exact (voidAlike_voidTypes options false tokens).scopeWatch_passes.2 h
  | hexLiterals => exact (scopeWatch_recaseHex options).passes_map h
  | trailingCommas =>
      have hi := (interchangeable_trailingCommas options tokens 0 []).1
      rw [List.append_nil, List.append_nil] at hi
      rw [← scopeWatch_passes_core 0] at h ⊢
      rwa [hi]
  | braces => exact hc (content_braces options tokens)
  | blankLinesAtScopeEdges => exact hc (content_blankLinesAtScopeEdges options tokens)
  | blankLinesBetweenScopes => exact hc (content_blankLinesBetweenScopes options tokens)
  | consecutiveBlankLines => exact hc (content_consecutiveBlankLines options tokens)
  | indentation => exact hc (content_indentation options tokens)
  | trailingWhitespace => exact hc (content_trailingWhitespace options tokens)

end

namespace Scope

theorem faultFrom_eq_none_iff {stack : List (Bracket × Nat)} {line : Nat} {tokens : List Token} :
    faultFrom stack line tokens = none ↔
      scopeWatch.Passes (stack.map Prod.fst) tokens := by
  fun_induction faultFrom stack line tokens with
  | case1 line stack => cases stack <;> simp [Watch.Passes, scopeWatch]
  | case2 line stack bracket rest ih => exact ih.trans (and_iff_right trivial).symm
  | case3 line bracket rest => simp [Watch.Passes, scopeWatch]
  | case4 line rest bracket _ outer ih => exact ih.trans (and_iff_right rfl).symm
  | case5 line bracket rest innermost _ outer hn => simp [Watch.Passes, scopeWatch, hn]
  | case6 stack line token rest ho hc ih =>
      rw [ih, scopeWatch_passes_cons]
      cases token with
      | opening bracket => exact absurd rfl (ho bracket)
      | closing bracket => exact absurd rfl (hc bracket)
      | _ => rfl

theorem check_eq_ok_iff {tokens : List Token} {fragment : Bool} :
    check tokens fragment = .ok () ↔ fragment = true ∨ scopeWatch.Passes [] tokens := by
  have hf : fault? tokens = none ↔ scopeWatch.Passes [] tokens := faultFrom_eq_none_iff
  rw [check, ← hf]
  cases fault? tokens with
  | none => simp
  | some fault => cases fragment <;> simp

/-- What is left of accepted source is accepted. -/
theorem check_mergeSpaces_run {options : Options} {tokens : List Token} {fragment : Bool}
    (h : check tokens fragment = .ok ()) :
    check (mergeSpaces (run all options tokens)) fragment = .ok () := by
  rw [check_eq_ok_iff] at h ⊢
  refine h.imp id fun hp => scopeWatch_merges.passes_mergeSpaces ?_
  exact applyAll_induction (fun _ hm _ h => scopeWatch_passes_apply options hm h)
    (fun _ hm => (List.mem_filter.1 hm).1) hp

end Scope
end SourceStyle
