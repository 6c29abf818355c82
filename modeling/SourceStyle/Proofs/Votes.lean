import SourceStyle.Inference
import SourceStyle.Proofs.Repetition
import SourceStyle.Proofs.Terminators

/-!
Inference on formatted tokens. What rules settle is found in no other style afterwards, so the votes
on it are for the options of the run.
-/

namespace SourceStyle

open Token Rule

namespace Text

theorem toNat_of_isAlpha {c : Char} (h : c.isAlpha = true) : c.toNat < 0x80 := by
  simp only [Char.isAlpha, Char.isUpper, Char.isLower, Bool.or_eq_true, Bool.and_eq_true,
    decide_eq_true_eq] at h
  rcases h with ⟨-, h⟩ | ⟨-, h⟩ <;>
    exact Nat.lt_of_le_of_lt (UInt32.le_iff_toNat_le.1 h) (by decide)

theorem case_of_isAlpha {c : Char} (h : c.isAlpha = true) :
    (upperChar c = [c] → c.isUpper = true) ∧
      (lowerChar c = [c] → c.isLower = true ∧ c.isUpper = false) := by
  have ha := toNat_of_isAlpha h
  have hc : c.isAlpha = true → (c.toUpper = c → c.isUpper = true) ∧
      (c.toLower = c → c.isLower = true ∧ c.isUpper = false) := of_ascii ha (by decide)
  obtain ⟨hu, hl⟩ := hc h
  rw [upperChar, lowerChar, if_pos ha, if_pos ha]
  exact ⟨fun he => hu (List.singleton_inj.1 he), fun he => hl (List.singleton_inj.1 he)⟩

end Text

namespace Inference

/-- Contexts are taken from the tokens, where something may stand before these. -/
theorem eq_append_of_mem_contextsAfter {before tokens : List Token} {context : Context}
    (h : context ∈ contextsAfter before tokens) :
    before.reverse ++ tokens = context.before.reverse ++ context.token :: context.after := by
  induction tokens generalizing before with
  | nil => cases h
  | cons token rest ih =>
      rcases List.mem_cons.1 h with rfl | h
      · rfl
      · rw [← ih h, List.reverse_cons, List.append_assoc, List.singleton_append]

theorem eq_append_of_mem_contexts {tokens : List Token} {context : Context}
    (h : context ∈ contexts tokens) :
    tokens = context.before.reverse ++ context.token :: context.after :=
  eq_append_of_mem_contextsAfter h

/-- What a range operator that votes against space stands between. -/
theorem eq_of_rangeVote? {context : Context} (h : rangeVote? context = some false) :
    ∃ before earlier text after later,
      context = ⟨before :: earlier, .operator text, after :: later⟩ ∧ isRangeOperator text = true ∧
        isOperandEnd before = true ∧ isOperandStart after = true := by
  obtain ⟨before, token, after⟩ := context
  unfold rangeVote? at h
  split at h
  · rename_i before earlier text after later hb ht ha
    dsimp only at hb ht ha
    subst hb ht ha
    split at h
    · cases h
    · rename_i hr
      split at h
      · cases h
      · split at h
        · rename_i ho
          refine ⟨before, earlier, text, after, later, rfl, by simpa using hr, ?_, ?_⟩
          · cases before <;> simp_all [touchesRange, isOperandEnd]
          · cases after <;> simp_all [touchesRange, isOperandStart]
        · cases h
  · cases h

variable {options : Options} {tokens : List Token}

/-- Ranges that are spaced as wanted do not vote against space where it is wanted. -/
theorem rangeVote?_of_passes {state : RangeState} (ho : options.spacedRanges = true)
    (h : (rangeWatch options).Passes state tokens) {context : Context}
    (hm : context ∈ contexts tokens) : rangeVote? context ≠ some false := by
  intro hv
  obtain ⟨before, earlier, text, after, later, rfl, hr, hb, ha⟩ := eq_of_rangeVote? hv
  rw [eq_append_of_mem_contexts hm, List.reverse_cons, List.append_assoc] at h
  obtain ⟨there, -, -, hp⟩ := h.suffix
  rw [show (rangeWatch options).next there before = .ended none from if_pos hb,
    rangeWatch_next_operator hr] at hp
  have hg := (hp.1 ha).1
  rw [rangeGap, if_pos ho] at hg
  cases hg

/-- Empty result types in the wanted form vote for it. -/
theorem voidVote?_of_passes {state : ArrowState} (h : (voidWatch options).Passes state tokens)
    {context : Context} (hm : context ∈ contexts tokens) {vote : Bool}
    (hv : voidVote? context = some vote) : vote = options.useVoid := by
  rw [eq_append_of_mem_contexts hm] at h
  obtain ⟨there, -, hp⟩ := h.suffix
  unfold voidVote? at hv
  split at hv
  · rename_i ht
    rw [ht, voidWatch_next_arrow, ← (voidWatch_deaf.ignores _).passes_skipSpace] at hp
    split at hv
    · rename_i name later hs
      split at hv
      · rename_i hn
        rw [hs, hn] at hp
        cases hv
        exact (useVoid_of_accepts_name hp.1).symm
      · cases hv
    · rename_i later hs
      rw [hs] at hp
      cases hv
      exact (useVoid_of_accepts_closing hp.2.1).symm
    · cases hv
  · cases hv

theorem case_of_mem_recased {digits : List Char} (hr : recase options digits = digits) {c : Char}
    (hm : c ∈ digits) (ha : c.isAlpha = true) :
    c.isUpper = options.uppercaseHex ∧ (options.uppercaseHex = false → c.isLower = true) := by
  obtain ⟨hu, hl⟩ := Text.case_of_isAlpha ha
  rw [← hr, recase] at hm
  cases ho : options.uppercaseHex with
  | true =>
      rw [ho, if_pos rfl] at hm
      obtain ⟨d, -, hd⟩ := List.mem_flatMap.1 hm
      exact ⟨hu (Text.upperChar_of_mem hd), fun hf => absurd hf.symm Bool.false_ne_true⟩
  | false =>
      rw [ho, if_neg Bool.false_ne_true] at hm
      obtain ⟨hl, hn⟩ := hl (Text.lowerChar_of_mem_lowerAfter c hm)
      exact ⟨hn, fun _ => hl⟩

theorem recase_of_recaseHex {text : String} {digits : List Char}
    (hd : hexDigits? text.toList = some digits)
    (h : recaseHex options (.number text) = .number text) : recase options digits = digits := by
  obtain ⟨x, -, he⟩ := eq_of_hexDigits? hd
  rw [recaseHex_of_some hd, Token.number.injEq] at h
  have hl := congrArg String.toList h
  rw [String.toList_ofList, he] at hl
  exact (List.cons.inj (List.cons.inj hl).2).2

/-- Hexadecimal literals in the wanted case vote for it. -/
theorem hexVote?_of_recased {token : Token} (h : recaseHex options token = token) {vote : Bool}
    (hv : hexVote? token = some vote) : vote = options.uppercaseHex := by
  cases token with
  | number text =>
      cases hd : hexDigits? text.toList with
      | none => simp [hexVote?, hd] at hv
      | some digits =>
          have hc : ∀ c ∈ digits.filter Char.isAlpha, c.isUpper = options.uppercaseHex ∧
              (options.uppercaseHex = false → c.isLower = true) := by
            intro c hm
            obtain ⟨hm, ha⟩ := List.mem_filter.1 hm
            exact case_of_mem_recased (recase_of_recaseHex hd h) hm ha
          simp only [hexVote?, hd, Option.getD_some] at hv
          cases hl : digits.filter Char.isAlpha with
          | nil =>
              rw [hl] at hv
              cases hv
          | cons c letters =>
              rw [hl] at hc hv
              cases ho : options.uppercaseHex with
              | true =>
                  rw [ho] at hc
                  have hu : (c :: letters).all Char.isUpper = true :=
                    List.all_eq_true.2 fun d hm => (hc d hm).1
                  rw [List.isEmpty_cons, if_neg Bool.false_ne_true, if_pos hu] at hv
                  exact (Option.some.inj hv).symm
              | false =>
                  rw [ho] at hc
                  have hu : ¬(c :: letters).all Char.isUpper = true := by
                    rw [List.all_cons, (hc c List.mem_cons_self).1]
                    exact Bool.false_ne_true
                  have hw : (c :: letters).all Char.isLower = true :=
                    List.all_eq_true.2 fun d hm => (hc d hm).2 rfl
                  rw [List.isEmpty_cons, if_neg Bool.false_ne_true, if_neg hu, if_pos hw] at hv
                  exact (Option.some.inj hv).symm
  | _ => cases hv

/-- Votes that are for the options wherever formatting decides what is voted on. -/
structure Votes.Agree (options : Options) (votes : Votes) : Prop where
  linebreak : ∀ vote ∈ votes.linebreak, vote = options.linebreak
  useVoid : ∀ vote ∈ votes.useVoid, vote = options.useVoid
  uppercaseHex : ∀ vote ∈ votes.uppercaseHex, vote = options.uppercaseHex
  spacedRanges : options.spacedRanges = true → ∀ vote ∈ votes.spacedRanges, vote = true

theorem observe_run_agree (options : Options) (tokens : List Token) :
    (observe (run all options tokens)).Agree options where
  linebreak vote hv := by
    obtain ⟨token, hm, hl⟩ := List.mem_filterMap.1 hv
    have hr := respelled_run options tokens token hm
    cases token with
    | linebreak ending =>
        cases hl
        exact (Token.linebreak.inj hr).symm
    | _ => cases hl
  useVoid vote hv := by
    obtain ⟨context, hm, hv⟩ := List.mem_filterMap.1 hv
    exact voidVote?_of_passes (voidWatch_passes_run options tokens) hm hv
  uppercaseHex vote hv := by
    obtain ⟨token, hm, hv⟩ := List.mem_filterMap.1 hv
    exact hexVote?_of_recased (recased_run options tokens token hm) hv
  spacedRanges ho vote hv := by
    obtain ⟨context, hm, hv⟩ := List.mem_filterMap.1 hv
    cases vote with
    | true => rfl
    | false => exact absurd hv (rangeVote?_of_passes ho (rangeWatch_passes_run options tokens) hm)

/-- Formatted source votes for the options it was formatted with, on terminators, empty results and
hexadecimal digits, and on ranges if they are spaced. -/
theorem observe_formatted {source out : String} (h : format Rule.all options source = .ok out) :
    ∃ tokens, readTokens options source = .ok tokens ∧
      out = render (run all options tokens) ∧ (observe (run all options tokens)).Agree options := by
  obtain ⟨tokens, hr, ho⟩ := format_eq_ok.1 h
  exact ⟨tokens, hr, ho, observe_run_agree options tokens⟩

set_option maxRecDepth 10000 in
theorem observe_formatted_spaced :
    ∃ tokens, readTokens {} "1...n\n->() 0xa" = .ok tokens ∧
      "1 ... n\n->Void 0xA" = render (run all {} tokens) ∧
      (observe (run all {} tokens)).Agree {} :=
  observe_formatted (by cbv)

end Inference

end SourceStyle
