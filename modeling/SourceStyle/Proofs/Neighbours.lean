import Mathlib.Data.List.DropRight
import SourceStyle.Token

/-!
The nearest tokens in front of and behind a place, tokens of some kind left aside.
-/

namespace SourceStyle.Token

def lastBut? (kind : Token → Bool) (tokens : List Token) : Option Token :=
  (tokens.rdropWhile kind).getLast?

section
variable {kind : Token → Bool} {token : Token} {tokens : List Token}

theorem lastBut?_append {front gap : List Token} (ht : kind token = false)
    (hg : ∀ other ∈ gap, kind other = true) : lastBut? kind (front ++ token :: gap) = some token := by
  have hr : ∀ other ∈ gap.reverse, kind other = true :=
    fun other hm => hg other (List.mem_reverse.1 hm)
  rw [lastBut?, List.rdropWhile, List.reverse_append, List.reverse_cons, List.append_assoc,
    List.dropWhile_append_of_pos hr, List.singleton_append,
    List.dropWhile_cons_of_neg (by simp [ht]), List.reverse_cons, List.getLast?_concat]

/-- Only tokens of the kind stand behind the last that is not of it. -/
theorem lastBut?_eq_some_iff :
    lastBut? kind tokens = some token ↔
      ∃ front gap, tokens = front ++ token :: gap ∧ kind token = false ∧
        ∀ other ∈ gap, kind other = true := by
  constructor
  · intro h
    obtain ⟨front, hf⟩ := List.getLast?_eq_some_iff.1 h
    refine ⟨front, tokens.rtakeWhile kind, ?_, ?_, fun other hm => List.mem_rtakeWhile_imp hm⟩
    · have hs : tokens.rdropWhile kind ++ tokens.rtakeWhile kind = tokens :=
        List.rdropWhile_append_rtakeWhile
      rw [hf, List.append_assoc, List.singleton_append] at hs
      exact hs.symm
    · have hn : tokens.rdropWhile kind ≠ [] := by
        rw [hf]
        exact List.concat_ne_nil _ _
      have hl := List.rdropWhile_last_not kind tokens hn
      rw [Option.some.inj ((List.getLast?_eq_some_getLast hn).symm.trans h)] at hl
      simpa using hl
  · rintro ⟨front, gap, rfl, ht, hg⟩
    exact lastBut?_append ht hg

theorem lastBut?_eq_none_iff : lastBut? kind tokens = none ↔ ∀ token ∈ tokens, kind token = true := by
  rw [lastBut?, List.getLast?_eq_none_iff, List.rdropWhile_eq_nil_iff]

theorem lastBut?_eq_head? : lastBut? kind tokens = (tokens.reverse.dropWhile kind).head? := by
  rw [lastBut?, List.rdropWhile, List.getLast?_reverse]

theorem exists_lastBut? (h : ∃ token ∈ tokens, kind token = false) :
    ∃ token, lastBut? kind tokens = some token := by
  rw [← Option.ne_none_iff_exists']
  intro hn
  obtain ⟨token, hm, ht⟩ := h
  rw [lastBut?_eq_none_iff.1 hn token hm] at ht
  cases ht

theorem skipSpace_append {gap : List Token} (hg : ∀ other ∈ gap, other.isWhitespace = true)
    (ht : token.isWhitespace = false) (rest : List Token) :
    skipSpace (gap ++ token :: rest) = token :: rest := by
  rw [skipSpace, List.dropWhile_append_of_pos hg, List.dropWhile_cons_of_neg (by simp [ht])]

theorem skipSpace_ne_nil (h : ∃ token ∈ tokens, token.isWhitespace = false) :
    skipSpace tokens ≠ [] := by
  rw [skipSpace, ne_eq, List.dropWhile_eq_nil_iff]
  intro hall
  obtain ⟨token, hm, hw⟩ := h
  rw [hall token hm] at hw
  cases hw

/-- Space is skipped as far as there is anything else. -/
theorem skipSpace_append_of_exists (h : ∃ token ∈ tokens, token.isWhitespace = false)
    (rest : List Token) : skipSpace (tokens ++ rest) = skipSpace tokens ++ rest := by
  have hn : (tokens.dropWhile isWhitespace).isEmpty = false :=
    List.isEmpty_eq_false_iff.2 (skipSpace_ne_nil h)
  rw [skipSpace, List.dropWhile_append, hn]
  rfl

theorem not_isLinebreak_of_mem_takeWhile_isWhitespace :
    ∀ token ∈ tokens.takeWhile isWhitespace, token.isLinebreak = false := by
  intro token hm
  have hw := List.mem_takeWhile_imp hm
  cases token with
  | whitespace text => rfl
  | _ => cases hw

end

end SourceStyle.Token
