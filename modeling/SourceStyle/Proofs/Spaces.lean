import Mathlib.Data.List.Chain
import SourceStyle.Proofs.Upkeep

/-!
Runs of space. Rules leave space side by side in several tokens; reading the text again makes one
token of it.
-/

namespace SourceStyle

namespace Token

def mergeSpaces : List Token → List Token
  | [] => []
  | .whitespace text :: rest =>
    match mergeSpaces rest with
    | .whitespace following :: more => .whitespace (text ++ following) :: more
    | more => .whitespace text :: more
  | token :: rest => token :: mergeSpaces rest

def visible (tokens : List Token) : List Token :=
  tokens.filter (!·.isWhitespace)

theorem visible_cons_of_not {token : Token} (h : token.isWhitespace = false) (rest : List Token) :
    visible (token :: rest) = token :: visible rest := by
  rw [visible, List.filter_cons_of_pos (by simp [h]), visible]

theorem visible_skipSpace (tokens : List Token) : visible (skipSpace tokens) = visible tokens := by
  have hw : (tokens.takeWhile isWhitespace).filter (!·.isWhitespace) = [] :=
    List.filter_eq_nil_iff.2 fun token hm => by simp [List.all_eq_true.1 List.all_takeWhile token hm]
  have ht := congrArg visible (takeWhile_append_skipSpace tokens)
  rwa [visible, List.filter_append, hw, List.nil_append, ← visible] at ht

theorem visible_mergeSpaces (tokens : List Token) :
    visible (mergeSpaces tokens) = visible tokens := by
  fun_induction mergeSpaces tokens with
  | case1 => rfl
  | case2 text rest following more he ih =>
      rw [he] at ih
      exact ih
  | case3 text rest hn ih => exact ih
  | case4 token rest hn ih =>
      unfold visible at ih ⊢
      rw [List.filter_cons, List.filter_cons, ih]

theorem forall_mem_mergeSpaces {P : Token → Prop} (hw : ∀ text, P (.whitespace text))
    {tokens : List Token} (h : ∀ token ∈ tokens, P token) : ∀ token ∈ mergeSpaces tokens, P token := by
  fun_induction mergeSpaces tokens with
  | case1 => exact h
  | case2 text rest following more he ih =>
      have hr := ih (List.forall_mem_cons.1 h).2
      rw [he, List.forall_mem_cons] at hr
      exact List.forall_mem_cons.2 ⟨hw _, hr.2⟩
  | case3 text rest _ ih => exact List.forall_mem_cons.2 ⟨hw text, ih (List.forall_mem_cons.1 h).2⟩
  | case4 token rest _ ih =>
      obtain ⟨ht, hr⟩ := List.forall_mem_cons.1 h
      exact List.forall_mem_cons.2 ⟨ht, ih hr⟩

/-- No space stands beside space. -/
def Merged (tokens : List Token) : Prop :=
  tokens.IsChain fun first second => first.isWhitespace = true → second.isWhitespace = false

theorem merged_mergeSpaces (tokens : List Token) : Merged (mergeSpaces tokens) := by
  fun_induction mergeSpaces tokens with
  | case1 => exact .nil
  | case2 text rest following more he ih =>
      rw [he, Merged, List.isChain_cons] at ih
      exact List.isChain_cons.2 ih
  | case3 text rest hn ih =>
      refine List.isChain_cons.2 ⟨fun token hm _ => ?_, ih⟩
      obtain ⟨more, he⟩ := List.head?_eq_some_iff.1 (Option.mem_def.1 hm)
      cases token with
      | whitespace following => exact absurd he (hn following more)
      | _ => rfl
  | case4 token rest hn ih =>
      refine List.isChain_cons.2 ⟨fun _ _ hw => ?_, ih⟩
      cases token with
      | whitespace text => exact absurd rfl (hn text)
      | _ => cases hw

theorem Merged.tail {token : Token} {rest : List Token} (h : Merged (token :: rest)) : Merged rest :=
  List.IsChain.tail h

theorem Merged.suffix {first second : List Token} (h : Merged (first ++ second)) : Merged second :=
  List.IsChain.suffix h (List.suffix_append first second)

theorem Merged.gap {tokens : List Token} (h : Merged tokens) :
    tokens.takeWhile isWhitespace = [] ∨
      ∃ text, tokens.takeWhile isWhitespace = [.whitespace text] := by
  cases tokens with
  | nil => exact .inl rfl
  | cons token rest =>
      cases token with
      | whitespace text =>
          refine .inr ⟨text, ?_⟩
          rw [List.takeWhile_cons_of_pos rfl]
          cases rest with
          | nil => rfl
          | cons second rest =>
              rw [List.takeWhile_cons_of_neg (by simp [(List.isChain_cons_cons.1 h).1 rfl])]
      | _ => exact .inl rfl

theorem Merged.eq_gap {gap rest : List Token} {token : Token} (h : Merged (gap ++ token :: rest))
    (hg : ∀ other ∈ gap, other.isWhitespace = true) (ht : token.isWhitespace = false) :
    gap = [] ∨ ∃ text, gap = [.whitespace text] := by
  have hw := h.gap
  rwa [List.takeWhile_append_of_pos hg, List.takeWhile_cons_of_neg (by simp [ht]),
    List.append_nil] at hw

end Token

namespace Watch

open Token Rule

variable {State : Type} {watch : Watch State}

/-- Space is read as well in one token as in two. -/
def Merges (watch : Watch State) : Prop :=
  ∀ state text following, watch.accepts state (.whitespace text) →
    watch.accepts (watch.next state (.whitespace text)) (.whitespace following) →
    watch.accepts state (.whitespace (text ++ following)) ∧
      watch.next state (.whitespace (text ++ following)) =
        watch.next (watch.next state (.whitespace text)) (.whitespace following)

theorem Merges.passes_mergeSpaces (h : watch.Merges) {state : State} {tokens : List Token}
    (hp : watch.Passes state tokens) : watch.Passes state (mergeSpaces tokens) := by
  fun_induction mergeSpaces tokens generalizing state with
  | case1 => exact hp
  | case2 text rest following more he ih =>
      have hr := ih hp.2
      rw [he] at hr
      obtain ⟨ha, hn⟩ := h state text following hp.1 hr.1
      refine ⟨ha, ?_⟩
      rw [hn]
      exact hr.2
  | case3 text rest _ ih | case4 token rest _ ih => exact ⟨hp.1, ih hp.2⟩

/-- A watch that does not mind space, nor what comments say, and that may end behind a line
terminator only if it may end before. -/
structure Deaf (watch : Watch State) : Prop where
  ignores : ∀ state, watch.Ignores isWhitespace state
  closes : ∀ {state ending}, watch.accepts state (.linebreak ending) →
    watch.final (watch.next state (.linebreak ending)) → watch.final state
  lineComments : ∀ state first second,
    (watch.accepts state (.lineComment first) ↔ watch.accepts state (.lineComment second)) ∧
      watch.next state (.lineComment first) = watch.next state (.lineComment second)
  blockComments : ∀ state first second,
    (watch.accepts state (.blockComment first) ↔ watch.accepts state (.blockComment second)) ∧
      watch.next state (.blockComment first) = watch.next state (.blockComment second)

theorem Deaf.passes_visible (h : watch.Deaf) {state : State} {tokens : List Token} :
    watch.Passes state (visible tokens) ↔ watch.Passes state tokens := by
  induction tokens generalizing state with
  | nil => rfl
  | cons token tokens ih =>
      cases hw : token.isWhitespace with
      | true =>
          obtain ⟨ha, hn⟩ := h.ignores state token hw
          rw [visible, List.filter_cons_of_neg (by simp [hw]), ← visible, ih, Passes, hn]
          exact (and_iff_right ha).symm
      | false => rw [visible_cons_of_not hw, Passes, Passes, ih]

theorem Deaf.merges (h : watch.Deaf) : watch.Merges := by
  intro state text following _ _
  obtain ⟨-, hf⟩ := h.ignores state (.whitespace text) rfl
  obtain ⟨-, hs⟩ := h.ignores state (.whitespace following) rfl
  rw [hf, hs]
  exact h.ignores state (.whitespace (text ++ following)) rfl

theorem Deaf.lined (h : watch.Deaf) (options : Options) : watch.Lined options where
  closes {state token} ht ha hf := by
    cases token with
    | whitespace text => rwa [(h.ignores state (.whitespace text) rfl).2] at hf
    | linebreak ending => exact h.closes ha hf
    | _ => cases ht
  ends {state text ending} _ ha := by
    have hn := (h.ignores state (.whitespace text) rfl).2
    rw [hn] at ha
    rw [hn]
    exact ⟨ha, rfl⟩
  rests state ending := h.ignores _
  reindents level state token := by
    cases token with
    | blockComment text => exact h.blockComments state _ text
    | _ => exact ⟨Iff.rfl, rfl⟩
  trims state text := h.lineComments state _ text

end Watch
end SourceStyle
