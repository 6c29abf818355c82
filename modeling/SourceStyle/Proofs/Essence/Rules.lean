import SourceStyle.Proofs.Essence
import SourceStyle.Proofs.Upkeep

/-!
What each rule does to the essence of tokens. Most rules keep the content as it is; semicolons,
empty types and commas are each settled up to what the essence leaves out.
-/

namespace SourceStyle.Essence

open Token Rule

theorem isLayout_respellToken (ending : Linebreak) (token : Token) :
    (respellToken ending token).isLayout = token.isLayout := by
  cases token <;> rfl

theorem isLayout_recaseHex (options : Options) (token : Token) :
    (recaseHex options token).isLayout = token.isLayout := by
  unfold recaseHex
  split
  · split <;> rfl
  · rfl

theorem content_linebreaks (options : Options) (tokens : List Token) :
    content (linebreaks options tokens) = content tokens :=
  content_eq_of_passes (contentWatch_blind (isLayout_respellToken options.linebreak)
    fun _ h => plain_respellToken options.linebreak h).passes_map

theorem content_hexLiterals (options : Options) {tokens : List Token}
    (h : ∀ text, .number text ∈ tokens → ∀ c ∈ text.toList, c.toNat < 0x80) :
    content (hexLiterals options tokens) = content tokens := by
  induction tokens with
  | nil => rfl
  | cons token tokens ih =>
      have ht := ih fun text hm => h text (List.mem_cons_of_mem token hm)
      have hp : plain (recaseHex options token) = plain token :=
        plain_recaseHex options fun text he => h text (he ▸ List.mem_cons_self)
      rw [hexLiterals] at ht
      rw [hexLiterals, List.map_cons, content_cons, content_cons, isLayout_recaseHex, hp, ht]

theorem content_ranges (options : Options) (tokens : List Token) :
    content (ranges options tokens) = content tokens := by
  fun_induction ranges options tokens with
  | case1 => rfl
  | case2 token rest _ text following h _ ih =>
      obtain ⟨after, hs, rfl, -, -⟩ := eq_of_rangeAhead? h
      have hr : content rest = .operator text :: content after := by
        rw [← content_skipSpace rest, hs]
        rfl
      have hg : content (spacedRange options text) = [.operator text] := by
        unfold spacedRange
        split <;> rfl
      rw [content_cons, content_cons, content_append, hg, ih, content_skipSpace, hr]
      rfl
  | case3 token rest _ _ ih => rw [content_cons, content_cons, ih]
  | case4 token rest _ ih => rw [content_cons, content_cons, ih]

theorem content_braces (options : Options) (tokens : List Token) :
    content (braces options tokens) = content tokens :=
  content_eq_of_passes contentWatch_wraps.passes_braces

theorem content_blankLinesAtScopeEdges (options : Options) (tokens : List Token) :
    content (blankLinesAtScopeEdges options tokens) = content tokens :=
  content_eq_of_passes contentWatch_steady.passes_blankLinesAtScopeEdges

theorem content_blankLinesBetweenScopes (options : Options) (tokens : List Token) :
    content (blankLinesBetweenScopes options tokens) = content tokens :=
  content_eq_of_passes contentWatch_steady.passes_blankLinesBetweenScopes

theorem content_consecutiveBlankLines (options : Options) (tokens : List Token) :
    content (consecutiveBlankLines options tokens) = content tokens :=
  content_eq_of_passes
    (contentWatch_steady.behindBlank.passes_consecutiveBlankLines (contentWatch_lined options))

theorem content_indentation (options : Options) (tokens : List Token) :
    content (indentation options tokens) = content tokens :=
  content_eq_of_passes
    ((contentWatch_lined options).passes_indentFrom (contentWatch_ignores _).whitespace)

theorem content_trailingWhitespace (options : Options) (tokens : List Token) :
    content (trailingWhitespace options tokens) = content tokens :=
  content_eq_of_passes (contentWatch_lined options).passes_trimLines

theorem nestingAfter_plain (nesting : Nat) (token : Token) :
    nestingAfter nesting (plain token) = nestingAfter nesting token := by
  cases token <;> rfl

theorem plain_eq_semicolon {token : Token} :
    plain token = .separator .semicolon ↔ token = .separator .semicolon := by
  cases token <;> simp [plain]

/-- One token's part in what is left without semicolons. -/
theorem dropSemicolons_content_cons (nesting : Nat) (token : Token) (tokens : List Token) :
    dropSemicolons nesting (content (token :: tokens)) =
      (if token.isLayout = true ∨ token = .separator .semicolon ∧ nesting = 0 then []
        else [plain token]) ++ dropSemicolons (nestingAfter nesting token) (content tokens) := by
  rw [content_cons]
  by_cases hl : token.isLayout = true
  · rw [if_pos hl, if_pos (.inl hl), nestingAfter_of_isLayout hl, List.nil_append]
  · simp only [if_neg hl, dropSemicolons, plain_eq_semicolon, nestingAfter_plain]
    by_cases hs : token = .separator .semicolon ∧ nesting = 0
    · rw [if_pos hs, if_pos (.inr hs), hs.1, List.nil_append]
      rfl
    · rw [if_neg hs, if_neg (not_or.2 ⟨hl, hs⟩), List.singleton_append]

theorem dropSemicolons_semicolonsFrom (options : Options) (nesting : Nat) (tokens : List Token) :
    dropSemicolons nesting (content (semicolonsFrom options nesting tokens)) =
      dropSemicolons nesting (content tokens) := by
  fun_induction semicolonsFrom options nesting tokens with
  | case1 => rfl
  | case2 nesting rest _ ih =>
      rw [dropSemicolons_content_cons, dropSemicolons_content_cons]
      exact congrArg _ ih
  | case3 nesting rest hf ih =>
      have hz : nesting = 0 := nesting_of_semicolonFate (by rw [hf]; decide)
      rw [dropSemicolons_content_cons, if_pos (.inr ⟨rfl, hz⟩), ih]
      rfl
  | case4 nesting rest hf ih =>
      have hz : nesting = 0 := nesting_of_semicolonFate (by rw [hf]; decide)
      rw [dropSemicolons_content_cons, if_pos (.inl rfl), dropSemicolons_content_cons,
        if_pos (.inr ⟨rfl, hz⟩), ← content_skipSpace rest]
      exact ih
  | case5 nesting text rest _ ih =>
      rw [dropSemicolons_content_cons, if_pos (.inl rfl), ih]
      rfl
  | case6 nesting text rest _ ih | case7 nesting token rest _ _ ih =>
      rw [dropSemicolons_content_cons, dropSemicolons_content_cons]
      exact congrArg _ ih

/-- The two forms of the empty result type. -/
inductive EmptyResult : List Token → Prop
  | name : EmptyResult [.identifier "Void"]
  | tuple : EmptyResult [.opening .round, .closing .round]

/-- The tokens differ in the forms of empty result types alone. `arrow` says that an arrow comes
right before. -/
inductive VoidAlike : Bool → List Token → List Token → Prop
  | nil {arrow : Bool} : VoidAlike arrow [] []
  | cons {arrow : Bool} {token : Token} {first second : List Token} :
      VoidAlike (token == .operator "->") first second →
      VoidAlike arrow (token :: first) (token :: second)
  | result {form other first second : List Token} :
      EmptyResult form → EmptyResult other → VoidAlike false first second →
      VoidAlike true (form ++ first) (other ++ second)

theorem VoidAlike.arrow {first second : List Token} (h : VoidAlike false first second)
    (arrow : Bool) : VoidAlike arrow first second := by
  cases h with
  | nil => exact .nil
  | cons h => exact .cons h

theorem EmptyResult.dropSemicolons_append {form : List Token} (h : EmptyResult form) (nesting : Nat)
    (rest : List Token) :
    dropSemicolons nesting (form ++ rest) = form ++ dropSemicolons nesting rest := by
  cases h <;> simp [dropSemicolons, nestingAfter]

theorem EmptyResult.dropCommas_append {form : List Token} (h : EmptyResult form)
    (rest : List Token) : dropCommas (form ++ rest) = form ++ dropCommas rest := by
  cases h <;> simp [dropCommas]

theorem EmptyResult.spellOutVoid_append {form : List Token} (h : EmptyResult form)
    (rest : List Token) :
    spellOutVoid true (form ++ rest) = .opening .round :: .closing .round :: spellOutVoid false rest := by
  cases h with
  | name => simp [spellOutVoid]
  | tuple =>
      simp [spellOutVoid]
      rfl

theorem VoidAlike.dropSemicolons {arrow : Bool} {first second : List Token}
    (h : VoidAlike arrow first second) (nesting : Nat) :
    VoidAlike arrow (dropSemicolons nesting first) (dropSemicolons nesting second) := by
  induction h generalizing nesting with
  | nil => exact .nil
  | @cons arrow token first second _ ih =>
      rw [Essence.dropSemicolons, Essence.dropSemicolons]
      split
      · rename_i hs
        rw [hs.1] at ih
        exact (ih nesting).arrow arrow
      · exact .cons (ih _)
  | result hf ho _ ih =>
      rw [hf.dropSemicolons_append, ho.dropSemicolons_append]
      exact .result hf ho (ih nesting)

theorem meetsClosing_cons (token : Token) (rest : List Token) :
    meetsClosing (token :: rest) =
      if token = .separator .comma ∨ token.isComment = true then meetsClosing rest
      else token.isClosing := by
  unfold meetsClosing
  by_cases h : token = .separator .comma ∨ token.isComment = true
  · rw [if_pos h, List.dropWhile_cons_of_pos (by simpa using h)]
  · rw [if_neg h, List.dropWhile_cons_of_neg (by simpa using h)]
    rfl

theorem VoidAlike.meetsClosing {first second : List Token} (h : VoidAlike false first second) :
    meetsClosing first = meetsClosing second := by
  generalize ha : false = arrow at h
  induction h with
  | nil => rfl
  | @cons arrow token first second _ ih =>
      rw [meetsClosing_cons, meetsClosing_cons]
      split
      · rename_i hc
        refine ih ?_
        rcases hc with rfl | hc
        · rfl
        · cases token <;> first | rfl | cases hc
      · rfl
  | result => cases ha

theorem VoidAlike.dropCommas {arrow : Bool} {first second : List Token}
    (h : VoidAlike arrow first second) :
    VoidAlike arrow (dropCommas first) (dropCommas second) := by
  induction h with
  | nil => exact .nil
  | @cons arrow token first second h ih =>
      rw [Essence.dropCommas, Essence.dropCommas]
      by_cases ht : token = .separator .comma
      · subst ht
        rw [VoidAlike.meetsClosing h]
        split
        · exact ih.arrow arrow
        · exact .cons ih
      · rw [if_neg fun hc => ht hc.1, if_neg fun hc => ht hc.1]
        exact .cons ih
  | result hf ho _ ih =>
      rw [hf.dropCommas_append, ho.dropCommas_append]
      exact .result hf ho ih

theorem VoidAlike.spellOutVoid {arrow : Bool} {first second : List Token}
    (h : VoidAlike arrow first second) : spellOutVoid arrow first = spellOutVoid arrow second := by
  induction h with
  | nil => rfl
  | @cons arrow token first second _ ih =>
      rw [Essence.spellOutVoid, Essence.spellOutVoid]
      split
      · rename_i hv
        rw [hv.2] at ih
        exact congrArg (_ :: _ :: ·) ih
      · exact congrArg (_ :: ·) ih
  | result hf ho _ ih => rw [hf.spellOutVoid_append, ho.spellOutVoid_append, ih]

theorem content_emptyResult (options : Options) :
    content (emptyResult options) = emptyResult options ∧ EmptyResult (emptyResult options) := by
  unfold emptyResult
  split
  · exact ⟨rfl, .name⟩
  · exact ⟨rfl, .tuple⟩

theorem content_of_afterEmptyResult? {options : Options} {tokens after : List Token}
    (h : afterEmptyResult? options tokens = some after) :
    ∃ form, EmptyResult form ∧ content tokens = form ++ content after := by
  rcases eq_of_afterEmptyResult? h with ⟨-, rest, rfl, hs⟩ | ⟨-, rfl⟩
  · refine ⟨_, .tuple, ?_⟩
    rw [content_cons, ← content_skipSpace rest, hs]
    rfl
  · exact ⟨_, .name, rfl⟩

theorem voidAlike_voidTypes (options : Options) (arrow : Bool) (tokens : List Token) :
    VoidAlike arrow (content (voidTypes options tokens)) (content tokens) := by
  have hc : ∀ {token : Token} {first second : List Token} {arrow : Bool},
      (∀ arrow, VoidAlike arrow (content first) (content second)) →
      VoidAlike arrow (content (token :: first)) (content (token :: second)) := by
    intro token first second arrow h
    rw [content_cons, content_cons]
    split
    · exact h arrow
    · exact .cons (h _)
  fun_induction voidTypes options tokens generalizing arrow with
  | case1 => exact .nil
  | case2 rest after ha _ ih =>
      obtain ⟨form, hf, he⟩ := content_of_afterEmptyResult? ha
      obtain ⟨hr, hw⟩ := content_emptyResult options
      have hs : content (rest.takeWhile isWhitespace) = [] :=
        content_layout isLayout_of_mem_takeWhile_isWhitespace
      rw [content_skipSpace] at he
      rw [content_cons, content_cons, content_append, content_append, he, hr, hs]
      exact .cons (.result hw hf (ih false))
  | case3 rest _ ih => exact hc ih
  | case4 token rest _ ih => exact hc ih

/-- Whatever comes after them, the tokens have the same core and let a comma before them meet a
closing bracket or not. -/
def Interchangeable (first second : List Token) : Prop :=
  ∀ nesting after, core nesting (first ++ after) = core nesting (second ++ after) ∧
    meetsClosing (dropSemicolons nesting (content (first ++ after))) =
      meetsClosing (dropSemicolons nesting (content (second ++ after)))

section
variable {first second third : List Token}

theorem Interchangeable.trans (h : Interchangeable first second)
    (k : Interchangeable second third) : Interchangeable first third :=
  fun nesting after =>
    ⟨(h nesting after).1.trans (k nesting after).1, (h nesting after).2.trans (k nesting after).2⟩

theorem Interchangeable.append (h : Interchangeable first second) (following : List Token) :
    Interchangeable (first ++ following) (second ++ following) := by
  intro nesting after
  rw [List.append_assoc, List.append_assoc]
  exact h nesting (following ++ after)

theorem dropCommas_cons_congr (token : Token) (hd : dropCommas first = dropCommas second)
    (hm : meetsClosing first = meetsClosing second) :
    dropCommas (token :: first) = dropCommas (token :: second) ∧
      meetsClosing (token :: first) = meetsClosing (token :: second) := by
  simp only [dropCommas, meetsClosing_cons, hd, hm, and_self]

theorem Interchangeable.cons (h : Interchangeable first second) (token : Token) :
    Interchangeable (token :: first) (token :: second) := by
  intro nesting after
  obtain ⟨hc, hm⟩ := h (nestingAfter nesting token) after
  rw [core, core, List.cons_append, List.cons_append, dropSemicolons_content_cons,
    dropSemicolons_content_cons]
  split
  · exact ⟨hc, hm⟩
  · exact dropCommas_cons_congr (plain token) hc hm

theorem Interchangeable.prepend (h : Interchangeable first second) (before : List Token) :
    Interchangeable (before ++ first) (before ++ second) := by
  induction before with
  | nil => exact h
  | cons token before ih => exact ih.cons token

end

theorem nestingAfter_of_isTrivia {token : Token} (h : token.isTrivia = true) (nesting : Nat) :
    nestingAfter nesting token = nesting := by
  cases token <;> first | rfl | cases h

/-- Comments and layout do not keep a comma from meeting a closing bracket. -/
theorem meetsClosing_trivia {trivia : List Token} (ht : ∀ token ∈ trivia, token.isTrivia = true)
    (nesting : Nat) (bracket : Bracket) (after : List Token) :
    meetsClosing (dropSemicolons nesting (content (trivia ++ .closing bracket :: after))) = true := by
  induction trivia with
  | nil => rfl
  | cons token trivia ih =>
      obtain ⟨hk, ht⟩ := List.forall_mem_cons.1 ht
      rw [List.cons_append, dropSemicolons_content_cons, nestingAfter_of_isTrivia hk]
      split
      · exact ih ht
      · rename_i hn
        have hc : (plain token).isComment = true := by
          cases token <;> simp_all [isTrivia, isLayout, isWhitespace, isLinebreak, plain, isComment]
        rw [List.singleton_append, meetsClosing_cons, if_pos (.inr hc)]
        exact ih ht

/-- A comma in front of a closing bracket makes no difference. -/
theorem interchangeable_comma {trivia : List Token} (ht : ∀ token ∈ trivia, token.isTrivia = true)
    (bracket : Bracket) (after : List Token) :
    Interchangeable (.separator .comma :: (trivia ++ .closing bracket :: after))
      (trivia ++ .closing bracket :: after) := by
  intro nesting rest
  have hm := meetsClosing_trivia ht nesting bracket (after ++ rest)
  rw [← List.cons_append, ← List.append_assoc] at hm
  rw [core, core, List.cons_append, dropSemicolons_content_cons]
  constructor
  · exact if_pos ⟨rfl, hm⟩
  · exact meetsClosing_cons _ _

theorem interchangeable_settleComma (options : Options) (inside : List Token) (bracket : Bracket)
    (after : List Token) :
    Interchangeable (settleComma options inside ++ .closing bracket :: after)
      (inside ++ .closing bracket :: after) := by
  rcases settleComma_cases options inside with he | ⟨before, trivia, ht, -, ⟨-, hi, -, hs⟩ | ⟨-, hi, hs⟩⟩
  · rw [he]
    exact fun _ _ => ⟨rfl, rfl⟩
  · rw [hs, hi, List.append_assoc, List.append_assoc]
    exact (interchangeable_comma ht bracket after).prepend before
  · rw [hs, hi, List.append_assoc, List.append_assoc]
    exact Interchangeable.prepend
      (fun nesting rest => (interchangeable_comma ht bracket after nesting rest).imp Eq.symm Eq.symm)
      before

theorem interchangeable_trailingCommas (options : Options) (tokens : List Token) :
    Interchangeable (trailingCommas options tokens) tokens := by
  fun_induction trailingCommas options tokens with
  | case1 => exact fun _ _ => ⟨rfl, rfl⟩
  | case2 rest split hs _ _ ihInside ihAfter =>
      rw [← Scope.append_of_splitAtClose hs]
      have hi := interchangeable_settleComma options (trailingCommas options split.inside)
        split.close (trailingCommas options split.after)
      exact ((hi.trans (ihInside.append _)).trans
        ((ihAfter.cons _).prepend split.inside)).cons _
  | case3 rest _ ih | case4 token rest _ ih => exact ih.cons _

end SourceStyle.Essence
