import SourceStyle.Rule.Header

/-!
A header ends in the last blank line above the first code. What is stripped is layout and comments up
to the end of that line, so a comment stays exactly if no blank line parts it from the code.
-/

namespace SourceStyle.Rule

open Token

/-- The last line of the tokens is blank: space and a terminator, right behind another one. -/
def EndsInBlankLine (tokens : List Token) : Prop :=
  ∃ front first gap last, tokens = front ++ .linebreak first :: (gap ++ [.linebreak last]) ∧
    ∀ token ∈ gap, token.isWhitespace = true

/-- A blank line parts what stands in front of the tokens from the first code in them. -/
def PartedFromCode (tokens : List Token) : Prop :=
  ∃ lead rest, tokens = lead ++ rest ∧ (∀ token ∈ lead, token.isTrivia = true) ∧
    EndsInBlankLine lead

/-- A comment stands above the first code of the tokens, in front of what comes after it. -/
def CommentAbove (tokens : List Token) (comment : Token) (after : List Token) : Prop :=
  comment.isComment = true ∧
    ∃ before, tokens = before ++ comment :: after ∧ ∀ token ∈ before, token.isTrivia = true

section
variable {options : Options} {blank commented : Bool} {comment : Token}
  {lead gap tokens rest after : List Token}

theorem EndsInBlankLine.cons (h : EndsInBlankLine tokens) (token : Token) :
    EndsInBlankLine (token :: tokens) := by
  obtain ⟨front, first, gap, last, rfl, hg⟩ := h
  exact ⟨token :: front, first, gap, last, rfl, hg⟩

theorem notMem_blankLine (hg : ∀ token ∈ gap, token.isWhitespace = true)
    (hc : comment.isComment = true) (last : Linebreak) : comment ∉ gap ++ [.linebreak last] := by
  intro hm
  rcases List.mem_append.1 hm with hm | hm
  · have hw := hg comment hm
    cases comment with
    | whitespace text => cases hc
    | _ => cases hw
  · rw [List.mem_singleton.1 hm] at hc
    cases hc

theorem EndsInBlankLine.behind {before : List Token} (h : EndsInBlankLine (before ++ comment :: rest))
    (hc : comment.isComment = true) : EndsInBlankLine rest := by
  obtain ⟨front, first, gap, last, heq, hg⟩ := h
  have hn : comment ≠ .linebreak first := by
    rintro rfl
    cases hc
  obtain ⟨more, -, hm⟩ | ⟨more, -, hm⟩ := List.append_eq_append_iff.1 heq
  · cases more with
    | nil => exact absurd (List.cons.inj hm).1 hn
    | cons other more =>
        obtain ⟨-, hr⟩ := List.cons.inj hm
        exact ⟨more, first, gap, last, hr, hg⟩
  · exfalso
    have hmem : comment ∈ .linebreak first :: (gap ++ [.linebreak last]) := by
      rw [hm]
      exact List.mem_append_right more List.mem_cons_self
    exact notMem_blankLine hg hc last ((List.mem_cons.1 hmem).resolve_left hn)

/-! ### What is stripped -/

/-- The last line of the tokens is blank, also if it is the first, where the line in front of them is
blank so far. -/
def EndsBlank (blank : Bool) (tokens : List Token) : Prop :=
  EndsInBlankLine tokens ∨
    blank = true ∧ ∃ gap last, tokens = gap ++ [.linebreak last] ∧
      ∀ token ∈ gap, token.isWhitespace = true

theorem EndsBlank.whitespace (h : EndsBlank blank tokens) (text : String) :
    EndsBlank blank (.whitespace text :: tokens) := by
  obtain h | ⟨hb, gap, last, rfl, hg⟩ := h
  · exact .inl (h.cons _)
  · exact .inr ⟨hb, .whitespace text :: gap, last, rfl, List.forall_mem_cons.2 ⟨rfl, hg⟩⟩

theorem EndsBlank.linebreak (h : EndsBlank true tokens) (ending : Linebreak) (blank : Bool) :
    EndsBlank blank (.linebreak ending :: tokens) := by
  obtain h | ⟨-, gap, last, rfl, hg⟩ := h
  · exact .inl (h.cons _)
  · exact .inl ⟨[], ending, gap, last, rfl, hg⟩

theorem EndsBlank.cons (h : EndsBlank false tokens) (token : Token) (blank : Bool) :
    EndsBlank blank (token :: tokens) := by
  obtain h | ⟨hb, -⟩ := h
  · exact .inl (h.cons token)
  · cases hb

theorem EndsBlank.endsInBlankLine (h : EndsBlank blank tokens)
    (hc : ∃ comment ∈ tokens, comment.isComment = true) : EndsInBlankLine tokens := by
  obtain h | ⟨-, gap, last, rfl, hg⟩ := h
  · exact h
  · obtain ⟨comment, hm, hk⟩ := hc
    exact absurd hm (notMem_blankLine hg hk last)

/-- A header is layout and comments up to the end of a blank line, and holds a comment. -/
theorem stripped_of_afterHeader? (h : afterHeader? blank commented tokens = some rest) :
    ∃ lead, tokens = lead ++ rest ∧ (∀ token ∈ lead, token.isTrivia = true) ∧
      (commented = true ∨ ∃ comment ∈ lead, comment.isComment = true) ∧ EndsBlank blank lead := by
  fun_induction afterHeader? blank commented tokens with
  | case1 blank commented text following ih =>
      obtain ⟨lead, rfl, ht, hc, he⟩ := ih h
      refine ⟨.whitespace text :: lead, rfl, List.forall_mem_cons.2 ⟨rfl, ht⟩, ?_, he.whitespace text⟩
      refine hc.imp_right ?_
      rintro ⟨comment, hm, hk⟩
      exact ⟨comment, List.mem_cons_of_mem _ hm, hk⟩
  | case2 blank commented ending following ih =>
      rcases Option.or_eq_some_iff.1 h with h | ⟨-, h⟩
      · obtain ⟨lead, rfl, ht, hc, he⟩ := ih h
        refine ⟨.linebreak ending :: lead, rfl, List.forall_mem_cons.2 ⟨rfl, ht⟩, ?_,
          he.linebreak ending blank⟩
        refine hc.imp_right ?_
        rintro ⟨comment, hm, hk⟩
        exact ⟨comment, List.mem_cons_of_mem _ hm, hk⟩
      · split at h
        · rename_i hk
          obtain ⟨hb, hc⟩ := Bool.and_eq_true_iff.1 hk
          cases h
          refine ⟨[.linebreak ending], rfl, ?_, .inl hc,
            .inr ⟨hb, [], ending, rfl, List.forall_mem_nil _⟩⟩
          intro token hm
          rw [List.mem_singleton.1 hm]
          rfl
        · cases h
  | case3 blank commented text following ih | case4 blank commented text following ih =>
      obtain ⟨lead, rfl, ht, -, he⟩ := ih h
      exact ⟨_ :: lead, rfl, List.forall_mem_cons.2 ⟨rfl, ht⟩,
        .inr ⟨_, List.mem_cons_self, rfl⟩, EndsBlank.cons he _ blank⟩
  | case5 => cases h

/-! ### What stays -/

/-- A comment that was passed before makes no header end elsewhere. -/
theorem afterHeader?_of_uncommented (h : afterHeader? blank false tokens = some rest) :
    afterHeader? blank true tokens = some rest := by
  generalize hc : false = commented at h
  fun_induction afterHeader? blank commented tokens with
  | case1 blank commented text following ih => exact ih hc h
  | case2 blank commented ending following ih =>
      rcases Option.or_eq_some_iff.1 h with h | ⟨-, h⟩
      · rw [afterHeader?, ih hc h, Option.some_or]
      · rw [← hc, Bool.and_false, if_neg Bool.false_ne_true] at h
        cases h
  | case3 blank commented text following ih | case4 blank commented text following ih => exact h
  | case5 => cases h

theorem afterHeader?_rest (h : afterHeader? blank commented tokens = some rest) :
    afterHeader? true true rest = none := by
  fun_induction afterHeader? blank commented tokens with
  | case1 blank commented text following ih => exact ih h
  | case2 blank commented ending following ih =>
      rcases Option.or_eq_some_iff.1 h with h | ⟨hn, h⟩
      · exact ih h
      · split at h
        · rename_i hk
          cases h
          rwa [(Bool.and_eq_true_iff.1 hk).2] at hn
        · cases h
  | case3 blank commented text following ih | case4 blank commented text following ih => exact ih h
  | case5 => cases h

/-- Where no header ends, none ends behind any of the layout and comments. -/
theorem afterHeader?_append_eq_none (ht : ∀ token ∈ lead, token.isTrivia = true)
    (h : afterHeader? blank commented (lead ++ rest) = none) :
    ∃ there, afterHeader? there (commented || lead.any isComment) rest = none := by
  induction lead generalizing blank commented with
  | nil =>
      refine ⟨blank, ?_⟩
      rwa [List.any_nil, Bool.or_false]
  | cons token lead ih =>
      obtain ⟨hk, hl⟩ := List.forall_mem_cons.1 ht
      cases token with
      | whitespace text => exact ih hl h
      | linebreak ending => exact ih hl (Option.or_eq_none_iff.1 h).1
      | lineComment text | blockComment text =>
          obtain ⟨there, hn⟩ := ih hl h
          rw [Bool.true_or] at hn
          exact ⟨there, by simpa [isComment] using hn⟩
      | _ => cases hk

theorem afterHeader?_append_whitespace (hg : ∀ token ∈ gap, token.isWhitespace = true)
    (rest : List Token) :
    afterHeader? blank commented (gap ++ rest) = afterHeader? blank commented rest := by
  induction gap with
  | nil => rfl
  | cons token gap ih =>
      obtain ⟨hw, hr⟩ := List.forall_mem_cons.1 hg
      cases token with
      | whitespace text => exact ih hr
      | _ => cases hw

/-- A blank line behind a comment ends a header. -/
theorem afterHeader?_ne_none_of_parted (h : PartedFromCode tokens) :
    afterHeader? blank true tokens ≠ none := by
  obtain ⟨_, rest, rfl, ht, front, first, gap, last, rfl, hg⟩ := h
  intro hn
  rw [List.append_assoc, List.cons_append] at hn
  obtain ⟨there, hn⟩ := afterHeader?_append_eq_none (List.forall_mem_append.1 ht).1 hn
  rw [Bool.true_or] at hn
  obtain ⟨hn, -⟩ := Option.or_eq_none_iff.1 hn
  rw [List.append_assoc, afterHeader?_append_whitespace hg] at hn
  obtain ⟨-, hn⟩ := Option.or_eq_none_iff.1 hn
  cases hn

theorem not_partedFromCode (h : afterHeader? blank commented tokens = none)
    (ha : CommentAbove tokens comment after) : ¬PartedFromCode after := by
  obtain ⟨hc, before, rfl, ht⟩ := ha
  obtain ⟨there, hn⟩ := afterHeader?_append_eq_none ht h
  have hn : afterHeader? false true after = none := by
    cases comment with
    | lineComment text | blockComment text => exact hn
    | _ => cases hc
  intro hp
  exact afterHeader?_ne_none_of_parted hp hn

/-- What ends in a blank line is cut off above a comment that no blank line parts from the code. -/
theorem suffix_of_not_parted (ht : ∀ token ∈ lead, token.isTrivia = true)
    (he : EndsInBlankLine lead) (ha : CommentAbove (lead ++ rest) comment after)
    (hp : ¬PartedFromCode after) : comment :: after <:+ rest := by
  obtain ⟨hc, before, heq, -⟩ := ha
  obtain ⟨more, -, hr⟩ | ⟨more, hl, hr⟩ := List.append_eq_append_iff.1 heq
  · exact ⟨more, hr.symm⟩
  · cases more with
    | nil => exact ⟨[], hr⟩
    | cons other inside =>
        obtain ⟨rfl, rfl⟩ := List.cons.inj hr
        subst hl
        refine absurd ⟨inside, rest, rfl, ?_, he.behind hc⟩ hp
        exact (List.forall_mem_cons.1 (List.forall_mem_append.1 ht).2).2

theorem header_of_stripHeader (hs : options.stripHeader = true) (tokens : List Token) :
    header options tokens = (afterHeader? true false tokens).getD tokens :=
  if_pos hs

theorem header_eq_self (h : afterHeader? true false tokens = none) : header options tokens = tokens := by
  rw [header, h]
  exact ite_self tokens

theorem afterHeader?_header (hs : options.stripHeader = true) (tokens : List Token) :
    afterHeader? true false (header options tokens) = none := by
  rw [header_of_stripHeader hs]
  cases ha : afterHeader? true false tokens with
  | none => exact ha
  | some rest =>
      have hn : afterHeader? true true rest = none := afterHeader?_rest ha
      cases hf : afterHeader? true false rest with
      | none => exact hf
      | some further => cases hn.symm.trans (afterHeader?_of_uncommented hf)

theorem exists_stripped (hs : options.stripHeader = true) (tokens : List Token) :
    ∃ lead, tokens = lead ++ header options tokens ∧ (∀ token ∈ lead, token.isTrivia = true) ∧
      (lead ≠ [] → (∃ comment ∈ lead, comment.isComment = true) ∧ EndsInBlankLine lead) := by
  rw [header_of_stripHeader hs]
  cases ha : afterHeader? true false tokens with
  | none => exact ⟨[], rfl, nofun, fun hn => absurd rfl hn⟩
  | some rest =>
      obtain ⟨lead, hl, ht, hc, he⟩ := stripped_of_afterHeader? ha
      have hc := hc.resolve_left Bool.false_ne_true
      exact ⟨lead, hl, ht, fun _ => ⟨hc, he.endsInBlankLine hc⟩⟩

/-- Stripping a header takes exactly the comments away that a blank line parts from the first code.
What is left is the end of the tokens. What goes is layout and comments, and if anything does, it
holds a comment and ends in a blank line. No comment that is left above the first code has a blank
line between itself and the code, every comment that had none is left with all that follows it, and
stripping again takes nothing. -/
theorem header_detached (hs : options.stripHeader = true) (tokens : List Token) :
    (∃ lead, tokens = lead ++ header options tokens ∧ (∀ token ∈ lead, token.isTrivia = true) ∧
      (lead ≠ [] → (∃ comment ∈ lead, comment.isComment = true) ∧ EndsInBlankLine lead)) ∧
    (∀ comment after, CommentAbove (header options tokens) comment after → ¬PartedFromCode after) ∧
    (∀ comment after, CommentAbove tokens comment after → ¬PartedFromCode after →
      comment :: after <:+ header options tokens) ∧
    header options (header options tokens) = header options tokens := by
  have hn : afterHeader? true false (header options tokens) = none := afterHeader?_header hs tokens
  refine ⟨exists_stripped hs tokens, ?_, ?_, header_eq_self hn⟩
  · intro comment after ha
    exact not_partedFromCode hn ha
  · intro comment after ha hp
    obtain ⟨lead, hl, ht, he⟩ := exists_stripped hs tokens
    by_cases hne : lead = []
    · obtain ⟨-, before, hb, -⟩ := ha
      rw [hne, List.nil_append] at hl
      exact ⟨before, by rw [← hl, hb]⟩
    · rw [hl] at ha
      exact suffix_of_not_parted ht (he hne).2 ha hp

/-- Two comments above code, and between them a line with nothing but space. -/
def twoComments : List Token :=
  [.linebreak .lf, .lineComment "// a", .linebreak .lf, .whitespace " ", .linebreak .lf,
    .blockComment "/* b */", .linebreak .lf, .identifier "c", .linebreak .lf, .linebreak .lf]

theorem header_detached_second_comment :
    ({ stripHeader := true } : Options).stripHeader = true ∧
    header { stripHeader := true } twoComments = twoComments.drop 5 ∧
    (∃ lead, twoComments = lead ++ twoComments.drop 5 ∧ (∀ token ∈ lead, token.isTrivia = true) ∧
      (lead ≠ [] → (∃ comment ∈ lead, comment.isComment = true) ∧ EndsInBlankLine lead)) ∧
    (∀ comment after, CommentAbove (twoComments.drop 5) comment after → ¬PartedFromCode after) ∧
    (∀ comment after, CommentAbove twoComments comment after → ¬PartedFromCode after →
      comment :: after <:+ twoComments.drop 5) ∧
    header { stripHeader := true } (twoComments.drop 5) = twoComments.drop 5 := by
  have ho : ({ stripHeader := true } : Options).stripHeader = true := rfl
  have hs : header { stripHeader := true } twoComments = twoComments.drop 5 := by cbv
  have h := header_detached ho twoComments
  rw [hs] at h
  exact ⟨ho, hs, h⟩

end

end SourceStyle.Rule
