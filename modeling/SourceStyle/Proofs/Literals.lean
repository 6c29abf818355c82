import SourceStyle.Proofs.Matching
import SourceStyle.Proofs.Neighbours

/-!
Literals over several lines end in a separator. The rule for last commas sees to every literal,
however deep, and having seen to it leaves it alone.
-/

namespace SourceStyle

open Token Scope

namespace Rule

/-- Some commas have been put in, each right behind a token that is neither layout nor a comment. -/
inductive CommasAdded : List Token → List Token → Prop
  | nil : CommasAdded [] []
  | keep (token : Token) {tokens left : List Token} (h : CommasAdded tokens left) :
      CommasAdded (token :: tokens) (token :: left)
  | add {token : Token} (ht : token.isTrivia = false) {tokens left : List Token}
      (h : CommasAdded tokens left) :
      CommasAdded (token :: tokens) (token :: .separator .comma :: left)

/-- What stands inside a literal ends in a separator, layout and comments aside, if there is anything
else and the closing bracket begins a line. -/
def EndsInSeparator (inside : List Token) : Prop :=
  ∀ ending, lastBut? isWhitespace inside = some (.linebreak ending) →
    (∃ token ∈ inside, token.isTrivia = false) →
    ∃ mark, lastBut? isTrivia inside = some (.separator mark)

/-- Every square bracket that opens is closed behind tokens that end in a separator. -/
def LiteralsEnd (tokens : List Token) : Prop :=
  ∀ before rest, tokens = before ++ .opening .square :: rest →
    ∃ inside after, rest = inside ++ .closing .square :: after ∧ Balanced inside ∧
      EndsInSeparator inside

/-! ### One literal -/

section
variable {options : Options} {inside : List Token}

theorem closesOwnLine_iff :
    closesOwnLine inside = true ↔
      ∃ ending, lastBut? isWhitespace inside = some (.linebreak ending) := by
  rw [closesOwnLine, skipSpace, ← lastBut?_eq_head?]
  cases lastBut? isWhitespace inside with
  | none => simp
  | some token => cases token <;> simp [isLinebreak]

theorem settleComma_eq_self (ho : options.trailingCommas = true) (h : EndsInSeparator inside) :
    settleComma options inside = inside := by
  rw [settleComma]
  split
  · rename_i hown
    obtain ⟨ending, hl⟩ := closesOwnLine_iff.1 hown
    rw [settleReversed]
    split
    · exact List.reverse_reverse inside
    · rw [if_pos ho, List.reverse_reverse]
    · exact List.reverse_reverse inside
    · rename_i token rest hcomma hmark hd
      have hlast : lastBut? isTrivia inside = some token := by rw [lastBut?_eq_head?, hd, List.head?_cons]
      obtain ⟨front, gap, he, ht, -⟩ := lastBut?_eq_some_iff.1 hlast
      obtain ⟨mark, hs⟩ := h ending hl ⟨token, by simp [he], ht⟩
      rw [hlast, Option.some.injEq] at hs
      exact absurd hs (hmark mark)
  · rfl

/-- A literal that does not end in a separator gets a comma behind its last element. -/
theorem exists_settleComma_eq (ho : options.trailingCommas = true) (h : ¬EndsInSeparator inside) :
    ∃ front last gap, inside = front ++ last :: gap ∧ last.isTrivia = false ∧
      (∀ mark, last ≠ .separator mark) ∧ (∀ token ∈ gap, token.isTrivia = true) ∧
      settleComma options inside = front ++ last :: .separator .comma :: gap := by
  unfold EndsInSeparator at h
  push Not at h
  obtain ⟨ending, hl, hsome, hn⟩ := h
  obtain ⟨last, hlast⟩ := exists_lastBut? hsome
  obtain ⟨front, gap, rfl, ht, hg⟩ := lastBut?_eq_some_iff.1 hlast
  have hmark : ∀ mark, last ≠ .separator mark := by
    rintro mark rfl
    exact hn mark hlast
  refine ⟨front, last, gap, rfl, ht, hmark, hg, ?_⟩
  have hr : ∀ token ∈ gap.reverse, token.isTrivia = true :=
    fun token hm => hg token (List.mem_reverse.1 hm)
  have he : (front ++ last :: gap).reverse = gap.reverse ++ last :: front.reverse := by simp
  have hneg : ¬last.isTrivia = true := by simp [ht]
  rw [settleComma, if_pos (closesOwnLine_iff.2 ⟨ending, hl⟩), he, settleReversed,
    List.dropWhile_append_of_pos hr, List.dropWhile_cons_of_neg hneg,
    List.takeWhile_append_of_pos hr, List.takeWhile_cons_of_neg hneg, List.append_nil]
  split
  · rename_i hd
    cases hd
  · rename_i hd
    cases hd
    exact absurd rfl (hmark .comma)
  · rename_i mark _ _ hd
    cases hd
    exact absurd rfl (hmark mark)
  · rename_i hd
    cases hd
    simp [ho]

end

/-! ### Commas that were put in -/

namespace CommasAdded
variable {tokens left : List Token}

theorem refl (tokens : List Token) : CommasAdded tokens tokens := by
  induction tokens with
  | nil => exact .nil
  | cons token tokens ih => exact .keep token ih

theorem append {first second more : List Token} (h : CommasAdded tokens first)
    (k : CommasAdded second more) : CommasAdded (tokens ++ second) (first ++ more) := by
  induction h with
  | nil => exact k
  | keep token _ ih => exact .keep token ih
  | add ht _ ih => exact .add ht ih

/-- A comma may be put in behind the last token that is no separator, layout or comment. -/
theorem insert (h : CommasAdded tokens left) {front gap : List Token} {last : Token}
    (hl : left = front ++ last :: gap) (ht : last.isTrivia = false)
    (hn : ∀ mark, last ≠ .separator mark) (hg : ∀ token ∈ gap, token.isTrivia = true) :
    CommasAdded tokens (front ++ last :: .separator .comma :: gap) := by
  induction h generalizing front with
  | nil => cases front <;> cases hl
  | @keep token tokens left hk ih =>
      cases front with
      | nil =>
          cases hl
          exact .add ht hk
      | cons first front =>
          cases hl
          exact .keep _ (ih rfl)
  | @add token ha tokens left hk ih =>
      cases front with
      | nil =>
          cases hl
          cases hg _ List.mem_cons_self
      | cons first front =>
          cases front with
          | nil =>
              cases hl
              exact absurd rfl (hn .comma)
          | cons second front =>
              cases hl
              exact .add ha (ih rfl)

theorem settle {options : Options} (ho : options.trailingCommas = true)
    (h : CommasAdded tokens left) : CommasAdded tokens (settleComma options left) := by
  by_cases he : EndsInSeparator left
  · rwa [settleComma_eq_self ho he]
  · obtain ⟨front, last, gap, hl, ht, hn, hg, hs⟩ := exists_settleComma_eq ho he
    rw [hs]
    exact h.insert hl ht hn hg

theorem passes_iff (h : CommasAdded tokens left) (stack : List Bracket) :
    scopeWatch.Passes stack left ↔ scopeWatch.Passes stack tokens := by
  induction h generalizing stack with
  | nil => rfl
  | keep token _ ih => exact and_congr_right fun _ => ih _
  | add _ _ ih => exact and_congr_right fun _ => (scopeWatch_passes_cons rfl).trans (ih _)

theorem balanced (h : CommasAdded tokens left) (hb : Balanced tokens) : Balanced left := by
  rw [balanced_iff_passes] at hb ⊢
  exact (h.passes_iff []).2 hb

end CommasAdded

theorem commasAdded_trailingCommas {options : Options} (ho : options.trailingCommas = true)
    (tokens : List Token) : CommasAdded tokens (trailingCommas options tokens) := by
  fun_induction trailingCommas options tokens with
  | case1 => exact .nil
  | case2 rest split hs _ _ ihInside ihAfter =>
      conv => lhs; rw [← append_of_splitAtClose hs]
      exact .keep _ ((ihInside.settle ho).append (.keep _ ihAfter))
  | case3 rest _ ih | case4 token rest _ ih => exact .keep _ ih

/-! ### Literals in balanced tokens -/

section
variable {options : Options} {inside after rest tokens : List Token} {bracket : Bracket}

theorem trailingCommas_of_not_isBracket {token : Token} (h : token.isBracket = false)
    (rest : List Token) :
    trailingCommas options (token :: rest) = token :: trailingCommas options rest := by
  apply trailingCommas_of_none
  rintro rfl
  cases h

/-- What becomes of the inside of a scope when its closing bracket is reached. -/
def settleScope (options : Options) (bracket : Bracket) (inside : List Token) : List Token :=
  if bracket = .square then settleComma options inside else inside

theorem trailingCommas_scope_of_append (hi : Balanced inside)
    (ha : ∀ rest, trailingCommas options (inside ++ rest) =
      trailingCommas options inside ++ trailingCommas options rest) (after : List Token) :
    trailingCommas options (.opening bracket :: (inside ++ .closing bracket :: after)) =
      .opening bracket :: (settleScope options bracket (trailingCommas options inside) ++
        .closing bracket :: trailingCommas options after) := by
  rw [settleScope]
  split
  · rename_i hs
    subst hs
    exact trailingCommas_of_splitAtClose (hi.splitAtClose_eq .square after)
  · rename_i hn
    have hc : trailingCommas options (.closing bracket :: after) =
        .closing bracket :: trailingCommas options after := trailingCommas_of_none nofun
    rw [trailingCommas_of_none, ha, hc]
    intro he
    exact absurd (Token.opening.inj he) hn

theorem trailingCommas_append (h : Balanced inside) (rest : List Token) :
    trailingCommas options (inside ++ rest) =
      trailingCommas options inside ++ trailingCommas options rest := by
  induction h generalizing rest with
  | nil => rw [trailingCommas, List.nil_append, List.nil_append]
  | @skip token following ht _ ih =>
      rw [List.cons_append, trailingCommas_of_not_isBracket ht, ih,
        trailingCommas_of_not_isBracket ht, List.cons_append]
  | @scope bracket inside after hi _ ih ik =>
      rw [List.cons_append, List.append_assoc, List.cons_append,
        trailingCommas_scope_of_append hi ih, trailingCommas_scope_of_append hi ih, ik,
        List.cons_append, List.append_assoc, List.cons_append]

theorem trailingCommas_scope (hi : Balanced inside) (after : List Token) :
    trailingCommas options (.opening bracket :: (inside ++ .closing bracket :: after)) =
      .opening bracket :: (settleScope options bracket (trailingCommas options inside) ++
        .closing bracket :: trailingCommas options after) :=
  trailingCommas_scope_of_append hi (trailingCommas_append hi) after

/-- What does not stand in the second part stands in the first. -/
theorem exists_append_of_notMem {first second before rest : List Token} {token : Token}
    (h : first ++ second = before ++ token :: rest) (hn : token ∉ second) :
    ∃ between, first = before ++ token :: between ∧ rest = between ++ second := by
  obtain ⟨between, -, rfl⟩ | ⟨between, rfl, hb⟩ := List.append_eq_append_iff.1 h
  · simp at hn
  · cases between with
    | nil =>
        rw [List.nil_append] at hb
        simp [← hb] at hn
    | cons found between =>
        cases hb
        exact ⟨between, rfl, rfl⟩

namespace LiteralsEnd

theorem skip {token : Token} (ht : token.isBracket = false) (h : LiteralsEnd rest) :
    LiteralsEnd (token :: rest) := by
  intro before following he
  cases before with
  | nil =>
      cases he
      cases ht
  | cons first before =>
      cases he
      exact h before following rfl

theorem scope (hi : Balanced inside) (h : LiteralsEnd inside) (k : LiteralsEnd after)
    (hs : bracket = .square → EndsInSeparator inside) :
    LiteralsEnd (.opening bracket :: (inside ++ .closing bracket :: after)) := by
  intro before rest he
  obtain ⟨-, rfl, rfl⟩ | ⟨front, back, -, hf, rfl⟩ | ⟨front, -, hf⟩ := opening_place he
  · exact ⟨inside, after, rfl, hi, hs rfl⟩
  · obtain ⟨inner, behind, rfl, hb, hn⟩ := h front back hf
    exact ⟨inner, behind ++ .closing bracket :: after, by simp, hb, hn⟩
  · exact k front rest hf

theorem part {front : List Token} (h : LiteralsEnd (front ++ (inside ++ after)))
    (hi : Balanced inside) : LiteralsEnd inside := by
  intro before rest he
  obtain ⟨inner, behind, rfl, hb⟩ := hi.exists_close he
  have hw : front ++ (inside ++ after) = (front ++ before) ++ .opening .square ::
      (inner ++ .closing .square :: (behind ++ after)) := by
    simp [he]
  obtain ⟨other, more, hm, ho, hs⟩ := h _ _ hw
  obtain rfl := hb.inside_eq ho hm
  exact ⟨inner, behind, rfl, hb, hs⟩

/-- A comma in front of the layout and the comments at the end belongs to no literal. -/
theorem addComma {front gap : List Token} (h : LiteralsEnd (front ++ gap))
    (hg : ∀ token ∈ gap, token.isTrivia = true) :
    LiteralsEnd (front ++ .separator .comma :: gap) := by
  have hbracket {token : Token} (ht : token.isBracket = true) : token ∉ gap := by
    intro hm
    have hk := hg token hm
    cases token with
    | opening bracket | closing bracket => cases hk
    | _ => cases ht
  intro before rest he
  have hnot : .opening .square ∉ .separator .comma :: gap := by
    simpa using hbracket rfl
  obtain ⟨between, rfl, rfl⟩ := exists_append_of_notMem he hnot
  rw [List.append_assoc, List.cons_append] at h
  obtain ⟨inner, behind, hr, hb, hs⟩ := h before _ rfl
  obtain ⟨last, rfl, -⟩ := exists_append_of_notMem hr (hbracket rfl)
  exact ⟨inner, last ++ .separator .comma :: gap, by simp, hb, hs⟩

theorem settleComma (ho : options.trailingCommas = true) (h : LiteralsEnd inside) :
    LiteralsEnd (settleComma options inside) := by
  by_cases he : EndsInSeparator inside
  · rwa [settleComma_eq_self ho he]
  · obtain ⟨front, last, gap, rfl, -, -, hg, hs⟩ := exists_settleComma_eq ho he
    rw [List.append_cons] at h
    rw [hs, List.append_cons]
    exact h.addComma hg

theorem endsInSeparator (hi : Balanced inside)
    (h : LiteralsEnd (.opening .square :: (inside ++ .closing .square :: after))) :
    EndsInSeparator inside := by
  obtain ⟨other, more, hm, ho, hs⟩ := h [] _ rfl
  obtain rfl := hi.inside_eq ho hm
  exact hs

end LiteralsEnd

theorem endsInSeparator_settleComma (ho : options.trailingCommas = true) (inside : List Token) :
    EndsInSeparator (settleComma options inside) := by
  by_cases he : EndsInSeparator inside
  · rwa [settleComma_eq_self ho he]
  · obtain ⟨front, last, gap, -, -, -, hg, hs⟩ := exists_settleComma_eq ho he
    intro ending _ _
    refine ⟨.comma, ?_⟩
    rw [hs, List.append_cons]
    exact lastBut?_append rfl hg

theorem literalsEnd_trailingCommas (ho : options.trailingCommas = true) (h : Balanced tokens) :
    LiteralsEnd (trailingCommas options tokens) := by
  induction h with
  | nil =>
      rw [trailingCommas]
      intro before rest he
      cases before <;> cases he
  | skip ht _ ih =>
      rw [trailingCommas_of_not_isBracket ht]
      exact ih.skip ht
  | @scope bracket inside after hi _ ih ik =>
      have hb : Balanced (trailingCommas options inside) :=
        (commasAdded_trailingCommas ho inside).balanced hi
      rw [trailingCommas_scope hi, settleScope]
      split
      · apply LiteralsEnd.scope
        · exact ((CommasAdded.refl _).settle ho).balanced hb
        · exact ih.settleComma ho
        · exact ik
        · exact fun _ => endsInSeparator_settleComma ho _
      · rename_i hn
        exact .scope hb ih ik fun hs => absurd hs hn

theorem LiteralsEnd.trailingCommas_eq_self (ho : options.trailingCommas = true)
    (hb : Balanced tokens) (h : LiteralsEnd tokens) : trailingCommas options tokens = tokens := by
  induction hb with
  | nil => rw [trailingCommas]
  | @skip token following ht hf ih =>
      have hp : LiteralsEnd ([token] ++ (following ++ [])) := by
        rwa [List.append_nil]
      rw [trailingCommas_of_not_isBracket ht, ih (hp.part hf)]
  | @scope bracket inside after hi ha ih ik =>
      have hinside : LiteralsEnd inside := by
        have hp : LiteralsEnd ([.opening bracket] ++ (inside ++ .closing bracket :: after)) := h
        exact hp.part hi
      have hafter : LiteralsEnd after := by
        have hp : LiteralsEnd (.opening bracket :: (inside ++ [.closing bracket]) ++ (after ++ [])) := by
          simpa using h
        exact hp.part ha
      rw [trailingCommas_scope hi, ih hinside, ik hafter, settleScope]
      split
      · rename_i hs
        subst hs
        rw [settleComma_eq_self ho (h.endsInSeparator hi)]
      · rfl

/-- Literals over several lines end in a separator, and then stay as they are. In what becomes of
accepted source, which would be accepted again, every square bracket that opens is closed behind
balanced tokens; if its closing bracket is the first on the line and anything but layout and comments
stands between them, the last of that is a separator. Nothing changes but that commas are put in,
each right behind a token that is neither layout nor a comment. -/
theorem literals_end_in_separators {options : Options} (ho : options.trailingCommas = true)
    {tokens : List Token} (h : check tokens false = .ok ()) :
    check (trailingCommas options tokens) false = .ok () ∧
    (∀ before rest, trailingCommas options tokens = before ++ .opening .square :: rest →
      ∃ inside after, rest = inside ++ .closing .square :: after ∧ Balanced inside ∧
        ∀ ending, lastBut? isWhitespace inside = some (.linebreak ending) →
          (∃ token ∈ inside, token.isTrivia = false) →
          ∃ mark, lastBut? isTrivia inside = some (.separator mark)) ∧
    CommasAdded tokens (trailingCommas options tokens) ∧
    trailingCommas options (trailingCommas options tokens) = trailingCommas options tokens := by
  have hb : Balanced tokens := check_eq_ok_iff_balanced.1 h
  have hc : CommasAdded tokens (trailingCommas options tokens) := commasAdded_trailingCommas ho tokens
  have hl : LiteralsEnd (trailingCommas options tokens) := literalsEnd_trailingCommas ho hb
  exact ⟨(hc.balanced hb).check_eq_ok, hl, hc, hl.trailingCommas_eq_self ho (hc.balanced hb)⟩

/-- A literal over several lines whose last element is another one, with a comment behind it. -/
def nestedLiteral : List Token :=
  [.opening .square, .linebreak .lf, .opening .square, .identifier "a", .linebreak .lf,
    .closing .square, .whitespace " ", .lineComment "// b", .linebreak .lf, .closing .square]

def nestedLiteralSettled : List Token :=
  [.opening .square, .linebreak .lf, .opening .square, .identifier "a", .separator .comma,
    .linebreak .lf, .closing .square, .separator .comma, .whitespace " ", .lineComment "// b",
    .linebreak .lf, .closing .square]

theorem literals_end_in_separators_nested :
    ({} : Options).trailingCommas = true ∧ check nestedLiteral false = .ok () ∧
    check nestedLiteralSettled false = .ok () ∧
    (∀ before rest, nestedLiteralSettled = before ++ .opening .square :: rest →
      ∃ inside after, rest = inside ++ .closing .square :: after ∧ Balanced inside ∧
        ∀ ending, lastBut? isWhitespace inside = some (.linebreak ending) →
          (∃ token ∈ inside, token.isTrivia = false) →
          ∃ mark, lastBut? isTrivia inside = some (.separator mark)) ∧
    CommasAdded nestedLiteral nestedLiteralSettled ∧
    trailingCommas {} nestedLiteralSettled = nestedLiteralSettled := by
  have ho : ({} : Options).trailingCommas = true := rfl
  have hc : check nestedLiteral false = .ok () := by cbv
  have hs : trailingCommas {} nestedLiteral = nestedLiteralSettled := by cbv
  have h := literals_end_in_separators ho hc
  rw [hs] at h
  exact ⟨ho, hc, h⟩

end

end Rule
end SourceStyle
