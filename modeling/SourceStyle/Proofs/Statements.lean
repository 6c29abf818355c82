import Mathlib.Data.List.Induction
import SourceStyle.Rule.Semicolons

/-!
Statements stay apart. A semicolon goes only where the line or the block ends anyway, or where a
line terminator comes in for it, and whatever else is no space stays in its place.
-/

namespace SourceStyle

open Token

/-- What becomes of a token, or a token that is put in. -/
inductive Edit where
  | keep (token : Token)
  | remove (token : Token)
  | add (token : Token)
deriving DecidableEq, Repr

namespace Edit

def before? : Edit → Option Token
  | keep token | remove token => some token
  | add _ => none

def after? : Edit → Option Token
  | keep token | add token => some token
  | remove _ => none

def source (edits : List Edit) : List Token :=
  edits.filterMap before?

def result (edits : List Edit) : List Token :=
  edits.filterMap after?

section
variable (token : Token) (edits more : List Edit)

@[simp] theorem source_nil : source [] = [] := rfl

@[simp] theorem result_nil : result [] = [] := rfl

@[simp] theorem source_keep : source (keep token :: edits) = token :: source edits := rfl

@[simp] theorem source_remove : source (remove token :: edits) = token :: source edits := rfl

@[simp] theorem source_add : source (add token :: edits) = source edits := rfl

@[simp] theorem result_keep : result (keep token :: edits) = token :: result edits := rfl

@[simp] theorem result_remove : result (remove token :: edits) = result edits := rfl

@[simp] theorem result_add : result (add token :: edits) = token :: result edits := rfl

@[simp] theorem source_append : source (edits ++ more) = source edits ++ source more :=
  List.filterMap_append

@[simp] theorem result_append : result (edits ++ more) = result edits ++ result more :=
  List.filterMap_append

end

@[simp] theorem source_map_remove (tokens : List Token) : source (tokens.map remove) = tokens := by
  induction tokens with
  | nil => rfl
  | cons token tokens ih => rw [List.map_cons, source_remove, ih]

@[simp] theorem result_map_remove (tokens : List Token) : result (tokens.map remove) = [] := by
  induction tokens with
  | nil => rfl
  | cons token tokens ih => rw [List.map_cons, result_remove, ih]

end Edit

namespace Rule

open Edit

def opensNesting : Token → Bool
  | .opening .round | .opening .square => true
  | _ => false

def closesNesting : Token → Bool
  | .closing .round | .closing .square => true
  | _ => false

/-- Nowhere in the tokens are more parentheses and square brackets closed than were opened. -/
def StaysOpen (tokens : List Token) : Prop :=
  ∀ front, front <+: tokens → front.countP closesNesting ≤ front.countP opensNesting

/-- The tokens end inside parentheses or square brackets, one of which stays open. -/
def Enclosed (tokens : List Token) : Prop :=
  ∃ outer opening inside, tokens = outer ++ opening :: inside ∧ opensNesting opening = true ∧
    StaysOpen inside

theorem nestingAfter_eq (nesting : Nat) (token : Token) :
    nestingAfter nesting token =
      nesting + [token].countP opensNesting - [token].countP closesNesting := by
  cases token with
  | opening bracket | closing bracket => cases bracket <;> rfl
  | _ => rfl

theorem staysOpen_concat {tokens : List Token} {token : Token} :
    StaysOpen (tokens ++ [token]) ↔ StaysOpen tokens ∧
      (tokens ++ [token]).countP closesNesting ≤ (tokens ++ [token]).countP opensNesting := by
  constructor
  · intro h
    exact ⟨fun front hf => h front (hf.trans (List.prefix_append _ _)), h _ List.prefix_rfl⟩
  · rintro ⟨h, ht⟩ front hf
    obtain rfl | hf := List.prefix_concat_iff.1 hf
    · exact ht
    · exact h front hf

/-- The nesting is not cut off where no bracket closes too many. -/
theorem StaysOpen.foldl_nestingAfter {tokens : List Token} (h : StaysOpen tokens) (nesting : Nat) :
    tokens.foldl nestingAfter nesting =
      nesting + tokens.countP opensNesting - tokens.countP closesNesting := by
  induction tokens using List.reverseRecOn with
  | nil => rfl
  | append_singleton tokens token ih =>
      obtain ⟨h, -⟩ := staysOpen_concat.1 h
      have hc := h tokens List.prefix_rfl
      rw [List.foldl_append, ih h, List.foldl_cons, List.foldl_nil, nestingAfter_eq,
        List.countP_append, List.countP_append]
      omega

/-- Behind an open bracket the nesting is one more than what is left of the brackets inside. -/
theorem StaysOpen.foldl_nestingAfter_cons {inside : List Token} (h : StaysOpen inside)
    {opening : Token} (ho : opensNesting opening = true) (nesting : Nat) :
    (opening :: inside).foldl nestingAfter nesting =
      nesting + 1 + inside.countP opensNesting - inside.countP closesNesting := by
  have hn : nestingAfter nesting opening = nesting + 1 := by
    cases opening with
    | opening bracket => cases bracket <;> first | rfl | cases ho
    | _ => cases ho
  rw [List.foldl_cons, hn, h.foldl_nestingAfter]

/-- The outermost bracket that stays open is where the nesting was zero for the last time. -/
theorem exists_outermost {tokens : List Token} (h : tokens.foldl nestingAfter 0 ≠ 0) :
    ∃ outer opening inside, tokens = outer ++ opening :: inside ∧ opensNesting opening = true ∧
      StaysOpen inside ∧ outer.foldl nestingAfter 0 = 0 := by
  induction tokens using List.reverseRecOn with
  | nil => exact absurd rfl h
  | append_singleton tokens token ih =>
      rw [List.foldl_append, List.foldl_cons, List.foldl_nil, nestingAfter_eq] at h
      by_cases hz : tokens.foldl nestingAfter 0 = 0
      · rw [hz] at h
        refine ⟨tokens, token, [], rfl, ?_, ?_, hz⟩
        · by_contra hn
          rw [List.countP_singleton, if_neg hn] at h
          omega
        · intro front hf
          exact List.prefix_nil.1 hf ▸ Nat.le_refl 0
      · obtain ⟨outer, opening, inside, rfl, ho, hi, hzero⟩ := ih hz
        refine ⟨outer, opening, inside ++ [token], List.append_assoc .., ho, ?_, hzero⟩
        have hc := hi inside List.prefix_rfl
        rw [List.foldl_append, hi.foldl_nestingAfter_cons ho, hzero] at h
        refine staysOpen_concat.2 ⟨hi, ?_⟩
        rw [List.countP_append, List.countP_append]
        omega

theorem enclosed_iff {tokens : List Token} :
    Enclosed tokens ↔ tokens.foldl nestingAfter 0 ≠ 0 := by
  constructor
  · rintro ⟨outer, opening, inside, rfl, ho, hi⟩
    have hc := hi inside List.prefix_rfl
    rw [List.foldl_append, hi.foldl_nestingAfter_cons ho]
    omega
  · intro h
    obtain ⟨outer, opening, inside, he, ho, hi, -⟩ := exists_outermost h
    exact ⟨outer, opening, inside, he, ho, hi⟩

instance (tokens : List Token) : Decidable (Enclosed tokens) :=
  decidable_of_iff _ enclosed_iff.symm

/-- What is done about the tokens inside `nesting` parentheses and square brackets. -/
def semicolonEditsFrom (options : Options) (nesting : Nat) (tokens : List Token) : List Edit :=
  match tokens with
  | [] => []
  | .separator .semicolon :: rest =>
    match semicolonFate options nesting rest with
    | .keep => .keep (.separator .semicolon) :: semicolonEditsFrom options nesting rest
    | .drop => .remove (.separator .semicolon) :: semicolonEditsFrom options nesting rest
    | .split => .remove (.separator .semicolon) :: .add (.linebreak options.linebreak) ::
        ((rest.takeWhile isWhitespace).map .remove ++
          semicolonEditsFrom options nesting (skipSpace rest))
  | .whitespace text :: rest =>
    if beginsSplit options nesting rest then
      .remove (.whitespace text) :: semicolonEditsFrom options nesting rest
    else .keep (.whitespace text) :: semicolonEditsFrom options nesting rest
  | token :: rest => .keep token :: semicolonEditsFrom options (nestingAfter nesting token) rest
termination_by tokens.length
decreasing_by
  all_goals
    have := length_skipSpace_le rest
    simp only [List.length_cons]
    omega

def semicolonEdits (options : Options) (tokens : List Token) : List Edit :=
  semicolonEditsFrom options 0 tokens

section
variable {options : Options} {nesting : Nat}

theorem source_semicolonEditsFrom (options : Options) (nesting : Nat) (tokens : List Token) :
    source (semicolonEditsFrom options nesting tokens) = tokens := by
  fun_induction semicolonEditsFrom options nesting tokens with
  | case1 => rfl
  | case2 _ _ _ ih | case3 _ _ _ ih | case5 _ _ _ _ ih | case6 _ _ _ _ ih | case7 _ _ _ _ _ ih =>
      exact congrArg _ ih
  | case4 nesting rest _ ih =>
      rw [source_remove, source_add, source_append, source_map_remove, ih,
        takeWhile_append_skipSpace]

theorem result_semicolonEditsFrom (options : Options) (nesting : Nat) (tokens : List Token) :
    result (semicolonEditsFrom options nesting tokens) = semicolonsFrom options nesting tokens := by
  fun_induction semicolonsFrom options nesting tokens with
  | case1 => rw [semicolonEditsFrom, result_nil]
  | case2 nesting rest hf ih => rw [semicolonEditsFrom, hf, result_keep, ih]
  | case3 nesting rest hf ih => rw [semicolonEditsFrom, hf, result_remove, ih]
  | case4 nesting rest hf ih =>
      rw [semicolonEditsFrom, hf]
      rw [result_remove, result_add, result_append, result_map_remove, ih, List.nil_append]
  | case5 nesting text rest hb ih => rw [semicolonEditsFrom, if_pos hb, result_remove, ih]
  | case6 nesting text rest hb ih => rw [semicolonEditsFrom, if_neg hb, result_keep, ih]
  | case7 nesting token rest hs hw ih =>
      rw [semicolonEditsFrom, result_keep, ih]
      · exact hs
      · exact hw

/-- What ends a statement in front of it without a semicolon: a line terminator, a line comment and
a closing curly bracket. -/
def isStop : Token → Bool
  | .linebreak _ | .lineComment _ | .closing .curly => true
  | _ => false

theorem eq_of_isStop {token : Token} (h : isStop token = true) (hn : token.isLayout = false) :
    (∃ text, token = .lineComment text) ∨ token = .closing .curly := by
  cases token with
  | linebreak ending => cases hn
  | lineComment text => exact .inl ⟨text, rfl⟩
  | closing bracket => cases bracket <;> first | exact .inr rfl | cases h
  | _ => cases h

/-- Space aside, the edits begin with a line terminator that is put in or with a stop that stays, or
nothing comes any more. -/
inductive MeetsStop : List Edit → Prop
  | nil : MeetsStop []
  | add (ending : Linebreak) (rest : List Edit) : MeetsStop (.add (.linebreak ending) :: rest)
  | keep {token : Token} (h : isStop token = true) (rest : List Edit) :
      MeetsStop (.keep token :: rest)
  | keepSpace (text : String) {rest : List Edit} (h : MeetsStop rest) :
      MeetsStop (.keep (.whitespace text) :: rest)
  | removeSpace (text : String) {rest : List Edit} (h : MeetsStop rest) :
      MeetsStop (.remove (.whitespace text) :: rest)

theorem meetsStop_semicolonEditsFrom {tokens : List Token} (h : endsStatement tokens = true) :
    MeetsStop (semicolonEditsFrom options nesting tokens) := by
  induction tokens with
  | nil =>
      rw [semicolonEditsFrom]
      exact .nil
  | cons token rest ih =>
      cases token with
      | whitespace text =>
          have hr := ih h
          rw [semicolonEditsFrom]
          split
          · exact .removeSpace text hr
          · exact .keepSpace text hr
      | linebreak ending | lineComment text =>
          rw [semicolonEditsFrom]
          · exact .keep rfl _
          · exact nofun
          · exact nofun
      | closing bracket =>
          cases bracket with
          | curly =>
              rw [semicolonEditsFrom]
              · exact .keep rfl _
              · exact nofun
              · exact nofun
          | _ => cases h
      | _ => cases h

/-- Between a semicolon that goes and the next token that stays, the line ends unless that token
ends the statement itself. -/
theorem MeetsStop.next {between after : List Edit} {next : Token}
    (h : MeetsStop (between ++ .keep next :: after))
    (hl : ∀ token, .keep token ∈ between → token.isLayout = true) (hn : next.isLayout = false) :
    (∃ ending, .linebreak ending ∈ result between) ∨
      (∃ text, next = .lineComment text) ∨ next = .closing .curly := by
  induction between with
  | nil =>
      cases h with
      | keep h _ => exact .inr (eq_of_isStop h hn)
      | keepSpace _ _ => cases hn
  | cons edit between ih =>
      have hr : ∀ token, .keep token ∈ between → token.isLayout = true :=
        fun token hm => hl token (List.mem_cons_of_mem _ hm)
      cases h with
      | add ending _ => exact .inl ⟨ending, List.mem_cons_self⟩
      | @keep token hk _ =>
          have ht := hl token List.mem_cons_self
          cases token with
          | linebreak ending => exact .inl ⟨ending, List.mem_cons_self⟩
          | whitespace text => cases hk
          | _ => cases ht
      | keepSpace _ h =>
          exact (ih h hr).imp_left fun ⟨ending, hm⟩ => ⟨ending, List.mem_cons_of_mem _ hm⟩
      | removeSpace _ h => exact ih h hr

theorem keep_semicolonFate {following : List Token}
    (h : semicolonFate options nesting following = .keep) :
    nesting ≠ 0 ∨ options.inlineSemicolons = true := by
  by_contra hn
  obtain ⟨hz, hi⟩ := not_or.1 hn
  rw [semicolonFate, if_neg hz, if_neg hi] at h
  split at h <;> cases h

theorem drop_semicolonFate {following : List Token}
    (h : semicolonFate options nesting following = .drop) : endsStatement following = true := by
  by_contra hn
  rw [semicolonFate, if_neg hn] at h
  split at h
  · cases h
  · split at h <;> cases h

/-- What may be done about a token inside `nesting` parentheses and square brackets, in front of
these edits. -/
def Allowed (options : Options) (nesting : Nat) (following : List Edit) : Edit → Prop
  | .keep token =>
    token = .separator .semicolon → nesting ≠ 0 ∨ options.inlineSemicolons = true
  | .remove token => token.isWhitespace = true ∨
      token = .separator .semicolon ∧ nesting = 0 ∧ MeetsStop following
  | .add token => token.isLinebreak = true

theorem nestingAfter_of_allowed {following : List Edit} {token : Token}
    (h : Allowed options nesting following (.remove token)) (count : Nat) :
    nestingAfter count token = count := by
  obtain hw | ⟨rfl, -⟩ := h
  · exact nestingAfter_of_isLayout (by rw [isLayout, hw, Bool.true_or]) count
  · rfl

/-- Every one of the edits may be made where it is. -/
def AllAllowed (options : Options) (nesting : Nat) : List Edit → Prop
  | [] => True
  | edit :: rest => Allowed options nesting rest edit ∧
      AllAllowed options ((source [edit]).foldl nestingAfter nesting) rest

theorem allAllowed_append {before edits : List Edit}
    (h : AllAllowed options nesting (before ++ edits)) :
    AllAllowed options ((source before).foldl nestingAfter nesting) edits := by
  induction before generalizing nesting with
  | nil => exact h
  | cons edit before ih =>
      have hs : source (edit :: before) = source [edit] ++ source before :=
        source_append [edit] before
      rw [hs, List.foldl_append]
      exact ih h.2

theorem allAllowed_map_remove {tokens : List Token}
    (ht : ∀ token ∈ tokens, token.isWhitespace = true) {edits : List Edit}
    (h : AllAllowed options nesting edits) :
    AllAllowed options nesting (tokens.map .remove ++ edits) := by
  induction tokens with
  | nil => exact h
  | cons token tokens ih =>
      obtain ⟨hw, ht⟩ := List.forall_mem_cons.1 ht
      have ha : Allowed options nesting (tokens.map .remove ++ edits) (.remove token) := .inl hw
      refine ⟨ha, ?_⟩
      rw [source_remove, source_nil, List.foldl_cons, List.foldl_nil, nestingAfter_of_allowed ha]
      exact ih ht

theorem allAllowed_semicolonEditsFrom (options : Options) (nesting : Nat) (tokens : List Token) :
    AllAllowed options nesting (semicolonEditsFrom options nesting tokens) := by
  fun_induction semicolonEditsFrom options nesting tokens with
  | case1 => trivial
  | case2 nesting rest hf ih => exact ⟨fun _ => keep_semicolonFate hf, ih⟩
  | case3 nesting rest hf ih =>
      have hz : nesting = 0 := nesting_of_semicolonFate (by rw [hf]; nofun)
      exact ⟨.inr ⟨rfl, hz, meetsStop_semicolonEditsFrom (drop_semicolonFate hf)⟩, ih⟩
  | case4 nesting rest hf ih =>
      have hz : nesting = 0 := nesting_of_semicolonFate (by rw [hf]; nofun)
      refine ⟨.inr ⟨rfl, hz, .add _ _⟩, rfl, ?_⟩
      exact allAllowed_map_remove (List.all_eq_true.1 List.all_takeWhile) ih
  | case5 nesting text rest _ ih => exact ⟨.inl rfl, ih⟩
  | case6 nesting text rest _ ih => exact ⟨fun ht => absurd ht nofun, ih⟩
  | case7 nesting token rest hs _ ih => exact ⟨fun ht => absurd ht hs, ih⟩

theorem foldl_nestingAfter_result {before edits : List Edit}
    (h : AllAllowed options nesting (before ++ edits)) :
    (result before).foldl nestingAfter nesting = (source before).foldl nestingAfter nesting := by
  induction before generalizing nesting with
  | nil => rfl
  | cons edit before ih =>
      obtain ⟨ha, hr⟩ := h
      have hb := ih hr
      cases edit with
      | keep token => exact hb
      | remove token =>
          have hn := nestingAfter_of_allowed ha nesting
          rw [result_remove, source_remove, List.foldl_cons, hn]
          rwa [source_remove, source_nil, List.foldl_cons, List.foldl_nil, hn] at hb
      | add token =>
          have hn : nestingAfter nesting token = nesting :=
            nestingAfter_of_isLayout (by rw [isLayout, ha, Bool.or_true]) nesting
          rw [result_add, source_add, List.foldl_cons, hn]
          exact hb

theorem AllAllowed.enclosed_of_semicolon {edits : List Edit} (h : AllAllowed options 0 edits)
    (hi : options.inlineSemicolons = false) {before after : List Token}
    (he : result edits = before ++ .separator .semicolon :: after) : Enclosed before := by
  obtain ⟨front, back, rfl, hf, hb⟩ := List.filterMap_eq_append_iff.1 he
  obtain ⟨gone, edit, rest, rfl, hg, hs, -⟩ := List.filterMap_eq_cons_iff.1 hb
  have hr : result (front ++ gone) = before := by
    rw [result, List.filterMap_append, hf, List.filterMap_eq_nil_iff.2 hg, List.append_nil]
  rw [← List.append_assoc] at h
  rw [enclosed_iff, ← hr, foldl_nestingAfter_result h]
  have ha := (allAllowed_append h).1
  cases edit with
  | keep token =>
      obtain rfl := Option.some.inj hs
      exact (ha rfl).resolve_right (Bool.eq_false_iff.1 hi)
  | remove token => cases hs
  | add token =>
      obtain rfl := Option.some.inj hs
      cases ha

/-- Semicolons that go never join statements. All that goes is space and semicolons outside
parentheses and square brackets, and all that is put in is line terminators. Where a semicolon goes
between two tokens that stay, layout aside, the line ends between them, unless the second is a line
comment or a closing curly bracket. Where semicolons may not stay inside a line, none stays outside
parentheses and square brackets. -/
theorem semicolons_separate_statements (options : Options) (tokens : List Token) :
    source (semicolonEdits options tokens) = tokens ∧
    result (semicolonEdits options tokens) = semicolons options tokens ∧
    (∀ before token after, semicolonEdits options tokens = before ++ .remove token :: after →
      token.isWhitespace = true ∨ token = .separator .semicolon ∧ ¬Enclosed (source before)) ∧
    (∀ token, .add token ∈ semicolonEdits options tokens → token.isLinebreak = true) ∧
    (∀ before first between second after,
      semicolonEdits options tokens =
        before ++ .keep first :: (between ++ .keep second :: after) →
      (∀ token, .keep token ∈ between → token.isLayout = true) → second.isLayout = false →
      .remove (.separator .semicolon) ∈ between →
      (∃ ending, .linebreak ending ∈ result between) ∨
        (∃ text, second = .lineComment text) ∨ second = .closing .curly) ∧
    (options.inlineSemicolons = false → ∀ before after,
      semicolons options tokens = before ++ .separator .semicolon :: after → Enclosed before) := by
  have ha : AllAllowed options 0 (semicolonEdits options tokens) :=
    allAllowed_semicolonEditsFrom options 0 tokens
  have hr : result (semicolonEdits options tokens) = semicolons options tokens :=
    result_semicolonEditsFrom options 0 tokens
  refine ⟨source_semicolonEditsFrom options 0 tokens, hr, ?_, ?_, ?_, ?_⟩
  · intro before token after he
    rw [he] at ha
    obtain hw | ⟨rfl, hz, -⟩ := (allAllowed_append ha).1
    · exact .inl hw
    · exact .inr ⟨rfl, fun hn => enclosed_iff.1 hn hz⟩
  · intro token hm
    obtain ⟨before, after, he⟩ := List.append_of_mem hm
    rw [he] at ha
    exact (allAllowed_append ha).1
  · intro before first between second after he hl hn hm
    obtain ⟨gap, between, rfl⟩ := List.append_of_mem hm
    have hs : semicolonEdits options tokens = (before ++ .keep first :: gap) ++
        .remove (.separator .semicolon) :: (between ++ .keep second :: after) := by
      simp only [he, List.append_assoc, List.cons_append]
    rw [hs] at ha
    obtain hw | ⟨-, -, hstop⟩ := (allAllowed_append ha).1
    · cases hw
    · have hb : ∀ token, .keep token ∈ between → token.isLayout = true :=
        fun token hm => hl token (List.mem_append_right _ (List.mem_cons_of_mem _ hm))
      refine (hstop.next hb hn).imp_left fun ⟨ending, hm⟩ => ⟨ending, ?_⟩
      rw [result_append, result_remove]
      exact List.mem_append_right _ hm
  · intro hi before after he
    exact ha.enclosed_of_semicolon hi (hr.trans he)

example : semicolonEdits { inlineSemicolons := false }
    [.identifier "a", .separator .semicolon, .whitespace " ", .separator .semicolon,
      .lineComment "// b"] =
    [.keep (.identifier "a"), .remove (.separator .semicolon), .add (.linebreak .lf),
      .remove (.whitespace " "), .remove (.separator .semicolon), .keep (.lineComment "// b")] := by
  cbv

end

end Rule
end SourceStyle
