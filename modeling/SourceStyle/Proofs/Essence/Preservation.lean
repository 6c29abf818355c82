import Mathlib
import SourceStyle.Proofs.Essence.Rules

/-!
No sequence of rules loses, adds or reorders code or comments. Stripping a header takes comments
from the top of the file, and no rule lets it reach further than layout, comments and semicolons
reach.
-/

namespace SourceStyle.Essence

open Token Rule

/-- Digits of other scripts change letter case in ways that the essence does not know. -/
def AsciiNumber (token : Token) : Prop :=
  ∀ text, token = .number text → ∀ c ∈ text.toList, c.toNat < 0x80

theorem toNat_toUpper_lt {c : Char} (h : c.toNat < 0x80) :
    c.toUpper.toNat < 0x80 ∧ c.toLower.toNat < 0x80 :=
  Text.of_ascii h (by decide)

theorem recase_lt (options : Options) {digits : List Char} (h : ∀ c ∈ digits, c.toNat < 0x80) :
    ∀ c ∈ recase options digits, c.toNat < 0x80 := by
  unfold recase
  split
  · rw [Text.upper_of_ascii h, List.forall_mem_map]
    exact fun c hm => (toNat_toUpper_lt (h c hm)).1
  · rw [Text.lower, Text.lowerAfter_of_ascii h, List.forall_mem_map]
    exact fun c hm => (toNat_toUpper_lt (h c hm)).2

theorem asciiNumber_recaseHex (options : Options) {token : Token} (h : AsciiNumber token) :
    AsciiNumber (recaseHex options token) := by
  rcases recaseHex_cases options token with he | ⟨x, digits, -, rfl, he⟩
  · rwa [he]
  · have hc := recase_lt options fun c (hm : c ∈ digits) => h _ rfl c (by simp [hm])
    rw [he]
    rintro text ⟨⟩
    rw [String.toList_ofList]
    simpa using hc

theorem kept_asciiNumber (options : Options) : Kept options AsciiNumber where
  terminator := by rintro _ ⟨⟩
  space := by rintro _ _ _ _ ⟨⟩
  comma := by rintro _ ⟨⟩
  name := by rintro _ ⟨⟩
  opening := by rintro _ ⟨⟩
  closing := by rintro _ ⟨⟩
  respelled token h := by cases token <;> first | exact h | rintro _ ⟨⟩
  recased _ h := asciiNumber_recaseHex options h
  reindented _ token h := by cases token <;> first | exact h | rintro _ ⟨⟩
  trimmed _ _ := by rintro _ ⟨⟩

/-- The comments above the first code other than a semicolon. -/
def front (tokens : List Token) : List Token :=
  (dropSemicolons 0 (content tokens)).takeWhile isComment

def isAside (token : Token) : Bool :=
  token.isTrivia || token == .separator .semicolon

def asideContent (token : Token) : List Token :=
  if token.isComment = true then [plain token] else []

theorem flatMap_asideContent (lead : List Token) :
    lead.flatMap asideContent = (lead.filter isComment).map plain := by
  induction lead with
  | nil => rfl
  | cons token lead ih =>
      rw [List.flatMap_cons, ih, List.filter_cons]
      unfold asideContent
      split <;> rfl

theorem isComment_plain (token : Token) : (plain token).isComment = token.isComment := by
  cases token <;> rfl

theorem dropSemicolons_aside {token : Token} (h : isAside token = true) (tokens : List Token) :
    dropSemicolons 0 (content (token :: tokens)) =
      asideContent token ++ dropSemicolons 0 (content tokens) := by
  rw [dropSemicolons_content_cons]
  cases token <;> simp_all [isAside, isTrivia, isLayout, isWhitespace, isLinebreak, isComment,
    asideContent, nestingAfter]

theorem front_cons (token : Token) (tokens : List Token) :
    front (token :: tokens) = if isAside token = true then asideContent token ++ front tokens else [] := by
  by_cases h : isAside token = true
  · rw [if_pos h, front, dropSemicolons_aside h, front]
    unfold asideContent
    split
    · rename_i hc
      rw [← isComment_plain] at hc
      rw [List.singleton_append, List.takeWhile_cons_of_pos hc, List.singleton_append]
    · rfl
  · rw [if_neg h, front, dropSemicolons_content_cons]
    cases token <;> simp_all [isAside, isTrivia, isLayout, isWhitespace, isLinebreak, isComment, plain]

theorem essence_aside {token : Token} (h : isAside token = true) (tokens : List Token) :
    essence (token :: tokens) = asideContent token ++ essence tokens := by
  rw [essence, core, dropSemicolons_aside h, essence, core]
  cases token with
  | lineComment => rfl
  | blockComment => rfl
  | _ => simp [asideContent, isComment]

/-- What stands above a suffix, if it is not code, is no part of the suffix's essence. -/
theorem asides_append {lead : List Token} (h : ∀ token ∈ lead, isAside token = true)
    (rest : List Token) :
    front (lead ++ rest) = lead.flatMap asideContent ++ front rest ∧
      essence (lead ++ rest) = lead.flatMap asideContent ++ essence rest := by
  induction lead with
  | nil => exact ⟨rfl, rfl⟩
  | cons token lead ih =>
      obtain ⟨ht, hl⟩ := List.forall_mem_cons.1 h
      obtain ⟨hf, he⟩ := ih hl
      rw [List.cons_append, front_cons, if_pos ht, essence_aside ht, hf, he, List.flatMap_cons,
        List.append_assoc, List.append_assoc]
      exact ⟨rfl, rfl⟩

/-- Every beginning of the front is what some tokens above the code leave. -/
theorem exists_asides {removed following tokens : List Token}
    (h : front tokens = removed ++ following) :
    ∃ lead rest, tokens = lead ++ rest ∧ (∀ token ∈ lead, isAside token = true) ∧
      lead.flatMap asideContent = removed := by
  induction tokens generalizing removed with
  | nil =>
      have hr : removed = [] := (List.append_eq_nil_iff.1 h.symm).1
      exact ⟨[], [], rfl, by simp, hr.symm⟩
  | cons token tokens ih =>
      cases removed with
      | nil => exact ⟨[], token :: tokens, rfl, by simp, rfl⟩
      | cons comment removed =>
          rw [front_cons] at h
          split at h
          · rename_i ht
            obtain ⟨more, he, hf⟩ : ∃ more, comment :: removed = asideContent token ++ more ∧
                front tokens = more ++ following := by
              unfold asideContent at h ⊢
              split at h
              · injection h with hc hf
                exact ⟨removed, by rw [if_pos ‹_›, hc]; rfl, hf⟩
              · exact ⟨comment :: removed, by rw [if_neg ‹_›]; rfl, h⟩
            obtain ⟨lead, rest, rfl, hl, hm⟩ := ih hf
            exact ⟨token :: lead, rest, rfl, List.forall_mem_cons.2 ⟨ht, hl⟩,
              by rw [List.flatMap_cons, hm, he]⟩
          · cases h

/-- The second tokens are the first without some of the comments above the code, and without none
where headers stay. -/
def Sheds (options : Options) (first second : List Token) : Prop :=
  ∃ removed, (options.stripHeader = false → removed = []) ∧
    front first = removed ++ front second ∧ essence first = removed ++ essence second

section
variable {options : Options} {first second third : List Token}

theorem Sheds.trans (h : Sheds options first second) (k : Sheds options second third) :
    Sheds options first third := by
  obtain ⟨removed, hn, hf, he⟩ := h
  obtain ⟨more, kn, kf, ke⟩ := k
  refine ⟨removed ++ more, fun ho => by rw [hn ho, kn ho]; rfl, ?_, ?_⟩
  · rw [hf, kf, List.append_assoc]
  · rw [he, ke, List.append_assoc]

theorem Sheds.of_dropSemicolons_eq
    (h : dropSemicolons 0 (content second) = dropSemicolons 0 (content first)) :
    Sheds options first second :=
  ⟨[], fun _ => rfl, by rw [front, front, h]; rfl, by rw [essence, essence, core, core, h]; rfl⟩

theorem Sheds.of_content_eq (h : content second = content first) : Sheds options first second :=
  .of_dropSemicolons_eq (by rw [h])

end

theorem sheds_header (options : Options) (tokens : List Token) :
    Sheds options tokens (header options tokens) := by
  obtain ⟨lead, hl, happ, hn⟩ := exists_append_header options tokens
  have hs : ∀ token ∈ lead, isAside token = true :=
    fun token hm => by rw [isAside, hl token hm, Bool.true_or]
  obtain ⟨hf, he⟩ := asides_append hs (header options tokens)
  rw [← happ] at hf he
  exact ⟨lead.flatMap asideContent, fun hk => by rw [hn hk]; rfl, hf, he⟩

theorem VoidAlike.takeWhile_isComment {first second : List Token} (h : VoidAlike false first second) :
    first.takeWhile isComment = second.takeWhile isComment := by
  generalize ha : false = arrow at h
  induction h with
  | nil => rfl
  | @cons arrow token first second _ ih =>
      rw [List.takeWhile_cons, List.takeWhile_cons]
      split
      · rename_i hc
        refine congrArg _ (ih ?_)
        cases token <;> first | rfl | cases hc
      · rfl
  | result => cases ha

theorem sheds_voidTypes (options : Options) (tokens : List Token) :
    Sheds options tokens (voidTypes options tokens) := by
  have ha := (voidAlike_voidTypes options false tokens).dropSemicolons 0
  exact ⟨[], fun _ => rfl, ha.takeWhile_isComment.symm, ha.dropCommas.spellOutVoid.symm⟩

theorem front_trailingCommas (options : Options) (tokens : List Token) :
    front (trailingCommas options tokens) = front tokens := by
  fun_induction trailingCommas options tokens with
  | case1 => rfl
  | case2 => rw [front_cons, front_cons]; rfl
  | case3 rest _ ih | case4 token rest _ ih => rw [front_cons, front_cons, ih]

theorem sheds_trailingCommas (options : Options) (tokens : List Token) :
    Sheds options tokens (trailingCommas options tokens) := by
  have hc := (interchangeable_trailingCommas options tokens 0 []).1
  rw [List.append_nil, List.append_nil] at hc
  exact ⟨[], fun _ => rfl, (front_trailingCommas options tokens).symm,
    by rw [essence, essence, hc]; rfl⟩

theorem sheds_apply (options : Options) {rule : Rule} (hr : rule ∈ all) {tokens : List Token}
    (h : rule.name = "hexLiterals" → ∀ token ∈ tokens, AsciiNumber token) :
    Sheds options tokens (rule.apply options tokens) := by
  cases hr using mem_all_cases with
  | linebreaks => exact .of_content_eq (content_linebreaks options tokens)
  | header => exact sheds_header options tokens
  | semicolons => exact .of_dropSemicolons_eq (dropSemicolons_semicolonsFrom options 0 tokens)
  | ranges => exact .of_content_eq (content_ranges options tokens)
  | voidTypes => exact sheds_voidTypes options tokens
  | hexLiterals =>
      exact .of_content_eq (content_hexLiterals options fun text hm => h rfl _ hm text rfl)
  | trailingCommas => exact sheds_trailingCommas options tokens
  | braces => exact .of_content_eq (content_braces options tokens)
  | blankLinesAtScopeEdges => exact .of_content_eq (content_blankLinesAtScopeEdges options tokens)
  | blankLinesBetweenScopes => exact .of_content_eq (content_blankLinesBetweenScopes options tokens)
  | consecutiveBlankLines => exact .of_content_eq (content_consecutiveBlankLines options tokens)
  | indentation => exact .of_content_eq (content_indentation options tokens)
  | trailingWhitespace => exact .of_content_eq (content_trailingWhitespace options tokens)

theorem sheds_applyAll (options : Options) {rules : List Rule} (hr : ∀ rule ∈ rules, rule ∈ all)
    {tokens : List Token} (h : ∀ token ∈ tokens, AsciiNumber token) :
    Sheds options tokens (applyAll rules options tokens) := by
  let Holds (result : List Token) : Prop :=
    (∀ token ∈ result, AsciiNumber token) ∧ Sheds options tokens result
  have hs : ∀ rule ∈ all, ∀ result, Holds result → Holds (rule.apply options result) :=
    fun rule hm result ⟨ha, hs⟩ => ⟨(kept_asciiNumber options).forall_mem_apply hm result ha,
      hs.trans (sheds_apply options hm fun _ => ha)⟩
  exact (applyAll_induction hs hr ⟨h, .of_content_eq rfl⟩).2

end SourceStyle.Essence

namespace SourceStyle

open Token Essence

/-- Rules in any order keep the essence of tokens, except that stripping headers may take away what
stands above the code. -/
theorem essence_applyAll (options : Options) {rules : List Rule}
    (hr : ∀ rule ∈ rules, rule ∈ Rule.all) {tokens : List Token}
    (hn : ∀ text, .number text ∈ tokens → ∀ c ∈ text.toList, c.toNat < 0x80) :
    (options.stripHeader = false →
      essence (Rule.applyAll rules options tokens) = essence tokens) ∧
    ∃ lead rest, tokens = lead ++ rest ∧
      (∀ token ∈ lead, token.isTrivia = true ∨ token = .separator .semicolon) ∧
      essence (Rule.applyAll rules options tokens) = essence rest ∧
      essence tokens = (lead.filter isComment).map plain ++ essence rest := by
  obtain ⟨removed, ho, hf, he⟩ := sheds_applyAll options hr
    (fun token hm text ht => hn text (ht ▸ hm))
  obtain ⟨lead, rest, rfl, hl, rfl⟩ := exists_asides hf
  have ha := (asides_append hl rest).2
  refine ⟨fun hs => ?_, lead, rest, rfl, fun token hm => ?_, ?_, ?_⟩
  · rw [he, ho hs, List.nil_append]
  · simpa [isAside] using hl token hm
  · exact List.append_cancel_left (he.symm.trans ha)
  · rw [ha, flatMap_asideContent]

theorem essence_applyAll_literal :
    essence (Rule.applyAll Rule.all {}
        [.identifier "f", .opening .square, .number "0xaB", .linebreak .crlf, .closing .square,
          .separator .semicolon, .linebreak .crlf]) =
      [.identifier "f", .opening .square, .number "0xab", .closing .square] :=
  ((essence_applyAll {} (fun _ h => h) (by simp)).1 rfl).trans (by cbv)

/-- A semicolon above a comment goes, and then the comment is taken for a header. -/
theorem essence_applyAll_semicolon :
    ¬∃ lead rest,
      [.separator .semicolon, .lineComment "// c", .linebreak .lf, .linebreak .lf,
          .identifier "x"] = lead ++ rest ∧
      (∀ token ∈ lead, token.isTrivia = true) ∧
      essence (Rule.applyAll
          [{ name := "semicolons", apply := Rule.semicolons },
            { name := "header", apply := Rule.header }]
          { stripHeader := true }
          [.separator .semicolon, .lineComment "// c", .linebreak .lf, .linebreak .lf,
            .identifier "x"]) =
        essence rest := by
  rintro ⟨lead, rest, ht, hl, he⟩
  cases lead with
  | nil =>
      subst ht
      refine absurd he ?_
      cbv
      intro h
      cases h
  | cons token lead =>
      injection ht with ht
      subst ht
      simp [isTrivia, isLayout, isWhitespace, isLinebreak, isComment] at hl

end SourceStyle
