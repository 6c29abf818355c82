import Mathlib
import SourceStyle.Proofs.LetterCase
import SourceStyle.Proofs.ReadBack

/-!
What stands at the end of lines. Formatted lines end in space only where two space tokens met there
before lines were trimmed: the last goes and the one before it stays.
-/

namespace SourceStyle

namespace Text

theorem bits_layout :
    bits (images upperRuns upperSequences ++ images lowerRuns lowerSequences) &&&
      bits [9, 10, 13, 32] = 0 := by
  decide +kernel

theorem toNat_of_isSpace {c : Char} (h : Lexer.isSpace c = true) : c.toNat ∈ [9, 10, 13, 32] := by
  simp only [Lexer.isSpace, Bool.or_eq_true, beq_iff_eq] at h
  rcases h with rfl | rfl <;> decide

theorem toNat_of_isLineEnd {c : Char} (h : Lexer.isLineEnd c = true) :
    c.toNat ∈ [9, 10, 13, 32] := by
  simp only [Lexer.isLineEnd, Bool.or_eq_true, beq_iff_eq] at h
  rcases h with rfl | rfl <;> decide

section
variable {p : Char → Bool} (hp : ∀ {c}, p c = true → c.toNat ∈ [9, 10, 13, 32])
include hp

theorem not_of_ascii {c : Char} (h : c.toNat < 0x80) (hc : p c = false) :
    p c.toUpper = false ∧ p c.toLower = false := by
  have he : (c.toUpper.toNat ∈ [9, 10, 13, 32] → c.toUpper = c) ∧
      (c.toLower.toNat ∈ [9, 10, 13, 32] → c.toLower = c) := Text.of_ascii h (by decide)
  constructor
  · refine Bool.eq_false_iff.2 fun hu => ?_
    rw [he.1 (hp hu), hc] at hu
    cases hu
  · refine Bool.eq_false_iff.2 fun hl => ?_
    rw [he.2 (hp hl), hc] at hl
    cases hl

/-- A table that makes no layout makes it of nothing but itself. -/
theorem not_of_mem_mapCase {runs : List CaseRun} {sequences : List (Nat × List Nat)}
    (hi : ∀ code ∈ images runs sequences, code ∉ [9, 10, 13, 32]) {c d : Char} (hc : p c = false)
    (h : d ∈ mapCase runs sequences c) : p d = false := by
  rcases mem_mapCase h with ⟨rfl, -⟩ | ⟨code, hm, rfl⟩
  · exact hc
  · have hn := hi code hm
    refine Bool.eq_false_iff.2 fun hs => ?_
    by_cases hv : code.isValidChar
    · have ht : (Char.ofNat code).toNat = code := by
        rw [Char.ofNat, dif_pos hv]
        rfl
      exact hn (ht ▸ hp hs)
    · have hz : Char.ofNat code = '\x00' := dif_neg hv
      rw [hz] at hs
      exact absurd (hp hs) (by decide)

theorem not_of_mem_upper {text : List Char} (h : ∀ c ∈ text, p c = false) :
    ∀ d ∈ upper text, p d = false := by
  intro d hd
  obtain ⟨c, hm, hd⟩ := List.mem_flatMap.1 hd
  unfold upperChar at hd
  split at hd
  · rw [List.mem_singleton.1 hd]
    exact (not_of_ascii hp ‹_› (h c hm)).1
  · exact not_of_mem_mapCase hp
      (fun code hi => not_mem_of_bits bits_layout (List.mem_append_left _ hi)) (h c hm) hd

theorem not_of_mem_lowerAfter {text : List Char} (before : List Char)
    (h : ∀ c ∈ text, p c = false) : ∀ d ∈ lowerAfter before text, p d = false := by
  induction text generalizing before with
  | nil => simp [lowerAfter]
  | cons c text ih =>
      obtain ⟨hc, ht⟩ := List.forall_mem_cons.1 h
      intro d hd
      rw [lowerAfter, List.mem_append] at hd
      rcases hd with hd | hd
      · split at hd
        · rw [List.mem_singleton.1 hd]
          refine Bool.eq_false_iff.2 fun hs => absurd (hp hs) ?_
          split <;> decide
        · unfold lowerChar at hd
          split at hd
          · rw [List.mem_singleton.1 hd]
            exact (not_of_ascii hp ‹_› hc).2
          · exact not_of_mem_mapCase hp
              (fun code hi => not_mem_of_bits bits_layout (List.mem_append_right _ hi)) hc hd
      · exact ih (c :: before) ht d hd

theorem not_of_mem_recase (options : Options) {digits : List Char} (h : ∀ c ∈ digits, p c = false) :
    ∀ d ∈ Rule.recase options digits, p d = false := by
  unfold Rule.recase
  split
  · exact not_of_mem_upper hp h
  · exact not_of_mem_lowerAfter hp [] h

end

end Text

namespace Lexer

section
variable {p : Char → Bool} (hp : ∀ {c}, p c = true → c.toNat ∈ [9, 10, 13, 32])
include hp

theorem isIdentifier_of_layout {c : Char} (h : p c = true) :
    isIdentifierTail c = false ∧ isIdentifierHead c = false := by
  have hc := Char.ofNat_toNat c
  have hm := hp h
  simp only [List.mem_cons, List.not_mem_nil, or_false] at hm
  rcases hm with hn | hn | hn | hn <;>
    rw [hn] at hc <;> rw [← hc] <;> decide

theorem not_of_isIdentifierTail {c : Char} (h : isIdentifierTail c = true) : p c = false := by
  refine Bool.eq_false_iff.2 fun hs => ?_
  rw [(isIdentifier_of_layout hp hs).1] at h
  cases h

theorem not_of_mem_name {c : Char} (h : isIdentifierHead c = true) {rest : List Char} :
    ∀ d ∈ c :: rest.takeWhile isIdentifierTail, p d = false := by
  refine List.forall_mem_cons.2 ⟨Bool.eq_false_iff.2 fun hs => ?_, fun d hm => ?_⟩
  · rw [(isIdentifier_of_layout hp hs).2] at h
    cases h
  · exact not_of_isIdentifierTail hp (List.mem_takeWhile_imp hm)

theorem not_of_mem_numberTail {rest : List Char} : ∀ c ∈ (numberTail rest).1, p c = false := by
  fun_induction numberTail rest with
  | case1 => simp
  | case2 c rest hc _ ih =>
      refine List.forall_mem_cons.2 ⟨?_, ih⟩
      simp only [Bool.or_eq_true, Bool.and_eq_true, beq_iff_eq] at hc
      rcases hc with hc | ⟨rfl, -⟩
      · exact not_of_isIdentifierTail hp hc
      · exact Bool.eq_false_iff.2 fun hs => absurd (hp hs) (by decide)
  | case3 => simp

theorem not_of_mem_number {c : Char} (h : c.isDigit = true) {rest : List Char} :
    ∀ d ∈ c :: (numberTail rest).1, p d = false :=
  List.forall_mem_cons.2
    ⟨not_of_isIdentifierTail hp (isIdentifierTail_of_isDigit h), not_of_mem_numberTail hp⟩

end

theorem flat_of_escaped {rest : List Char} :
    ∀ c ∈ '\x60' :: (rest.takeWhile isEscapedChar ++ ['\x60']), isLineEnd c = false := by
  rw [List.forall_mem_cons, List.forall_mem_append, List.forall_mem_singleton]
  refine ⟨rfl, fun c hm => ?_, rfl⟩
  have he : isEscapedChar c = true := List.mem_takeWhile_imp hm
  simp only [isEscapedChar, Bool.and_eq_true, Bool.not_eq_true'] at he
  exact he.2

end Lexer

namespace Token

def endsLine (text : List Char) : Bool :=
  text.head?.all Lexer.isLineEnd

/-- The tokens whose text may go over several lines. -/
def spansLines : Token → Bool
  | stringLiteral _ | blockComment _ => true
  | _ => false

def isWord : Token → Bool
  | identifier _ | number _ => true
  | _ => false

/-- How a token begins tells that no line ends in it, unless it is a word. -/
theorem flat_of_begins {token : Token} (hb : Lexer.Begins token token.chars)
    (hw : token.isWord = false) (hk : token.isLinebreak = false) (hs : token.spansLines = false) :
    ∀ c ∈ token.chars, Lexer.isLineEnd c = false := by
  intro c hm
  cases token with
  | whitespace text =>
      have hc := hb.2 c hm
      simp only [Lexer.isSpace, Bool.or_eq_true, beq_iff_eq] at hc
      rcases hc with rfl | rfl <;> rfl
  | operator text =>
      obtain ⟨d, more, ht, ho⟩ := hb
      rcases ho with ho | ⟨rfl, -, -, hn⟩
      · exact (Lexer.isOperatorChar_disjoint (ho c hm)).2.2.2.2.2
      · rw [ht, List.mem_singleton] at hm
        rwa [hm]
  | lineComment text =>
      obtain ⟨more, ht, hn⟩ := hb
      rw [ht, List.mem_cons, List.mem_cons] at hm
      rcases hm with rfl | rfl | hm
      · rfl
      · rfl
      · exact hn c hm
  | opening bracket =>
      rw [chars_opening, List.mem_singleton] at hm
      cases bracket <;> rw [hm] <;> rfl
  | closing bracket =>
      rw [chars_closing, List.mem_singleton] at hm
      cases bracket <;> rw [hm] <;> rfl
  | separator mark =>
      rw [chars_separator, List.mem_singleton] at hm
      cases mark <;> rw [hm] <;> rfl
  | identifier => cases hw
  | number => cases hw
  | linebreak => cases hk
  | stringLiteral => cases hs
  | blockComment => cases hs

/-- Lines end in terminators, string literals and block comments alone. -/
theorem flat_of_next {c : Char} {rest : List Char} {step : Lexer.Step}
    (h : Lexer.next c rest = .ok step) (hk : step.token.isLinebreak = false)
    (hs : step.token.spansLines = false) : ∀ d ∈ step.token.chars, Lexer.isLineEnd d = false := by
  have hb := Lexer.begins_of_next h
  cases Lexer.reads_of_next h with
  | number hc =>
      rw [chars, text, String.toList_ofList]
      exact Lexer.not_of_mem_number Text.toNat_of_isLineEnd hc
  | name hc =>
      rw [chars, text, String.toList_ofList]
      exact Lexer.not_of_mem_name Text.toNat_of_isLineEnd hc
  | escaped =>
      rw [chars, text, String.toList_ofList]
      exact Lexer.flat_of_escaped
  | linebreak => cases hk
  | blockComment | multiline | quoted => cases hs
  | space | lineComment | sign | opening | closing | separator | other =>
      exact flat_of_begins hb rfl hk hs

/-- No line ends in a space or a tab, other than inside string literals and block comments. -/
def CleanLines (tokens : List Token) : Prop :=
  ∀ before token after, tokens = before ++ token :: after → token.spansLines = false →
    ∀ c rest, c :: rest <:+ token.chars → Lexer.isSpace c = true →
      endsLine (rest ++ renderChars after) = false

/-- Two space tokens meet at the end of a line. -/
def SpacesMeet (tokens : List Token) : Prop :=
  ∃ first second after, .whitespace first :: .whitespace second :: after <:+ tokens ∧
    Rule.atLineEnd after = true

/-- No space in the text ends a line, whatever comes after the text. -/
def Tight (text : List Char) : Prop :=
  ∀ c rest, c :: rest <:+ text → Lexer.isSpace c = true →
    ∃ d more, rest = d :: more ∧ Lexer.isLineEnd d = false

theorem tight_of_not_isSpace {text : List Char} (h : ∀ c ∈ text, Lexer.isSpace c = false) :
    Tight text := by
  intro c rest hs hc
  rw [h c (hs.subset List.mem_cons_self)] at hc
  cases hc

theorem tight_of_getLast {text : List Char} (hl : ∀ c ∈ text, Lexer.isLineEnd c = false)
    (he : text.getLast?.any Lexer.isSpace = false) : Tight text := by
  intro c rest hs hc
  cases rest with
  | nil =>
      obtain ⟨before, rfl⟩ := hs
      rw [List.getLast?_concat, Option.any_some, hc] at he
      cases he
  | cons d more => exact ⟨d, more, rfl, hl d (hs.subset (by simp))⟩

/-- What can be told of the spaces in a token before lines are trimmed. -/
def Snug : Token → Prop
  | .number text => ∀ c ∈ text.toList, Lexer.isSpace c = false
  | .whitespace _ | .stringLiteral _ | .blockComment _ | .lineComment _ => True
  | token => Tight token.chars

theorem snug_linebreak (ending : Linebreak) : Snug (.linebreak ending) := by
  refine tight_of_not_isSpace ?_
  rw [chars_linebreak]
  cases ending <;> simp [Linebreak.chars, Lexer.isSpace]

theorem snug_operator {text : String}
    (h : Lexer.Begins (.operator text) (Token.operator text).chars) : Snug (.operator text) := by
  obtain ⟨c, more, he, hc⟩ := h
  refine tight_of_not_isSpace fun d hm => ?_
  rcases hc with hc | ⟨rfl, -, hs, -⟩
  · exact (Lexer.isOperatorChar_disjoint (hc d hm)).2.2.2.2.1
  · rw [he, List.mem_singleton] at hm
    rwa [hm]

theorem snug_opening (bracket : Bracket) : Snug (.opening bracket) :=
  tight_of_not_isSpace (by cases bracket <;> simp [Bracket.openChar, Lexer.isSpace])

theorem snug_closing (bracket : Bracket) : Snug (.closing bracket) :=
  tight_of_not_isSpace (by cases bracket <;> simp [Bracket.closeChar, Lexer.isSpace])

theorem snug_separator (mark : Separator) : Snug (.separator mark) :=
  tight_of_not_isSpace (by cases mark <;> simp [Separator.char, Lexer.isSpace])

theorem snug_of_next {c : Char} {rest : List Char} {step : Lexer.Step}
    (h : Lexer.next c rest = .ok step) : Snug step.token := by
  have hb := Lexer.begins_of_next h
  have hflat := flat_of_next h
  cases Lexer.reads_of_next h with
  | space | lineComment | blockComment | multiline | quoted => trivial
  | linebreak => exact snug_linebreak _
  | number hc =>
      rw [Snug, String.toList_ofList]
      exact Lexer.not_of_mem_number Text.toNat_of_isSpace hc
  | name hc =>
      refine tight_of_not_isSpace ?_
      rw [Token.chars, Token.text, String.toList_ofList]
      exact Lexer.not_of_mem_name Text.toNat_of_isSpace hc
  | escaped =>
      refine tight_of_getLast (hflat rfl rfl) ?_
      rw [Token.chars, Token.text, String.toList_ofList, ← List.cons_append, List.getLast?_concat]
      rfl
  | sign | other => exact snug_operator hb
  | opening => exact snug_opening _
  | closing => exact snug_closing _
  | separator => exact snug_separator _

end Token

namespace Rule

open Token

theorem snug_recaseHex (options : Options) {token : Token} (h : Snug token) :
    Snug (recaseHex options token) := by
  rcases recaseHex_cases options token with he | ⟨x, digits, -, rfl, he⟩
  · rwa [he]
  · have hs : ∀ c ∈ digits, Lexer.isSpace c = false := fun c hm => h c (by simp [hm])
    rw [he, Snug, String.toList_ofList, List.forall_mem_cons, List.forall_mem_cons]
    exact ⟨rfl, rfl, Text.not_of_mem_recase Text.toNat_of_isSpace options hs⟩

/-- Rules put in snug tokens and keep tokens snug. -/
theorem kept_snug (options : Options) : Kept options Snug where
  terminator := snug_linebreak _
  space _ _ _ := trivial
  comma := snug_separator _
  name := tight_of_not_isSpace (by simp [Token.chars, Token.text, Lexer.isSpace])
  opening := snug_opening _
  closing := snug_closing _
  respelled token h := by
    cases token with
    | linebreak => exact snug_linebreak _
    | _ => exact h
  recased token h := snug_recaseHex options h
  reindented level token h := by
    cases token with
    | blockComment => trivial
    | _ => exact h
  trimmed _ _ := trivial

/-- Space ends a line. -/
def SpaceEnds (tokens : List Token) : Prop :=
  ∃ text after, .whitespace text :: after <:+ tokens ∧ atLineEnd after = true

theorem spaceEnds_cons {token : Token} {rest : List Token} :
    SpaceEnds (token :: rest) ↔
      token.isWhitespace = true ∧ atLineEnd rest = true ∨ SpaceEnds rest := by
  constructor
  · rintro ⟨text, after, hs, ha⟩
    rcases List.suffix_cons_iff.1 hs with he | hs
    · cases he
      exact .inl ⟨rfl, ha⟩
    · exact .inr ⟨text, after, hs, ha⟩
  · rintro (⟨hw, ha⟩ | ⟨text, after, hs, ha⟩)
    · cases token with
      | whitespace text => exact ⟨text, rest, List.suffix_rfl, ha⟩
      | _ => cases hw
    · exact ⟨text, after, List.suffix_cons_iff.2 (.inr hs), ha⟩

/-- One space token and the end of a line follow. -/
def SpaceAhead (tokens : List Token) : Prop :=
  ∃ text after, tokens = .whitespace text :: after ∧ atLineEnd after = true

theorem spacesMeet_cons {token : Token} {rest : List Token} :
    SpacesMeet (token :: rest) ↔
      token.isWhitespace = true ∧ SpaceAhead rest ∨ SpacesMeet rest := by
  constructor
  · rintro ⟨first, second, after, hs, ha⟩
    rcases List.suffix_cons_iff.1 hs with he | hs
    · cases he
      exact .inl ⟨rfl, second, after, rfl, ha⟩
    · exact .inr ⟨first, second, after, hs, ha⟩
  · rintro (⟨hw, second, after, rfl, ha⟩ | ⟨first, second, after, hs, ha⟩)
    · cases token with
      | whitespace first => exact ⟨first, second, after, List.suffix_rfl, ha⟩
      | _ => cases hw
    · exact ⟨first, second, after, List.suffix_cons_iff.2 (.inr hs), ha⟩

section
variable {options : Options} {tokens : List Token}

theorem not_spaceAhead_of_atLineEnd (h : atLineEnd tokens = true) : ¬SpaceAhead tokens := by
  rintro ⟨text, after, rfl, -⟩
  cases h

theorem trimLines_whitespace (ho : options.truncateBlankLines = true) (lineStart : Bool)
    (text : String) (rest : List Token) :
    trimLines options lineStart (.whitespace text :: rest) =
      if atLineEnd rest = true then trimLines options lineStart rest
      else .whitespace text :: trimLines options false rest := by
  rw [trimLines, ho]
  simp

theorem atLineEnd_trimLines (ho : options.truncateBlankLines = true) {lineStart : Bool} :
    atLineEnd (trimLines options lineStart tokens) = true ↔
      atLineEnd tokens = true ∨ SpaceAhead tokens := by
  cases tokens with
  | nil => simp [trimLines, atLineEnd]
  | cons token rest =>
      cases token with
      | whitespace text =>
          have hk : (atLineEnd (.whitespace text :: rest) = true ∨
              SpaceAhead (.whitespace text :: rest)) ↔ atLineEnd rest = true := by
            constructor
            · rintro (h | ⟨text, after, he, ha⟩)
              · cases h
              · cases he
                exact ha
            · exact fun h => .inr ⟨text, rest, rfl, h⟩
          rw [hk, trimLines_whitespace ho]
          split
          · rename_i ha
            refine iff_of_true ?_ ha
            cases rest with
            | nil => rfl
            | cons second rest =>
                cases second with
                | linebreak => rfl
                | _ => cases ha
          · rename_i ha
            exact iff_of_false (fun h => by cases h) ha
      | linebreak => simp [trimLines, atLineEnd]
      | _ => simp [trimLines, atLineEnd, SpaceAhead]

/-- Of two space tokens at the end of a line the first stays, and no other space does. -/
theorem spaceEnds_trimLines (ho : options.truncateBlankLines = true) (lineStart : Bool) :
    SpaceEnds (trimLines options lineStart tokens) ↔ SpacesMeet tokens := by
  induction tokens generalizing lineStart with
  | nil => simp [trimLines, SpaceEnds, SpacesMeet]
  | cons token rest ih =>
      rw [spacesMeet_cons]
      cases token with
      | whitespace text =>
          rw [trimLines_whitespace ho]
          split
          · rename_i ha
            rw [ih]
            simp [not_spaceAhead_of_atLineEnd ha]
          · rename_i ha
            rw [spaceEnds_cons, ih, atLineEnd_trimLines ho]
            simp [isWhitespace, ha]
      | _ =>
          rw [trimLines, spaceEnds_cons, ih]
          · simp [isWhitespace]
          all_goals
            intro space h
            cases h

theorem getLast?_trimEnd (text : List Char) :
    (Text.trimEnd text).getLast?.any Lexer.isSpace = false := by
  rw [Text.trimEnd, List.getLast?_reverse]
  have hn := List.head?_dropWhile_not Text.isBlank text.reverse
  cases hd : (text.reverse.dropWhile Text.isBlank).head? with
  | none => rfl
  | some c =>
      rw [hd] at hn
      refine Bool.eq_false_iff.2 fun hs => ?_
      simp only [Option.any_some, Lexer.isSpace, Bool.or_eq_true, beq_iff_eq] at hs
      rcases hs with rfl | rfl <;> exact absurd hn (by decide)

theorem tight_of_mem_trimLines {lineStart : Bool} (hr : ∀ token ∈ tokens, Lexer.Readable token)
    {text : String} (h : .lineComment text ∈ trimLines options lineStart tokens) :
    Tight text.toList := by
  fun_induction trimLines options lineStart tokens with
  | case1 => cases h
  | case2 lineStart space rest _ ih => exact ih (List.forall_mem_cons.1 hr).2 h
  | case4 lineStart comment rest ih =>
      obtain ⟨hc, hr⟩ := List.forall_mem_cons.1 hr
      rcases List.mem_cons.1 h with he | hm
      · cases he
        obtain ⟨more, hm, hl⟩ := Lexer.scans_lineComment.1 hc
        rw [String.toList_ofList]
        refine tight_of_getLast (fun c hc => ?_) (getLast?_trimEnd comment.toList)
        have hs := Lexer.mem_of_mem_trimEnd hc
        rw [hm, List.mem_cons, List.mem_cons] at hs
        rcases hs with rfl | rfl | hs
        · rfl
        · rfl
        · exact hl c hs
      · exact ih hr hm
  | case3 lineStart space rest _ ih | case5 lineStart ending rest ih =>
      exact ih (List.forall_mem_cons.1 hr).2 (by simpa using h)
  | case6 lineStart token rest _ hc _ ih =>
      rcases List.mem_cons.1 h with he | hm
      · exact absurd he.symm (hc text)
      · exact ih (List.forall_mem_cons.1 hr).2 hm

end

end Rule

namespace Token

theorem endsLine_renderChars {tokens : List Token} (hr : ∀ token ∈ tokens, Lexer.Readable token) :
    endsLine (renderChars tokens) = Rule.atLineEnd tokens := by
  cases tokens with
  | nil => rfl
  | cons token rest =>
      have hb := (hr token List.mem_cons_self).begins
      rw [endsLine, Lexer.renderChars_head? hb]
      cases hh : token.chars.head? with
      | none => exact absurd (List.head?_eq_none_iff.1 hh) (Lexer.begins_ne_nil hb)
      | some c =>
          cases token with
          | linebreak ending =>
              rw [chars_linebreak] at hh
              cases ending <;> cases hh <;> rfl
          | _ =>
              refine Bool.eq_false_iff.2 fun hl => ?_
              have hk := Lexer.isLinebreak_of_isLineEnd hb hh hl
              cases hk

theorem endsLine_of_not_isLineEnd {c : Char} (h : Lexer.isLineEnd c = false) (rest : List Char) :
    endsLine (c :: rest) = false := h

theorem cleanLines_iff {tokens : List Token} (hr : ∀ token ∈ tokens, Lexer.Readable token)
    (hs : ∀ token ∈ tokens, Snug token)
    (hc : ∀ text, .lineComment text ∈ tokens → Tight text.toList) :
    CleanLines tokens ↔ ¬Rule.SpaceEnds tokens := by
  constructor
  · rintro h ⟨text, after, ⟨before, ht⟩, ha⟩
    have hm : .whitespace text ∈ tokens := by rw [← ht]; simp
    obtain ⟨hn, hw⟩ := (hr _ hm).begins
    have hl := List.dropLast_append_getLast hn
    have hf := h before _ after ht.symm rfl _ [] ⟨_, hl⟩ (hw _ (List.getLast_mem hn))
    rw [List.nil_append, endsLine_renderChars, ha] at hf
    · cases hf
    · exact fun token ho => hr token (by rw [← ht]; simp [ho])
  · intro h before token after ht hk c rest hsuf hspace
    have hm : token ∈ tokens := by rw [ht]; simp
    have hafter : ∀ other ∈ after, Lexer.Readable other := fun other ho => hr other (by rw [ht]; simp [ho])
    have hd : ∀ {text : List Char}, Tight text → c :: rest <:+ text →
        endsLine (rest ++ renderChars after) = false := by
      intro text hx hy
      obtain ⟨d, more, rfl, hd⟩ := hx c rest hy hspace
      exact endsLine_of_not_isLineEnd hd _
    have hsn := hs token hm
    cases token with
    | stringLiteral => cases hk
    | blockComment => cases hk
    | lineComment text => exact hd (hc text hm) hsuf
    | number text => exact hd (tight_of_not_isSpace hsn) hsuf
    | whitespace text =>
        obtain ⟨-, hw⟩ := (hr _ hm).begins
        cases rest with
        | nil =>
            rw [List.nil_append, endsLine_renderChars hafter]
            refine Bool.eq_false_iff.2 fun ha => h ⟨text, after, ⟨before, ht.symm⟩, ha⟩
        | cons d more =>
            refine endsLine_of_not_isLineEnd ?_ _
            have hsp := hw d (hsuf.subset (by simp))
            simp only [Lexer.isSpace, Bool.or_eq_true, beq_iff_eq] at hsp
            rcases hsp with rfl | rfl <;> rfl
    | _ => exact hd hsn hsuf

end Token

namespace Rule

open Token

theorem run_all_eq_trailingWhitespace (options : Options) (tokens : List Token) :
    run all options tokens = trailingWhitespace options (run all.dropLast options tokens) := by
  cases ho : options.experimental <;> simp [run, all, isEnabled, ho]

theorem presentable_run_dropLast (options : Options) {tokens : List Token} (h : Presentable tokens) :
    Presentable (run all.dropLast options tokens) :=
  applyAll_induction (fun _ hm _ hp => hp.apply hm)
    (fun _ hm => (List.dropLast_sublist all).subset (List.mem_filter.1 hm).1) h

theorem snug_run (options : Options) {tokens : List Token} (h : ∀ token ∈ tokens, Snug token) :
    ∀ token ∈ run all options tokens, Snug token :=
  (kept_snug options).forall_mem_run h

end Rule

open Token

/-- With blank lines truncated, formatted lines are clean exactly if the rules before the last leave
no two space tokens side by side at the end of a line. -/
theorem format_cleanLines_iff {options : Options} {source out : String}
    (ht : options.truncateBlankLines = true) (h : format Rule.all options source = .ok out) :
    ∃ tokens, readTokens options source = .ok tokens ∧
      out = render (Rule.run Rule.all options tokens) ∧
      (CleanLines (Rule.run Rule.all options tokens) ↔
        ¬SpacesMeet (Rule.run Rule.all.dropLast options tokens)) := by
  unfold format at h
  cases hr : readTokens options source with
  | error fault =>
      rw [hr] at h
      cases h
  | ok tokens =>
      rw [hr] at h
      have hl := (readTokens_eq_ok hr).1
      have hp := presentable_of_tokenize hl
      have hs : ∀ token ∈ tokens, Snug token := by
        intro token hm
        obtain ⟨before, after, rfl⟩ := List.append_of_mem hm
        obtain ⟨c, more, lines, -, hn⟩ := (tokenize_eq_ok_iff.1 hl).scans
        exact snug_of_next hn
      refine ⟨tokens, rfl, (Except.ok.inj h).symm, ?_⟩
      rw [cleanLines_iff (presentable_run options hp).readable (Rule.snug_run options hs),
        Rule.run_all_eq_trailingWhitespace, Rule.trailingWhitespace, Rule.spaceEnds_trimLines ht]
      intro text hm
      rw [Rule.run_all_eq_trailingWhitespace] at hm
      exact Rule.tight_of_mem_trimLines (Rule.presentable_run_dropLast options hp).readable hm

set_option maxRecDepth 10000 in
theorem format_cleanLines_iff_semicolon :
    ∃ tokens, readTokens {} "f() ;\n\x7b // x \n\n\x7d" = .ok tokens ∧
      "f() \x7b // x\n\x7d" = render (Rule.run Rule.all {} tokens) ∧
      (CleanLines (Rule.run Rule.all {} tokens) ↔
        ¬SpacesMeet (Rule.run Rule.all.dropLast {} tokens)) :=
  format_cleanLines_iff rfl (by cbv)

set_option maxRecDepth 10000 in
/-- A semicolon with space on both sides leaves one of the spaces when it goes. -/
theorem format_spaced_semicolon :
    ¬∀ options source out, options.truncateBlankLines = true →
      format Rule.all options source = .ok out →
      ∃ tokens, readTokens options source = .ok tokens ∧
        CleanLines (Rule.run Rule.all options tokens) := by
  intro h
  obtain ⟨tokens, hr, hc⟩ := h {} "a ; \n" "a \n" rfl (by cbv)
  have ht : readTokens {} "a ; \n" = .ok [.identifier "a", .whitespace " ", .separator .semicolon,
      .whitespace " ", .linebreak .lf] := by cbv
  have he : Rule.run Rule.all {} [.identifier "a", .whitespace " ", .separator .semicolon,
      .whitespace " ", .linebreak .lf] =
      [.identifier "a", .whitespace " ", .linebreak .lf] := by cbv
  cases hr.symm.trans ht
  rw [he] at hc
  have hl := hc [.identifier "a"] (.whitespace " ") [.linebreak .lf] rfl rfl ' ' [] ⟨[], rfl⟩ rfl
  exact absurd hl (by decide)

end SourceStyle
