import Mathlib.Data.List.DropRight
import SourceStyle.Proofs.Watch

/-!
The essence of tokens: what no rule may lose, add or reorder. Left out are layout, semicolons
between statements, commas in front of a closing bracket, and what the spelling of one token
leaves open.
-/

namespace SourceStyle

namespace Essence

open Token

/-- A text without the spaces and tabs at the beginning of its later lines. -/
def flushLines (text : List Char) : List Char :=
  match text with
  | [] => []
  | c :: rest =>
    if c = '\n' then c :: flushLines (rest.dropWhile Lexer.isSpace) else c :: flushLines rest
termination_by text.length
decreasing_by
  all_goals
    have := (List.dropWhile_sublist Lexer.isSpace (l := rest)).length_le
    simp only [List.length_cons]
    omega

def plainNumber (text : List Char) : List Char :=
  if (Rule.hexDigits? text).isSome then text.map Char.toLower else text

/-- A token without what its spelling leaves open. -/
def plain : Token → Token
  | .number text => .number (String.ofList (plainNumber text.toList))
  | .lineComment text => .lineComment (String.ofList (Text.trimEnd text.toList))
  | .blockComment text =>
    .blockComment (String.ofList (flushLines (Linebreak.lf.respell text.toList)))
  | token => token

def content (tokens : List Token) : List Token :=
  (tokens.filter (!·.isLayout)).map plain

/-- The tokens without the semicolons outside parentheses and square brackets. -/
def dropSemicolons (nesting : Nat) : List Token → List Token
  | [] => []
  | token :: rest =>
    if token = .separator .semicolon ∧ nesting = 0 then dropSemicolons nesting rest
    else token :: dropSemicolons (Rule.nestingAfter nesting token) rest

/-- Whether the first token that is neither a comma nor a comment closes a scope. -/
def meetsClosing (tokens : List Token) : Bool :=
  (tokens.dropWhile fun token => token == .separator .comma || token.isComment).head?.any isClosing

/-- The tokens without the commas from which a closing bracket is met. -/
def dropCommas : List Token → List Token
  | [] => []
  | token :: rest =>
    if token = .separator .comma ∧ meetsClosing rest = true then dropCommas rest
    else token :: dropCommas rest

/-- The tokens with the name of the empty type after an arrow written as an empty tuple. `arrow`
says that an arrow comes right before. -/
def spellOutVoid (arrow : Bool) : List Token → List Token
  | [] => []
  | token :: rest =>
    if arrow = true ∧ token = .identifier "Void" then
      .opening .round :: .closing .round :: spellOutVoid false rest
    else token :: spellOutVoid (token == .operator "->") rest

/-- Code and comments, without the separators that rules settle. -/
def core (nesting : Nat) (tokens : List Token) : List Token :=
  dropCommas (dropSemicolons nesting (content tokens))

end Essence

/-- What no rule may lose, add or reorder. -/
def essence (tokens : List Token) : List Token :=
  Essence.spellOutVoid false (Essence.core 0 tokens)

namespace Essence

open Token

theorem respell_terminator (ending : Linebreak) {c : Char} (h : c = '\r' ∨ c = '\n')
    (rest : List Char) :
    ∃ d more, ending.respell (c :: rest) = d :: more ∧ (d = '\r' ∨ d = '\n') := by
  have hc : ∀ rest, ∃ d more, ending.chars ++ rest = d :: more ∧ (d = '\r' ∨ d = '\n') := by
    intro rest
    cases ending with
    | cr => exact ⟨'\r', rest, rfl, .inl rfl⟩
    | lf => exact ⟨'\n', rest, rfl, .inr rfl⟩
    | crlf => exact ⟨'\r', '\n' :: rest, rfl, .inl rfl⟩
  rcases h with rfl | rfl
  · rw [Linebreak.respell_cr_cons]
    split
    · obtain ⟨following, rfl⟩ := List.head?_eq_some_iff.1 ‹_›
      rw [Linebreak.respell_lf_cons]
      exact hc _
    · exact hc _
  · rw [Linebreak.respell_lf_cons]
    exact hc _

theorem dropWhile_respell (ending : Linebreak) (text : List Char) :
    (ending.respell text).dropWhile Lexer.isSpace =
      ending.respell (text.dropWhile Lexer.isSpace) := by
  have hs : ∀ {c : Char}, c = '\r' ∨ c = '\n' → ¬Lexer.isSpace c = true := by
    rintro c (rfl | rfl) <;> decide
  induction text with
  | nil => rfl
  | cons c rest ih =>
      by_cases hc : c = '\r' ∨ c = '\n'
      · obtain ⟨d, more, hm, hd⟩ := respell_terminator ending hc rest
        rw [List.dropWhile_cons_of_neg (hs hc), hm, List.dropWhile_cons_of_neg (hs hd)]
      · rw [Linebreak.respell_cons_of_not hc]
        by_cases hs : Lexer.isSpace c = true
        · rw [List.dropWhile_cons_of_pos hs, List.dropWhile_cons_of_pos hs, ih]
        · rw [List.dropWhile_cons_of_neg hs, List.dropWhile_cons_of_neg hs,
            Linebreak.respell_cons_of_not hc]

theorem flushLines_dropWhile (text : List Char) :
    flushLines (text.dropWhile Lexer.isSpace) = (flushLines text).dropWhile Lexer.isSpace := by
  induction text with
  | nil => simp [flushLines]
  | cons c rest ih =>
      by_cases hs : Lexer.isSpace c = true
      · have hc : c ≠ '\n' := by
          rintro rfl
          exact absurd hs (by decide)
        rw [List.dropWhile_cons_of_pos hs, ih, flushLines, if_neg hc,
          List.dropWhile_cons_of_pos hs]
      · rw [List.dropWhile_cons_of_neg hs, flushLines]
        split <;> rw [List.dropWhile_cons_of_neg hs]

/-- Space behind a terminator is not part of the plain text of a comment. -/
theorem flushLines_respell_cons (rest : List Char) :
    flushLines ('\n' :: Linebreak.lf.respell rest) =
      '\n' :: flushLines (Linebreak.lf.respell (rest.dropWhile Lexer.isSpace)) := by
  rw [flushLines, if_pos rfl, dropWhile_respell .lf]

/-- The indentation of a comment's later lines is not part of its plain text. -/
theorem flushLines_reindentComment {indentation : List Char}
    (hi : ∀ c ∈ indentation, Lexer.isSpace c = true) (text : List Char) :
    flushLines (Linebreak.lf.respell (Rule.reindentComment indentation text)) =
      flushLines (Linebreak.lf.respell text) := by
  fun_induction Rule.reindentComment indentation text with
  | case1 => rfl
  | case2 c rest h ih =>
      obtain ⟨rfl, -⟩ := h
      have hd : (indentation ++ ' ' :: Rule.reindentComment indentation
          (rest.dropWhile Lexer.isSpace)).dropWhile Lexer.isSpace =
          (Rule.reindentComment indentation (rest.dropWhile Lexer.isSpace)).dropWhile
            Lexer.isSpace := by
        rw [List.dropWhile_append_of_pos hi, List.dropWhile_cons_of_pos (by decide)]
      have hl := flushLines_respell_cons (indentation ++ ' ' ::
        Rule.reindentComment indentation (rest.dropWhile Lexer.isSpace))
      rw [hd, ← dropWhile_respell, flushLines_dropWhile, ih, ← flushLines_dropWhile,
        dropWhile_respell, List.dropWhile_idempotent] at hl
      exact hl.trans (flushLines_respell_cons rest).symm
  | case3 c rest _ ih =>
      have hd : flushLines (Linebreak.lf.respell
          ((Rule.reindentComment indentation rest).dropWhile Lexer.isSpace)) =
          flushLines (Linebreak.lf.respell (rest.dropWhile Lexer.isSpace)) := by
        rw [← dropWhile_respell, flushLines_dropWhile, ih, ← flushLines_dropWhile,
          dropWhile_respell]
      by_cases hr : c = '\r'
      · subst hr
        rw [Linebreak.respell_cr_cons, Linebreak.respell_cr_cons, Rule.head?_reindentComment]
        split
        · exact ih
        · exact (flushLines_respell_cons _).trans (hd ▸ (flushLines_respell_cons rest).symm)
      · by_cases hn : c = '\n'
        · subst hn
          rw [Linebreak.respell_lf_cons, Linebreak.respell_lf_cons]
          exact (flushLines_respell_cons _).trans (hd ▸ (flushLines_respell_cons rest).symm)
        · have hc : ¬(c = '\r' ∨ c = '\n') := not_or.2 ⟨hr, hn⟩
          rw [Linebreak.respell_cons_of_not hc, Linebreak.respell_cons_of_not hc, flushLines,
            if_neg hn, flushLines, if_neg hn, ih]

theorem plain_respellToken (ending : Linebreak) {token : Token} (h : token.isLayout = false) :
    plain (Rule.respellToken ending token) = plain token := by
  cases token with
  | linebreak => cases h
  | blockComment text =>
      simp only [Rule.respellToken, plain, String.toList_ofList, Linebreak.respell_respell]
  | _ => rfl

theorem plain_reindentToken {indentation : List Char}
    (hi : ∀ c ∈ indentation, Lexer.isSpace c = true) (token : Token) :
    plain (Rule.reindentToken indentation token) = plain token := by
  cases token with
  | blockComment text =>
      simp only [Rule.reindentToken, plain, String.toList_ofList, flushLines_reindentComment hi]
  | _ => rfl

theorem plain_trimEnd (text : String) :
    plain (.lineComment (String.ofList (Text.trimEnd text.toList))) = plain (.lineComment text) := by
  simp only [plain, String.toList_ofList, Text.trimEnd, List.reverse_reverse,
    List.dropWhile_idempotent]

/-- Letter case of a hexadecimal number is not part of its plain text. -/
theorem plainNumber_recased {digits recased : List Char}
    (h : recased.map Char.toLower = digits.map Char.toLower) {x : Char} (hx : x = 'x' ∨ x = 'X') :
    plainNumber ('0' :: 'x' :: recased) = plainNumber ('0' :: x :: digits) := by
  rcases hx with rfl | rfl <;> simp [plainNumber, Rule.hexDigits?, h]

theorem toLower_toUpper_of_ascii {c : Char} (h : c.toNat < 0x80) :
    c.toUpper.toLower = c.toLower ∧ c.toLower.toLower = c.toLower :=
  Text.of_ascii h (by decide)

/-- Recasing digits is not seen where letter case is not. -/
theorem map_toLower_recase (options : Options) {digits : List Char}
    (h : ∀ c ∈ digits, c.toNat < 0x80) :
    (Rule.recase options digits).map Char.toLower = digits.map Char.toLower := by
  unfold Rule.recase
  split
  · rw [Text.upper_of_ascii h, List.map_map]
    exact List.map_congr_left fun c hm => (toLower_toUpper_of_ascii (h c hm)).1
  · rw [Text.lower, Text.lowerAfter_of_ascii h, List.map_map]
    exact List.map_congr_left fun c hm => (toLower_toUpper_of_ascii (h c hm)).2

theorem plain_recaseHex (options : Options) {token : Token}
    (h : ∀ text, token = .number text → ∀ c ∈ text.toList, c.toNat < 0x80) :
    plain (Rule.recaseHex options token) = plain token := by
  rcases Rule.recaseHex_cases options token with he | ⟨x, digits, hx, rfl, he⟩
  · rw [he]
  · have hc : ∀ c ∈ digits, c.toNat < 0x80 := fun c hm => h _ rfl c (by simp [hm])
    rw [he, plain, plain, String.toList_ofList, String.toList_ofList,
      plainNumber_recased (map_toLower_recase options hc) hx]

@[simp] theorem content_nil : content [] = [] := rfl

theorem content_cons (token : Token) (tokens : List Token) :
    content (token :: tokens) =
      if token.isLayout = true then content tokens else plain token :: content tokens := by
  unfold content
  rw [List.filter_cons]
  cases token.isLayout <;> rfl

@[simp] theorem content_append (first second : List Token) :
    content (first ++ second) = content first ++ content second := by
  simp [content]

theorem content_layout {gap : List Token} (h : ∀ token ∈ gap, token.isLayout = true) :
    content gap = [] := by
  unfold content
  rw [List.filter_eq_nil_iff.2 fun token hm => by simp [h token hm], List.map_nil]

theorem content_skipSpace (tokens : List Token) : content (skipSpace tokens) = content tokens := by
  have h := content_append (tokens.takeWhile isWhitespace) (skipSpace tokens)
  rwa [takeWhile_append_skipSpace, content_layout isLayout_of_mem_takeWhile_isWhitespace,
    List.nil_append, eq_comm] at h

def contentWatch : Watch (List Token) where
  accepts expected token := token.isLayout = true ∨ expected.head? = some (plain token)
  next expected token := if token.isLayout = true then expected else expected.tail
  final expected := expected = []

theorem passes_contentWatch {expected tokens : List Token} :
    contentWatch.Passes expected tokens ↔ content tokens = expected := by
  induction tokens generalizing expected with
  | nil => exact eq_comm
  | cons token tokens ih =>
      rw [Watch.Passes, content_cons, ih, contentWatch]
      cases hl : token.isLayout with
      | true => simp [hl]
      | false =>
          cases expected with
          | nil => simp [hl]
          | cons first expected =>
              simp only [hl, Bool.false_eq_true, if_false, false_or, List.head?_cons,
                Option.some.injEq, List.tail_cons, List.cons.injEq]
              exact and_congr_left' eq_comm

theorem content_eq_of_passes {first second : List Token}
    (h : contentWatch.Passes (content first) first → contentWatch.Passes (content first) second) :
    content second = content first :=
  passes_contentWatch.1 (h (passes_contentWatch.2 rfl))

theorem contentWatch_ignores (expected : List Token) : contentWatch.Ignores isLayout expected :=
  fun _ h => ⟨.inl h, if_pos h⟩

theorem contentWatch_steady : contentWatch.Steady := fun _ _ => contentWatch_ignores _

theorem contentWatch_blind {respell : Token → Token}
    (hl : ∀ token, (respell token).isLayout = token.isLayout)
    (hp : ∀ token, token.isLayout = false → plain (respell token) = plain token) :
    contentWatch.Blind respell := by
  intro expected token
  simp only [contentWatch, hl]
  cases h : token.isLayout with
  | true => simp
  | false => simp [hp token h]

theorem contentWatch_lined (options : Options) : contentWatch.Lined options where
  closes ht _ hf := by
    rwa [(contentWatch_ignores _ _ ht).2] at hf
  ends _ _ := by
    refine ⟨.inl rfl, ?_⟩
    rw [(contentWatch_ignores _ (.whitespace _) rfl).2]
  rests expected _ := (contentWatch_ignores _).whitespace
  reindents level := contentWatch_blind (Rule.isLayout_reindentToken _)
    fun token _ => plain_reindentToken Rule.isSpace_of_mem_levels token
  trims expected text := by
    simp only [contentWatch, plain_trimEnd]
    exact ⟨Iff.rfl, rfl⟩

theorem contentWatch_wraps : contentWatch.Wraps := by
  intro expected header gap _ hg
  obtain ⟨hr, hn⟩ := (contentWatch_ignores (contentWatch.next expected header)).reads hg
  rw [hn]
  exact ⟨hr, Iff.rfl, rfl⟩

end Essence
end SourceStyle
