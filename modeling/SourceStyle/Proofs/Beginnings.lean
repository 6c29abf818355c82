import SourceStyle.Proofs.Scanning

/-!
What stands at the beginning of a text that is read. A step reads a token of one of few shapes, and
each shape tells how the text of its token begins.
-/

namespace SourceStyle.Lexer

/-- What a step reads from a character and those after it, shape by shape. -/
inductive Reads (c : Char) (rest : List Char) : Step → Prop
  | space : isSpace c = true →
      Reads c rest
        { token := .whitespace (String.ofList (c :: rest.takeWhile isSpace))
          rest := rest.dropWhile isSpace }
  | linebreak {ending : Linebreak} {after : List Char} : ending.chars ++ after = c :: rest →
      (ending = .cr → after.head? ≠ some '\n') →
      Reads c rest { token := .linebreak ending, rest := after, lines := 1 }
  | lineComment {more : List Char} : c :: rest = '/' :: '/' :: more →
      Reads c rest
        { token := .lineComment (String.ofList ('/' :: '/' :: more.takeWhile (!isLineEnd ·)))
          rest := more.dropWhile (!isLineEnd ·) }
  | blockComment {more : List Char} {lexeme : Lexeme} : c :: rest = '/' :: '*' :: more →
      blockComment? 0 more = some lexeme →
      Reads c rest
        { token := .blockComment (String.ofList ('/' :: '*' :: lexeme.chars))
          rest := lexeme.rest
          lines := lexeme.lines }
  | multiline {more : List Char} {lexeme : Lexeme} : c :: rest = '"' :: '"' :: '"' :: more →
      multilineString? more = some lexeme →
      Reads c rest
        { token := .stringLiteral (String.ofList ('"' :: '"' :: '"' :: lexeme.chars))
          rest := lexeme.rest
          lines := lexeme.lines }
  | quoted {lexeme : Lexeme} : c = '"' → quotedString (.text []) rest = .ok lexeme →
      Reads c rest
        { token := .stringLiteral (String.ofList ('"' :: lexeme.chars)), rest := lexeme.rest }
  | escaped {after : List Char} : c = '\x60' → rest.dropWhile isEscapedChar = '\x60' :: after →
      Reads c rest
        { token := .identifier
            (String.ofList ('\x60' :: (rest.takeWhile isEscapedChar ++ ['\x60'])))
          rest := after }
  | number : c.isDigit = true →
      Reads c rest
        { token := .number (String.ofList (c :: (numberTail rest).1)), rest := (numberTail rest).2 }
  | name : isIdentifierHead c = true →
      Reads c rest
        { token := .identifier (String.ofList (c :: rest.takeWhile isIdentifierTail))
          rest := rest.dropWhile isIdentifierTail }
  | sign : isOperatorChar c = true →
      Reads c rest
        { token := .operator (String.ofList (c :: (operatorTail rest).1))
          rest := (operatorTail rest).2 }
  | opening {bracket : Bracket} : c = bracket.openChar →
      Reads c rest { token := .opening bracket, rest }
  | closing {bracket : Bracket} : c = bracket.closeChar →
      Reads c rest { token := .closing bracket, rest }
  | separator {mark : Separator} : c = mark.char →
      Reads c rest { token := .separator mark, rest }
  | other : isOperatorChar c = false → isSpace c = false → isLineEnd c = false →
      Reads c rest { token := .operator c.toString, rest }

theorem reads_carriageReturn (rest : List Char) : Reads '\r' rest (carriageReturn rest) := by
  unfold carriageReturn
  split
  · exact .linebreak rfl nofun
  · rename_i hn
    refine .linebreak rfl fun _ hh => ?_
    obtain ⟨following, he⟩ := List.head?_eq_some_iff.1 hh
    exact hn following he

theorem reads_of_afterSlash {rest : List Char} {step : Step} (h : afterSlash rest = .ok step) :
    Reads '/' rest step := by
  unfold afterSlash at h
  split at h
  · cases h
    exact .lineComment rfl
  · split at h
    · cases h
      exact .blockComment rfl ‹_›
    · cases h
  · cases h
    exact .sign rfl

theorem reads_of_afterQuote {rest : List Char} {step : Step} (h : afterQuote rest = .ok step) :
    Reads '"' rest step := by
  unfold afterQuote at h
  split at h
  · split at h
    · cases h
      exact .multiline rfl ‹_›
    · cases h
  · split at h
    · cases h
      exact .quoted rfl ‹_›
    · cases h

theorem reads_of_afterBackquote {rest : List Char} {step : Step}
    (h : afterBackquote rest = .ok step) : Reads '\x60' rest step := by
  unfold afterBackquote at h
  split at h
  · cases h
    exact .escaped rfl ‹_›
  · cases h

theorem reads_of_punctuation? {c : Char} {token : Token} (h : punctuation? c = some token)
    (rest : List Char) : Reads c rest { token, rest } := by
  unfold punctuation? at h
  split at h
  case h_1 | h_2 | h_3 =>
      cases h
      exact .opening rfl
  case h_4 | h_5 | h_6 =>
      cases h
      exact .closing rfl
  case h_7 | h_8 | h_9 =>
      cases h
      exact .separator rfl
  case h_10 => cases h

theorem reads_of_next {c : Char} {rest : List Char} {step : Step} (h : next c rest = .ok step) :
    Reads c rest step := by
  cases dispatch c with
  | space hs hd =>
      rw [hd] at h
      cases h
      exact .space hs
  | lineFeed hs hd =>
      rw [hd] at h
      cases h
      exact .linebreak (by rw [hs]; rfl) nofun
  | carriageReturn hs hd =>
      subst hs
      rw [hd] at h
      cases h
      exact reads_carriageReturn rest
  | slash hs hd =>
      subst hs
      exact reads_of_afterSlash ((hd rest).symm.trans h)
  | quote hs hd =>
      subst hs
      exact reads_of_afterQuote ((hd rest).symm.trans h)
  | backquote hs hd =>
      subst hs
      exact reads_of_afterBackquote ((hd rest).symm.trans h)
  | digit hs hd =>
      rw [hd] at h
      cases h
      exact .number hs
  | name hs _ hd =>
      rw [hd] at h
      cases h
      exact .name hs
  | sign hs _ hd =>
      rw [hd] at h
      cases h
      exact .sign hs
  | punctuation hs hd =>
      rw [hd] at h
      cases h
      exact reads_of_punctuation? hs rest
  | other ho hs hl hd =>
      rw [hd] at h
      cases h
      exact .other ho hs hl

def Begins : Token → List Char → Prop
  | .whitespace _, text => text ≠ [] ∧ ∀ c ∈ text, isSpace c = true
  | .identifier _, text => ∃ c more, text = c :: more ∧ (c = '\x60' ∨ isIdentifierHead c = true)
  | .number _, text => ∃ c more, text = c :: more ∧ c.isDigit = true
  | .stringLiteral _, text => ∃ more, text = '"' :: more
  | .operator _, text => ∃ c more, text = c :: more ∧
      ((∀ d ∈ text, isOperatorChar d = true) ∨
        more = [] ∧ isOperatorChar c = false ∧ isSpace c = false ∧ isLineEnd c = false)
  | .lineComment _, text => ∃ more, text = '/' :: '/' :: more ∧ ∀ c ∈ more, isLineEnd c = false
  | .blockComment _, text => ∃ more, text = '/' :: '*' :: more
  | _, _ => True

/-- No operator character begins another word or is layout. -/
theorem isOperatorChar_disjoint {c : Char} (h : isOperatorChar c = true) :
    c.isDigit = false ∧ c ≠ '"' ∧ c ≠ '\x60' ∧ isIdentifierHead c = false ∧ isSpace c = false ∧
      isLineEnd c = false := by
  simp only [isOperatorChar, operatorChars, List.contains_eq_mem, List.mem_cons, List.not_mem_nil,
    or_false, decide_eq_true_eq] at h
  rcases h with rfl | rfl | rfl | rfl | rfl | rfl | rfl | rfl | rfl | rfl | rfl | rfl | rfl | rfl |
    rfl <;> decide

theorem isOperatorChar_of_head {c : Char} (h : c = '\x60' ∨ isIdentifierHead c = true) :
    isOperatorChar c = false := by
  refine Bool.eq_false_iff.2 fun hc => ?_
  obtain ⟨-, -, hb, hi, -⟩ := isOperatorChar_disjoint hc
  rcases h with h | h
  · exact hb h
  · exact absurd h (by simp [hi])

theorem isOperatorChar_of_isDigit {c : Char} (h : c.isDigit = true) : isOperatorChar c = false := by
  refine Bool.eq_false_iff.2 fun hc => ?_
  rw [(isOperatorChar_disjoint hc).1] at h
  cases h

theorem isOperatorChar_of_mem_operatorTail {rest : List Char} :
    ∀ c ∈ (operatorTail rest).1, isOperatorChar c = true := by
  fun_induction operatorTail rest with
  | case1 => simp
  | case2 => simp
  | case3 c rest hc _ ih =>
      simp only [Bool.or_eq_true, Bool.not_eq_true', not_or, Bool.not_eq_false] at hc
      exact List.forall_mem_cons.2 ⟨hc.1, ih⟩

theorem begins_ne_nil {token : Token} (h : Begins token token.chars) : token.chars ≠ [] := by
  cases token with
  | whitespace => exact h.1
  | linebreak ending => cases ending <;> simp [Linebreak.chars]
  | identifier | number | operator =>
      obtain ⟨c, more, hc, -⟩ := h
      rw [hc]
      exact List.cons_ne_nil _ _
  | stringLiteral | blockComment =>
      obtain ⟨more, hc⟩ := h
      rw [hc]
      exact List.cons_ne_nil _ _
  | lineComment =>
      obtain ⟨more, hc, -⟩ := h
      rw [hc]
      exact List.cons_ne_nil _ _
  | _ => simp

theorem isLayout_of_head {token : Token} (h : Begins token token.chars) {c : Char}
    (hc : token.chars.head? = some c) (hl : isSpace c = true ∨ isLineEnd c = true) :
    token.isLayout = true := by
  have hd : c = ' ' ∨ c = '\t' ∨ c = '\n' ∨ c = '\r' := by
    simpa [isSpace, isLineEnd, or_assoc] using hl
  cases token with
  | whitespace | linebreak => rfl
  | identifier =>
      obtain ⟨d, more, hm, hi⟩ := h
      rw [hm] at hc
      cases hc
      rcases hd with rfl | rfl | rfl | rfl <;> exact absurd hi (by decide)
  | number =>
      obtain ⟨d, more, hm, hi⟩ := h
      rw [hm] at hc
      cases hc
      rcases hd with rfl | rfl | rfl | rfl <;> cases hi
  | operator =>
      obtain ⟨d, more, hm, hi⟩ := h
      rw [hm] at hc hi
      cases hc
      rcases hi with hi | ⟨-, -, hs, hi⟩
      · have ho := hi c List.mem_cons_self
        simp [(isOperatorChar_disjoint ho).2.2.2.2] at hl
      · simp [hs, hi] at hl
  | stringLiteral | blockComment =>
      obtain ⟨more, hm⟩ := h
      rw [hm] at hc
      cases hc
      simp [isSpace, isLineEnd] at hl
  | lineComment =>
      obtain ⟨more, hm, -⟩ := h
      rw [hm] at hc
      cases hc
      simp [isSpace, isLineEnd] at hl
  | opening bracket =>
      cases bracket <;> simp [Bracket.openChar] at hc <;> subst hc <;> simp at hd
  | closing bracket =>
      cases bracket <;> simp [Bracket.closeChar] at hc <;> subst hc <;> simp at hd
  | separator mark =>
      cases mark <;> simp [Separator.char] at hc <;> subst hc <;> simp at hd

theorem isLinebreak_of_isLineEnd {token : Token} (h : Begins token token.chars) {c : Char}
    (hc : token.chars.head? = some c) (hl : isLineEnd c = true) : token.isLinebreak = true := by
  have hk := isLayout_of_head h hc (.inr hl)
  cases token with
  | whitespace =>
      have hs := h.2 c (List.mem_of_mem_head? hc)
      have hd : c = ' ' ∨ c = '\t' := by simpa [isSpace] using hs
      rcases hd with rfl | rfl <;> cases hl
  | linebreak => rfl
  | _ => cases hk

theorem isWhitespace_of_isSpace {token : Token} (h : Begins token token.chars) {c : Char}
    (hc : token.chars.head? = some c) (hs : isSpace c = true) : token.isWhitespace = true := by
  have hk := isLayout_of_head h hc (.inl hs)
  cases token with
  | whitespace => rfl
  | linebreak ending =>
      cases ending <;> simp [Linebreak.chars] at hc <;> subst hc <;> cases hs
  | _ => cases hk

theorem head?_of_isComment {token : Token} (h : Begins token token.chars)
    (hk : token.isComment = true) : token.chars.head? = some '/' := by
  cases token with
  | lineComment =>
      obtain ⟨more, hm, -⟩ := h
      rw [hm]
      rfl
  | blockComment =>
      obtain ⟨more, hm⟩ := h
      rw [hm]
      rfl
  | _ => cases hk

/-- An operator that ends in a slash is made of operator characters. -/
theorem isOperatorChar_of_getLast {text : String}
    (h : Begins (.operator text) (Token.operator text).chars)
    (hd : text.toList.getLast? = some '/') : text.toList.head?.any isOperatorChar = true := by
  obtain ⟨c, more, hc, hi⟩ := h
  have hc : text.toList = c :: more := hc
  rw [hc] at hd ⊢
  rcases hi with hi | ⟨rfl, hi, -⟩
  · exact hi c (by rw [Token.chars, Token.text, hc]; exact List.mem_cons_self)
  · cases hd
    cases hi

theorem operatorTail_comment {token : Token} (h : Begins token token.chars)
    (hk : token.isComment = true) (after : List Char) :
    (operatorTail (token.chars ++ after)).1 = [] := by
  cases token with
  | lineComment =>
      obtain ⟨more, hm, -⟩ := h
      rw [hm]
      rfl
  | blockComment =>
      obtain ⟨more, hm⟩ := h
      rw [hm]
      rfl
  | _ => cases hk

theorem begins_of_next {c : Char} {rest : List Char} {step : Step} (h : next c rest = .ok step) :
    Begins step.token step.token.chars := by
  cases reads_of_next h with
  | space hs =>
      rw [Token.chars, Token.text, String.toList_ofList]
      exact ⟨List.cons_ne_nil _ _, List.forall_mem_cons.2 ⟨hs, fun d hm => List.mem_takeWhile_imp hm⟩⟩
  | lineComment =>
      refine ⟨_, String.toList_ofList, fun d hm => ?_⟩
      simpa using List.mem_takeWhile_imp hm
  | blockComment | multiline | quoted => exact ⟨_, String.toList_ofList⟩
  | escaped => exact ⟨_, _, String.toList_ofList, .inl rfl⟩
  | number hs => exact ⟨c, _, String.toList_ofList, hs⟩
  | name hs => exact ⟨c, _, String.toList_ofList, .inr hs⟩
  | sign hs =>
      refine ⟨c, _, String.toList_ofList, .inl ?_⟩
      rw [Token.chars, Token.text, String.toList_ofList, List.forall_mem_cons]
      exact ⟨hs, isOperatorChar_of_mem_operatorTail⟩
  | other ho hs hl => exact ⟨c, [], by simp [Token.chars, Token.text], .inr ⟨rfl, ho, hs, hl⟩⟩
  | linebreak | opening | closing | separator => trivial

theorem Scans.begins {token : Token} {after : List Char} (h : Scans token after) :
    Begins token token.chars := by
  obtain ⟨c, more, lines, -, hn⟩ := h
  exact begins_of_next hn

theorem Lexes.scans {source : List Char} {before after : List Token} {token : Token}
    (h : Lexes source (before ++ token :: after)) : Scans token (Token.renderChars after) := by
  induction before generalizing source with
  | nil =>
      cases h with
      | @cons c rest step tokens hs ht =>
          obtain ⟨more, hc, hr⟩ := next_takes hs
          rw [ht.renderChars]
          exact ⟨c, more, step.lines, hc, by rw [hr]; exact hs⟩
  | cons other before ih =>
      cases h with
      | cons _ ht => exact ih ht

end SourceStyle.Lexer
