import Mathlib
import SourceStyle.Proofs.Repetition.Spelling
import SourceStyle.Proofs.Respelling
import SourceStyle.Proofs.Scanning

/-!
Indentation and the spelling of line terminators. Lines are indented alike, whatever ends them, but
the lines of a comment are found by their line feeds: where carriage returns end them, they stay as
they are.
-/

namespace SourceStyle

namespace Token

/-- Comments that may go over several lines. -/
def isBlockComment : Token → Bool
  | blockComment _ => true
  | _ => false

def blockComments (tokens : List Token) : List Token :=
  tokens.filter isBlockComment

@[simp] theorem blockComments_append (first second : List Token) :
    blockComments (first ++ second) = blockComments first ++ blockComments second :=
  List.filter_append ..

theorem blockComments_cons (text : String) (tokens : List Token) :
    blockComments (.blockComment text :: tokens) = .blockComment text :: blockComments tokens :=
  rfl

theorem blockComments_eq_nil {tokens : List Token} (h : ∀ token ∈ tokens, token.isWhitespace = true) :
    blockComments tokens = [] := by
  refine List.filter_eq_nil_iff.2 fun token hm => ?_
  have hw := h token hm
  cases token <;> first | exact Bool.false_ne_true | cases hw

theorem blockComments_cons_congr (token : Token) {first second : List Token}
    (h : blockComments first = blockComments second) :
    blockComments (token :: first) = blockComments (token :: second) := by
  rw [← List.singleton_append, blockComments_append, h, ← blockComments_append, List.singleton_append]

end Token

namespace Rule

open Token

theorem isBlockComment_respellToken (ending : Linebreak) (token : Token) :
    (respellToken ending token).isBlockComment = token.isBlockComment := by
  cases token <;> rfl

theorem blockComments_map (ending : Linebreak) (tokens : List Token) :
    blockComments (tokens.map (respellToken ending)) =
      (blockComments tokens).map (respellToken ending) := by
  rw [blockComments, List.filter_map, blockComments]
  exact congrArg _ (List.filter_congr fun token _ => isBlockComment_respellToken ending token)

/-! ### What indentation sees of a line -/

/-- Tokens that indentation takes for the same: terminators and block comments may be spelled in
other ways. -/
inductive Alike : Token → Token → Prop
  | same (token : Token) : Alike token token
  | linebreak (first second : Linebreak) : Alike (.linebreak first) (.linebreak second)
  | blockComment (first second : String) : Alike (.blockComment first) (.blockComment second)

theorem alike_respellToken (ending : Linebreak) (token : Token) :
    Alike token (respellToken ending token) := by
  cases token with
  | linebreak first => exact .linebreak first ending
  | blockComment text => exact .blockComment text _
  | _ => exact .same _

theorem alike_reindentToken (indentation : List Char) (token : Token) :
    Alike token (reindentToken indentation token) := by
  cases token with
  | blockComment text => exact .blockComment text _
  | _ => exact .same _

section
variable {first second : Token} (h : Alike first second)
include h

theorem Alike.isWhitespace_eq : second.isWhitespace = first.isWhitespace := by
  cases h <;> rfl

theorem Alike.isClosing_eq : second.isClosing = first.isClosing := by
  cases h <;> rfl

theorem Alike.isComment_eq : second.isComment = first.isComment := by
  cases h <;> rfl

theorem Alike.isLinebreak_eq : second.isLinebreak = first.isLinebreak := by
  cases h <;> rfl

theorem Alike.directive?_eq : directive? second = directive? first := by
  cases h <;> rfl

theorem Alike.after_eq (state : IndentState) : state.after second = state.after first := by
  cases h <;> rfl

end

theorem Alike.eq_whitespace {text : String} {token : Token} (h : Alike (.whitespace text) token) :
    token = .whitespace text := by
  cases h
  rfl

theorem lineContent_of_not {token : Token} (h : token.isWhitespace = false) (line : List Token) :
    lineContent (token :: line) = token :: line := by
  cases token with
  | whitespace => cases h
  | _ => rfl

section
variable {respell : Token → Token} (hr : ∀ token, Alike token (respell token))
include hr

theorem lineContent_map (line : List Token) :
    lineContent (line.map respell) = (lineContent line).map respell := by
  cases line with
  | nil => rfl
  | cons token line =>
      cases hw : token.isWhitespace with
      | true =>
          cases token with
          | whitespace text =>
              rw [List.map_cons, (hr (.whitespace text)).eq_whitespace]
              rfl
          | _ => cases hw
      | false =>
          rw [lineContent_of_not hw, List.map_cons,
            lineContent_of_not ((hr token).isWhitespace_eq.trans hw)]

theorem lineLead_map (line : List Token) : lineLead (line.map respell) = lineLead line := by
  cases line with
  | nil => rfl
  | cons token line =>
      rw [List.map_cons]
      have ht := hr token
      generalize respell token = other at ht
      cases ht with
      | same => cases token <;> rfl
      | linebreak | blockComment => rfl

theorem bind_directive?_map (line : List Token) :
    (line.map respell).head?.bind directive? = line.head?.bind directive? := by
  cases line with
  | nil => rfl
  | cons token line => exact (hr token).directive?_eq

theorem leadingClosers_map (line : List Token) :
    leadingClosers (line.map respell) = leadingClosers line := by
  have hw : (fun token : Token => !token.isWhitespace) ∘ respell =
      fun token => !token.isWhitespace := by
    funext token
    rw [Function.comp_apply, (hr token).isWhitespace_eq]
  have hc : isClosing ∘ respell = isClosing := by
    funext token
    exact (hr token).isClosing_eq
  rw [leadingClosers, List.filter_map, hw, List.takeWhile_map, hc, List.length_map, leadingClosers]

theorem startsCase_map (line : List Token) : startsCase (line.map respell) = startsCase line := by
  have hw : isWhitespace ∘ respell = isWhitespace := by
    funext token
    exact (hr token).isWhitespace_eq
  have hc (rest : List Token) :
      ((skipSpace (rest.map respell)).head? == some (.separator .colon)) =
        ((skipSpace rest).head? == some (.separator .colon)) := by
    rw [skipSpace, List.dropWhile_map, hw, ← skipSpace]
    cases skipSpace rest with
    | nil => rfl
    | cons token rest =>
        rw [List.map_cons]
        have ht := hr token
        generalize respell token = other at ht
        cases ht <;> rfl
  cases line with
  | nil => rfl
  | cons token rest =>
      rw [List.map_cons]
      have ht := hr token
      generalize respell token = other at ht
      cases ht with
      | same =>
          cases token with
          | identifier name => simp only [startsCase, hc]
          | _ => rfl
      | linebreak | blockComment => rfl

theorem lineLevel_map (options : Options) (scopes : List OpenScope) (line : List Token) :
    lineLevel options scopes (line.map respell) = lineLevel options scopes line := by
  simp only [lineLevel, bind_directive?_map hr, codeLevel, leadingClosers_map hr, startsCase_map hr]

theorem afterLine_map (options : Options) (state : IndentState) (line : List Token) :
    state.afterLine options (line.map respell) = state.afterLine options line := by
  have hs : (fun state token => IndentState.after state (respell token)) = IndentState.after := by
    funext state token
    exact (hr token).after_eq state
  simp only [IndentState.afterLine, IndentState.afterDirective, lineContent_map hr,
    bind_directive?_map hr, List.foldl_map, hs]

end

/-! ### Lines indented side by side -/

section
variable {options : Options} {tokens rest : List Token}

theorem indentFrom_nil (options : Options) (state : IndentState) :
    indentFrom options state [] = [] := by
  rw [indentFrom]
  rfl

theorem indentFrom_last (state : IndentState) (hn : tokens ≠ [])
    (h : tokens.dropWhile (fun token => !token.isLinebreak) = []) :
    indentFrom options state tokens =
      indentLine options state (tokens.takeWhile fun token => !token.isLinebreak) := by
  rw [indentFrom, if_neg (by rwa [List.isEmpty_iff])]
  split
  · rfl
  · rename_i hc
    rw [h] at hc
    cases hc

theorem indentFrom_line (state : IndentState) {ends : Token}
    (h : tokens.dropWhile (fun token => !token.isLinebreak) = ends :: rest) :
    indentFrom options state tokens =
      indentLine options state (tokens.takeWhile fun token => !token.isLinebreak) ++
        ends :: indentFrom options
          (state.afterLine options (tokens.takeWhile fun token => !token.isLinebreak)) rest := by
  have hn : tokens ≠ [] := by
    rintro rfl
    cases h
  rw [indentFrom, if_neg (by rwa [List.isEmpty_iff])]
  split
  · rename_i hc
    rw [h] at hc
    cases hc
  · rename_i hc
    rw [h] at hc
    cases hc
    rfl

end

section
variable {ending : Linebreak} {R : Token → Token → Prop} {options : Options}
  (hs : ∀ text, R (.whitespace text) (.whitespace text))
include hs

theorem forall₂_whitespace {lead : List Token} (h : ∀ token ∈ lead, token.isWhitespace = true) :
    List.Forall₂ R lead lead := by
  refine List.forall₂_same.2 fun token hm => ?_
  have hw := h token hm
  cases token with
  | whitespace text => exact hs text
  | _ => cases hw

/-- Indented lines are related if their tokens are, as they are and indented. -/
theorem forall₂_indentLine (state : IndentState) {line : List Token}
    (hk : ∀ token ∈ line, R token (respellToken ending token))
    (hi : ∀ level, ∀ token ∈ line, R (reindentToken (levels options level) token)
      (reindentToken (levels options level) (respellToken ending token))) :
    List.Forall₂ R (indentLine options state line)
      (indentLine { options with linebreak := ending } state (line.map (respellToken ending))) := by
  have hm : ∀ token ∈ lineContent line, token ∈ line := by
    intro token ht
    rw [← lineLead_append_lineContent line]
    exact List.mem_append_right _ ht
  have hr : ∀ token, Alike token (respellToken ending token) := alike_respellToken ending
  have hl (scopes : List OpenScope) (line : List Token) :
      lineLevel { options with linebreak := ending } scopes line = lineLevel options scopes line :=
    rfl
  simp only [indentLine, hl, lineContent_map hr, lineLead_map hr, lineLevel_map hr, List.isEmpty_map,
    any_head?_map isComment_respellToken]
  refine List.rel_append (forall₂_whitespace hs ?_) ?_
  · split
    · exact isWhitespace_of_mem_lineLead
    · split
      · simp
      · exact isWhitespace_of_mem_indentationTokens
  · split
    · rw [List.map_map, List.forall₂_map_left_iff, List.forall₂_map_right_iff, List.forall₂_same]
      exact fun token ht => hi _ token (hm token ht)
    · rw [List.forall₂_map_right_iff, List.forall₂_same]
      exact fun token ht => hk token (hm token ht)

theorem forall₂_indentFrom (state : IndentState) {tokens : List Token}
    (hk : ∀ token ∈ tokens, R token (respellToken ending token))
    (hi : ∀ level, ∀ token ∈ tokens, R (reindentToken (levels options level) token)
      (reindentToken (levels options level) (respellToken ending token))) :
    List.Forall₂ R (indentFrom options state tokens)
      (indentFrom { options with linebreak := ending } state (tokens.map (respellToken ending))) := by
  let goesOn (token : Token) : Bool := !token.isLinebreak
  have hg (token : Token) : goesOn (respellToken ending token) = goesOn token :=
    congrArg (! ·) (isLinebreak_respellToken token)
  have hline (state : IndentState) {tokens : List Token}
      (hk : ∀ token ∈ tokens, R token (respellToken ending token))
      (hi : ∀ level, ∀ token ∈ tokens, R (reindentToken (levels options level) token)
        (reindentToken (levels options level) (respellToken ending token))) :
      List.Forall₂ R (indentLine options state (tokens.takeWhile goesOn))
        (indentLine { options with linebreak := ending } state
          ((tokens.map (respellToken ending)).takeWhile goesOn)) := by
    rw [takeWhile_map_respellToken hg]
    exact forall₂_indentLine hs state (forall_mem_of_takeWhile hk)
      fun level => forall_mem_of_takeWhile (hi level)
  fun_induction indentFrom options state tokens with
  | case1 state tokens he =>
      rw [List.isEmpty_iff.1 he, List.map_nil, indentFrom_nil]
      exact .nil
  | case2 state tokens he line hd =>
      have hd' := dropWhile_map_respellToken hg tokens
      rw [hd, List.map_nil] at hd'
      rw [indentFrom_last state (fun hn => he (List.isEmpty_iff.2 (List.map_eq_nil_iff.1 hn))) hd']
      exact hline state hk hi
  | case3 state tokens he line ends rest hd _ ih =>
      have hd' := dropWhile_map_respellToken hg tokens
      rw [hd, List.map_cons] at hd'
      have hsub : ∀ token ∈ ends :: rest, token ∈ tokens := by
        intro token hm
        rw [← hd] at hm
        exact (List.dropWhile_sublist _).subset hm
      have hrest : ∀ token ∈ rest, token ∈ tokens := fun token hm =>
        hsub token (List.mem_cons_of_mem ends hm)
      have ha : state.afterLine { options with linebreak := ending }
          ((tokens.map (respellToken ending)).takeWhile fun token => !token.isLinebreak) =
            state.afterLine options line := by
        rw [takeWhile_map_respellToken hg]
        exact afterLine_map (alike_respellToken ending) options state line
      rw [indentFrom_line state hd', ha]
      refine List.rel_append (hline state hk hi) (.cons (hk ends (hsub ends List.mem_cons_self)) ?_)
      exact ih (fun token hm => hk token (hrest token hm))
        fun level token hm => hi level token (hrest token hm)

end

/-! ### Comments whose lines end in carriage returns -/

theorem reindentToken_respellToken {ending : Linebreak} (he : ending ≠ .cr) {options : Options}
    (level : Nat) {token : Token} (h : respellToken .lf token = token) :
    reindentToken (levels options level) (respellToken ending token) =
      respellToken ending (reindentToken (levels options level) token) := by
  cases token with
  | blockComment text =>
      have hr : '\r' ∉ text.toList := by
        rw [← Token.blockComment.inj h, String.toList_ofList]
        exact fun hm => absurd (Linebreak.mem_respell hm) (by decide)
      simp only [respellToken, reindentToken, String.toList_ofList,
        reindentComment_respell he isSpace_of_mem_levels hr]
  | _ => rfl

/-- Carriage returns end no lines of comments that are indented. -/
theorem reindentToken_respellToken_cr (indentation : List Char) (token : Token) :
    reindentToken indentation (respellToken .cr token) = respellToken .cr token := by
  cases token with
  | blockComment text =>
      have hn : '\n' ∉ Linebreak.cr.respell text.toList := fun hm =>
        absurd (Linebreak.mem_respell hm) (by decide)
      simp only [respellToken, reindentToken, String.toList_ofList, reindentComment_eq_self hn]
  | _ => rfl

/-- Unless carriage returns end lines, indentation goes with respelling. -/
theorem indentation_map {ending : Linebreak} (he : ending ≠ .cr) (options : Options)
    {tokens : List Token} (h : ∀ token ∈ tokens, respellToken .lf token = token) :
    indentation { options with linebreak := ending } (tokens.map (respellToken ending)) =
      (indentation options tokens).map (respellToken ending) := by
  have hf : List.Forall₂ (fun first second => respellToken ending first = second)
      (indentation options tokens)
      (indentation { options with linebreak := ending } (tokens.map (respellToken ending))) :=
    forall₂_indentFrom (R := fun first second => respellToken ending first = second)
      (fun text => rfl) {} (fun token _ => rfl)
      fun level token hm => (reindentToken_respellToken he level (h token hm)).symm
  rw [← List.forall₂_map_left_iff, List.forall₂_eq_eq_eq] at hf
  exact hf.symm

/-- A token of lines that end in line feeds, its comment perhaps indented, and the token of lines
that end in carriage returns, where no comment is indented. -/
inductive Twin (options : Options) : Token → Token → Prop where
  | same (token : Token) (h : respellToken .lf token = token) :
      Twin options token (respellToken .cr token)
  | indented (level : Nat) {text : String} (h : Linebreak.lf.respell text.toList = text.toList) :
      Twin options
        (.blockComment (String.ofList (reindentComment (levels options level) text.toList)))
        (.blockComment (String.ofList (Linebreak.cr.respell text.toList)))

theorem forall₂_indentation (options : Options) {tokens : List Token}
    (h : ∀ token ∈ tokens, respellToken .lf token = token) :
    List.Forall₂ (Twin options) (indentation options tokens)
      (indentation { options with linebreak := .cr } (tokens.map (respellToken .cr))) := by
  refine forall₂_indentFrom (fun text => .same (.whitespace text) rfl) {}
    (fun token hm => .same token (h token hm)) fun level token hm => ?_
  rw [reindentToken_respellToken_cr]
  have ht := h token hm
  cases token with
  | blockComment text =>
      refine .indented level ?_
      rw [← String.toList_ofList (l := Linebreak.lf.respell text.toList), Token.blockComment.inj ht]
  | _ => exact .same _ ht

theorem blockComments_indentLine (options : Options) (state : IndentState) {line : List Token}
    (h : ∀ level, ∀ token ∈ line, reindentToken (levels options level) token = token) :
    blockComments (indentLine options state line) = blockComments line := by
  obtain ⟨lead, level, respell, hl, hr, he⟩ := indentLine_eq options state line
  have hw : ∀ token ∈ lead, token.isWhitespace = true := by
    rcases hl with rfl | rfl | rfl
    · exact isWhitespace_of_mem_lineLead
    · simp
    · exact isWhitespace_of_mem_indentationTokens
  have hc : (lineContent line).map respell = lineContent line := by
    refine (List.map_congr_left fun token hm => ?_).trans (List.map_id _)
    rcases hr with rfl | rfl
    · rfl
    · refine h level token ?_
      rw [← lineLead_append_lineContent line]
      exact List.mem_append_right _ hm
  calc blockComments (indentLine options state line)
      = blockComments lead ++ blockComments (lineContent line) := by
        rw [he, hc, blockComments_append]
    _ = blockComments (lineLead line) ++ blockComments (lineContent line) := by
        rw [blockComments_eq_nil hw, blockComments_eq_nil isWhitespace_of_mem_lineLead]
    _ = blockComments line := by rw [← blockComments_append, lineLead_append_lineContent]

/-- Where indentation changes no comment, the block comments are those that were there. -/
theorem blockComments_indentFrom (options : Options) (state : IndentState) {tokens : List Token}
    (h : ∀ level, ∀ token ∈ tokens, reindentToken (levels options level) token = token) :
    blockComments (indentFrom options state tokens) = blockComments tokens := by
  fun_induction indentFrom options state tokens with
  | case1 state tokens he => rw [List.isEmpty_iff.1 he]
  | case2 state tokens he line hd =>
      have ht := takeWhile_append_of_dropWhile hd
      rw [List.append_nil] at ht
      exact (blockComments_indentLine options state fun level => forall_mem_of_takeWhile (h level)).trans
        (congrArg blockComments ht)
  | case3 state tokens he line ends rest hd _ ih =>
      have ht := takeWhile_append_of_dropWhile hd
      have hl := blockComments_indentLine options state fun level =>
        forall_mem_of_takeWhile (p := fun token => !token.isLinebreak) (h level)
      have hf := ih fun level token hm => h level token
        (ht ▸ List.mem_append_right _ (List.mem_cons_of_mem ends hm))
      rw [blockComments_append, hl, blockComments_cons_congr ends hf, ← blockComments_append, ht]

/-! ### Trimmed lines side by side -/

theorem blockComments_trimLines (options : Options) (lineStart : Bool) (tokens : List Token) :
    blockComments (trimLines options lineStart tokens) = blockComments tokens := by
  fun_induction trimLines options lineStart tokens with
  | case1 => rfl
  | case2 lineStart text rest _ ih => exact ih
  | case3 lineStart text rest _ ih => exact ih
  | case4 lineStart text rest ih => exact ih
  | case5 lineStart ending rest ih => exact ih
  | case6 lineStart token rest _ _ _ ih => exact blockComments_cons_congr token ih

theorem atLineEnd_of_forall₂ {options : Options} {first second : List Token}
    (h : List.Forall₂ (Twin options) first second) : atLineEnd second = atLineEnd first := by
  cases h with
  | nil => rfl
  | @cons token _ _ _ ht _ =>
      cases ht with
      | same => cases token <;> rfl
      | indented => rfl

theorem forall₂_trimLines {options : Options} {first second : List Token}
    (h : List.Forall₂ (Twin options) first second) (lineStart : Bool) :
    List.Forall₂ (Twin options) (trimLines options lineStart first)
      (trimLines { options with linebreak := .cr } lineStart second) := by
  induction h generalizing lineStart with
  | nil => exact .nil
  | @cons token other first second ht hr ih =>
      have he : second.isEmpty = first.isEmpty := by cases hr <;> rfl
      cases ht with
      | indented level hc =>
          simp only [trimLines]
          exact .cons (.indented level hc) (ih false)
      | same _ hs =>
          cases token with
          | whitespace text =>
              simp only [respellToken, trimLines, atLineEnd_of_forall₂ hr, he]
              split
              · exact ih lineStart
              · exact .cons (.same _ hs) (ih false)
          | lineComment text =>
              simp only [respellToken, trimLines]
              exact .cons (.same (.lineComment _) rfl) (ih false)
          | linebreak ending =>
              simp only [respellToken, trimLines]
              exact .cons (.same _ hs) (ih true)
          | _ =>
              simp only [respellToken, trimLines]
              exact .cons (.same _ hs) (ih false)

/-! ### The first line that differs -/

/-- What follows space is told apart by the star it begins with. -/
theorem space_append_inj {first second before after : List Char}
    (hf : ∀ c ∈ first, Lexer.isSpace c = true) (hs : ∀ c ∈ second, Lexer.isSpace c = true)
    (hb : before.head? = some '*') (ha : after.head? = some '*')
    (h : first ++ before = second ++ after) : first = second ∧ before = after := by
  have hstops {text : List Char} (ht : text.head? = some '*') : Lexer.Stops Lexer.isSpace text := by
    intro c hc
    rw [ht] at hc
    cases hc
    rfl
  have ht := congrArg (List.takeWhile Lexer.isSpace) h
  have hd := congrArg (List.dropWhile Lexer.isSpace) h
  rw [(hstops hb).takeWhile_append hf, (hstops ha).takeWhile_append hs] at ht
  rw [(hstops hb).dropWhile_append hf, (hstops ha).dropWhile_append hs] at hd
  exact ⟨ht, hd⟩

/-- An indented comment that goes on like the comment was not changed. -/
theorem reindentComment_append_inj {indentation : List Char}
    (hi : ∀ c ∈ indentation, Lexer.isSpace c = true) {text first second : List Char}
    (h : reindentComment indentation text ++ first = text ++ second) :
    reindentComment indentation text = text ∧ first = second := by
  fun_induction reindentComment indentation text with
  | case1 => exact ⟨rfl, h⟩
  | case2 c rest hc ih =>
      obtain ⟨rfl, hstar⟩ := hc
      have hd : rest.takeWhile Lexer.isSpace ++ rest.dropWhile Lexer.isSpace = rest :=
        List.takeWhile_append_dropWhile
      have hhead (text more : List Char) (ht : text.head? = some '*') :
          (text ++ more).head? = some '*' := by
        rw [List.head?_append, ht]
        rfl
      generalize hw : rest.takeWhile Lexer.isSpace = space at hd
      generalize rest.dropWhile Lexer.isSpace = body at hd hstar ih h ⊢
      have hspace : ∀ c ∈ indentation ++ [' '], Lexer.isSpace c = true :=
        List.forall_mem_append.2 ⟨hi, by simp [Lexer.isSpace]⟩
      have hrest : ∀ c ∈ space, Lexer.isSpace c = true := by
        rw [← hw]
        exact fun c hm => List.mem_takeWhile_imp hm
      have he : (indentation ++ [' ']) ++ (reindentComment indentation body ++ first) =
          space ++ (body ++ second) := by
        have ht := (List.cons.inj h).2
        rw [← hd] at ht
        simpa using ht
      obtain ⟨hin, hb⟩ := space_append_inj hspace hrest
        (hhead _ _ (by rwa [head?_reindentComment])) (hhead _ _ hstar) he
      obtain ⟨hr, hf⟩ := ih hb
      refine ⟨?_, hf⟩
      rw [hr, ← hd, ← hin]
      simp
  | case3 c rest hc ih =>
      obtain ⟨hr, hf⟩ := ih (List.cons.inj h).2
      exact ⟨congrArg (c :: ·) hr, hf⟩

end Rule
end SourceStyle
