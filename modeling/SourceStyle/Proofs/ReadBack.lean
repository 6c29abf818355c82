import Mathlib
import SourceStyle.Formatter
import SourceStyle.Proofs.Adjacency.Rules
import SourceStyle.Proofs.Readable
import SourceStyle.Proofs.Spaces

/-!
Reading formatted text again. The text reads as the tokens it was rendered from, runs of space
taken together, exactly if every number still reads as one and no two tokens side by side go on
with one another.
-/

namespace SourceStyle

open Token

namespace Lexer

/-- What follows a token, seen as characters, does not go on with it. -/
def Meets : Trail → List Char → Prop
  | .free, _ => True
  | .line, after => Stops (!isLineEnd ·) after
  | .name, after => Stops isIdentifierTail after
  | .number, after => (numberTail after).1 = []
  | .quotes, after => after.head? ≠ some '"'
  | .operator, after => (operatorTail after).1 = []
  | .point, after => (operatorTail after).1 = [] ∧ Stops Char.isDigit after

theorem meets_of_ends {token : Token} {after : List Char} (h : Ends token after) :
    Meets (Trail.of token) after := by
  unfold Trail.of
  split
  · split
    · trivial
    · rename_i hn
      exact h fun hb => hn (.inr hb)
  · exact h
  · split
    · exact h ‹_›
    · trivial
  · split
    · exact (h ‹_›).1
    · trivial
  · exact h
  · trivial

/-- What no operator goes on with is no operator character, or the first of a comment. -/
theorem not_isOperatorChar_of_scans {token : Token} {after : List Char} (h : Scans token after)
    (hk : token.isComment = false) (ho : (operatorTail (token.chars ++ after)).1 = []) :
    token.chars.head?.any isOperatorChar = false := by
  obtain ⟨c, more, lines, hc, hn⟩ := h
  rw [hc, List.cons_append, operatorTail_cons] at ho
  split at ho
  · rename_i hs
    rw [hc, List.head?_cons, Option.any_some]
    rw [Bool.or_eq_true, Bool.not_eq_true', Bool.and_eq_true, beq_iff_eq] at hs
    rcases hs with hs | ⟨rfl, hs⟩
    · exact hs
    · rw [next_slash] at hn
      have := (isComment_of_afterSlash hs hn).1
      simp [hk] at this
  · cases ho

/-- What follows sound tokens may be a token that is read there. -/
theorem accepts_of_meets {trail : Trail} {token : Token} {after : List Char}
    (h : Scans token after) (hm : Meets trail (token.chars ++ after)) :
    trail.accepts token = true := by
  have hh : (token.chars ++ after).head? = token.chars.head? :=
    head?_append_of_ne_nil (begins_ne_nil h.begins) after
  have hp : ∀ p : Char → Bool, Stops p (token.chars ++ after) →
      token.chars.head?.any p = false := by
    intro p hs
    rw [Stops, hh] at hs
    cases hc : token.chars.head? with
    | none => rfl
    | some c => exact hs c hc
  by_cases ht : trail = .line
  · subst ht
    rw [Trail.accepts, if_pos rfl]
    cases hc : token.chars.head? with
    | none => exact absurd (List.head?_eq_none_iff.1 hc) (begins_ne_nil h.begins)
    | some c =>
        have hl := hm c (hh.trans hc)
        exact isLinebreak_of_isLineEnd h.begins hc (by simpa using hl)
  cases hk : token.isBreak with
  | true => exact accepts_of_isBreak ht hk
  | false =>
      have hc : token.isComment = false := by
        simp only [isBreak, Bool.or_eq_false_iff] at hk
        exact hk.2
      have hg : token.chars.head?.any trail.goesOn = false := by
        cases trail with
        | free => exact hp _ fun _ _ => rfl
        | line => exact absurd rfl ht
        | name => exact hp _ hm
        | number => exact hp _ (stops_of_numberTail hm)
        | quotes =>
            refine hp _ fun c hc => ?_
            rw [Meets, Option.mem_def.1 hc] at hm
            simpa [Trail.goesOn] using hm
        | operator => exact not_isOperatorChar_of_scans h hc hm
        | point =>
            have ho := not_isOperatorChar_of_scans h hc hm.1
            have hd := hp _ hm.2
            cases hs : token.chars.head? with
            | none => rfl
            | some c =>
                rw [hs, Option.any_some] at ho hd
                simp [Trail.goesOn, ho, hd]
      rw [Trail.accepts, if_neg ht, hg, Bool.not_false, Bool.or_true]

theorem meets_after {trail : Trail} {token : Token} {after : List Char}
    (h : Scans token after) (hm : Meets trail (token.chars ++ after)) :
    Meets (trail.after token) after := by
  have he := (h.iff_ends after).1 h
  unfold Trail.after
  split
  · rename_i hc
    obtain ⟨rfl, rfl⟩ := hc
    refine ⟨(he (by decide)).1, fun c hd => ?_⟩
    rw [Meets] at hm
    change (numberTail ('.' :: after)).1 = [] at hm
    rw [numberTail_cons] at hm
    split at hm
    · cases hm
    · rename_i hn
      rw [Option.mem_def.1 hd] at hn
      simp only [Option.any_some, beq_self_eq_true, Bool.true_and, Bool.or_eq_true, not_or,
        Bool.not_eq_true] at hn
      exact hn.2
  · exact meets_of_ends he

/-- Tokens that were read are sound side by side. -/
theorem Lexes.soundFrom {source : List Char} {tokens : List Token} (h : Lexes source tokens)
    {trail : Trail} (hm : Meets trail source) : SoundFrom trail tokens := by
  induction tokens generalizing source trail with
  | nil => trivial
  | cons token tokens ih =>
      have hl : Lexes source ([] ++ token :: tokens) := h
      have hs := hl.scans
      have hr := h.renderChars
      rw [renderChars_cons] at hr
      rw [← hr] at hm
      refine ⟨accepts_of_meets hs hm, ?_⟩
      cases h with
      | cons _ ht =>
          rw [ht.renderChars] at hs hm
          exact ih ht (meets_after hs hm)

end Lexer

namespace Token

/-- Two tokens that read as something else side by side, and that rules do put there. -/
def Clash (first second : Token) : Prop :=
  (first = .identifier "Void" ∧ second.chars.head?.any Lexer.isIdentifierTail = true) ∨
    ∃ text, first = .operator text ∧ text.toList.getLast? = some '/' ∧ second.isComment = true

/-- Every number reads as one, and no two tokens clash. -/
structure Separated (tokens : List Token) : Prop where
  numbers : ∀ text, .number text ∈ tokens → tokenize text = .ok [.number text]
  clashes : ∀ before first second after, tokens = before ++ first :: second :: after →
    ¬Clash first second

theorem Separated.tail {token : Token} {rest : List Token} (h : Separated (token :: rest)) :
    Separated rest :=
  ⟨fun text hm => h.numbers text (List.mem_cons_of_mem token hm),
    fun before first second after he => h.clashes (token :: before) first second after
      (by rw [he, List.cons_append])⟩

end Token

namespace Lexer

theorem scans_iff_tokenize {text : String} :
    Scans (.number text) [] ↔ tokenize text = .ok [.number text] := by
  rw [tokenize_eq_ok_iff]
  constructor
  · rintro ⟨c, more, lines, hc, hn⟩
    rw [List.append_nil] at hn
    have hl : Lexes (c :: more) [.number text] := .cons hn .nil
    rwa [← hc] at hl
  · intro h
    have hl : Lexes text.toList ([] ++ .number text :: []) := h
    exact hl.scans

theorem isSpace_of_next {c : Char} {rest : List Char} {step : Step} (h : next c rest = .ok step)
    (hw : step.token.isWhitespace = true) : isSpace c = true := by
  have hb := begins_of_next h
  obtain ⟨more, hc, -⟩ := next_takes h
  cases ht : step.token with
  | whitespace text =>
      rw [ht] at hb hc
      exact hb.2 c (by rw [hc]; exact List.mem_cons_self)
  | _ => simp [ht, isWhitespace] at hw

theorem Lexes.tail {source : List Char} {token : Token} {tokens : List Token}
    (h : Lexes source (token :: tokens)) : Lexes (Token.renderChars tokens) tokens := by
  cases h with
  | cons _ hr => rwa [hr.renderChars]

theorem Lexes.space {source : List Char} {text : String} {rest : List Token}
    (h : Lexes source (.whitespace text :: rest)) :
    text.toList = source.takeWhile isSpace ∧ Lexes (source.dropWhile isSpace) rest := by
  generalize ht : Token.whitespace text :: rest = tokens at h
  cases h with
  | nil => cases ht
  | @cons c following step tokens hs hr =>
      obtain ⟨he, rfl⟩ := List.cons.inj ht
      have hc := isSpace_of_next hs (by rw [← he]; rfl)
      rw [next, if_pos hc] at hs
      cases hs
      cases he
      rw [List.takeWhile_cons_of_pos hc, List.dropWhile_cons_of_pos hc, String.toList_ofList]
      exact ⟨rfl, hr⟩

theorem Lexes.stops_isSpace {source : List Char} {tokens : List Token} (h : Lexes source tokens)
    (hw : ∀ token ∈ tokens.head?, token.isWhitespace = false) : Stops isSpace source := by
  cases h with
  | nil => nofun
  | @cons c rest step tokens hs hr =>
      rintro d ⟨⟩
      refine Bool.eq_false_iff.2 fun hc => ?_
      rw [next, if_pos hc] at hs
      cases hs
      cases hw _ rfl

theorem Lexes.skipSpace {source : List Char} {tokens : List Token} (h : Lexes source tokens) :
    Lexes (source.dropWhile isSpace) (Token.skipSpace tokens) := by
  have hn : ∀ {source : List Char} {tokens : List Token}, Lexes source tokens →
      Stops isSpace source → Token.skipSpace tokens = tokens := by
    intro source tokens h hs
    cases h with
    | nil => rfl
    | @cons c rest step tokens hx hr =>
        refine List.dropWhile_cons_of_neg fun hw => ?_
        have hc := isSpace_of_next hx hw
        rw [hs c rfl] at hc
        cases hc
  cases tokens with
  | nil =>
      cases h
      exact .nil
  | cons token tokens =>
      cases hw : token.isWhitespace with
      | true =>
          cases token with
          | whitespace text =>
              obtain ⟨-, hr⟩ := h.space
              rwa [Token.skipSpace, List.dropWhile_cons_of_pos rfl, ← Token.skipSpace,
                hn hr (stops_dropWhile isSpace source)]
          | _ => cases hw
      | false =>
          have hs := h.stops_isSpace (by rintro other ⟨⟩; exact hw)
          rwa [hs.dropWhile, hn h hs]

theorem renderChars_head? {token : Token} (h : Begins token token.chars) (rest : List Token) :
    (renderChars (token :: rest)).head? = token.chars.head? := by
  rw [renderChars_cons, head?_append_of_ne_nil (begins_ne_nil h)]

/-- Of the characters that break tokens begin with, only a comment's slash means anything to
other tokens. -/
theorem goesOn_of_isBreak {token : Token} (h : Begins token token.chars) (hk : token.isBreak = true)
    {c : Char} (hc : token.chars.head? = some c) {trail : Trail} (hg : trail.goesOn c = true) :
    token.isComment = true ∧ c = '/' := by
  have hn : ∀ d : Char, d ∈ [' ', '\t', '\n', '\r', '(', ')', '[', ']', '{', '}', ',', ';', ':'] →
      d = c → False := by
    rintro d hd rfl
    simp only [List.mem_cons, List.not_mem_nil, or_false] at hd
    rcases hd with rfl | rfl | rfl | rfl | rfl | rfl | rfl | rfl | rfl | rfl | rfl | rfl | rfl <;>
      cases trail <;> cases hg
  cases token with
  | whitespace =>
      have hs := h.2 c (List.mem_of_mem_head? hc)
      have hd : c = ' ' ∨ c = '\t' := by simpa [isSpace] using hs
      rcases hd with rfl | rfl <;> exact absurd rfl (hn _ (by simp))
  | linebreak ending =>
      cases ending <;> simp [Linebreak.chars] at hc <;> exact absurd hc (hn _ (by simp))
  | opening bracket =>
      cases bracket <;> simp [Bracket.openChar] at hc <;> exact absurd hc (hn _ (by simp))
  | closing bracket =>
      cases bracket <;> simp [Bracket.closeChar] at hc <;> exact absurd hc (hn _ (by simp))
  | separator mark =>
      cases mark <;> simp [Separator.char] at hc <;> exact absurd hc (hn _ (by simp))
  | lineComment =>
      obtain ⟨more, hm, -⟩ := h
      rw [hm] at hc
      cases hc
      exact ⟨rfl, rfl⟩
  | blockComment =>
      obtain ⟨more, hm⟩ := h
      rw [hm] at hc
      cases hc
      exact ⟨rfl, rfl⟩
  | _ => cases hk

theorem goesOn_of_accepts {trail : Trail} {token : Token} (h : Begins token token.chars)
    (ha : trail.accepts token = true) {c : Char} (hc : token.chars.head? = some c)
    (hg : trail.goesOn c = true) : token.isComment = true ∧ c = '/' := by
  have ht : trail ≠ .line := by
    rintro rfl
    cases hg
  rw [Trail.accepts, if_neg ht, hc, Option.any_some, hg, Bool.not_true, Bool.or_false] at ha
  exact goesOn_of_isBreak h ha hc hg

section
variable {rest : List Token} {ending : Linebreak}

/-- What the first of the characters after a token can be. -/
theorem goesOn_of_soundFrom {trail : Trail} (hb : ∀ token ∈ rest, Begins token token.chars)
    (hs : SoundFrom trail rest) {c : Char} (hc : (renderChars rest).head? = some c)
    (hg : trail.goesOn c = true) :
    ∃ token, rest.head? = some token ∧ token.isComment = true ∧ c = '/' := by
  cases rest with
  | nil => cases hc
  | cons token rest =>
      have ht := hb token List.mem_cons_self
      rw [renderChars_head? ht] at hc
      exact ⟨token, rfl, goesOn_of_accepts ht hs.1 hc hg⟩

theorem stops_of_soundFrom {trail : Trail} (hb : ∀ token ∈ rest, Begins token token.chars)
    (hs : SoundFrom trail rest) (hg : trail.goesOn '/' = false) :
    Stops trail.goesOn (renderChars rest) := by
  intro c hc
  refine Bool.eq_false_iff.2 fun ht => ?_
  obtain ⟨token, -, -, rfl⟩ := goesOn_of_soundFrom hb hs hc ht
  rw [hg] at ht
  cases ht

theorem operatorTail_of_soundFrom (hb : ∀ token ∈ rest, Begins token token.chars)
    (hs : SoundFrom .operator rest) : (operatorTail (renderChars rest)).1 = [] := by
  cases hr : renderChars rest with
  | nil => rfl
  | cons c more =>
      by_cases ho : isOperatorChar c = true
      · obtain ⟨token, ht, hk, -⟩ := goesOn_of_soundFrom hb hs (by rw [hr]; rfl) ho
        obtain ⟨following, rfl⟩ := List.head?_eq_some_iff.1 ht
        rw [← hr, renderChars_cons]
        exact operatorTail_comment (hb token List.mem_cons_self) hk _
      · rw [operatorTail_cons, if_pos (by simp [ho])]

/-- Only operators begin with a point, and they go on with operator characters. -/
theorem eq_point_of_head {token : Token} (h : Begins token token.chars) {more : List Char}
    (hc : token.chars = '.' :: more) (hm : more.head?.any isOperatorChar = false) :
    token = .operator "." := by
  have hk : token.isBreak = false := Bool.eq_false_iff.2 fun hk => by
    have hg : Trail.operator.goesOn '.' = true := by decide
    have hh : token.chars.head? = some '.' := by rw [hc]; rfl
    cases (goesOn_of_isBreak h hk hh hg).2
  cases token with
  | operator text =>
      obtain ⟨c, other, he, hi⟩ := h
      cases hc.symm.trans he
      rcases hi with hi | ⟨-, hi, -⟩
      · cases more with
        | nil =>
            have ht : text.toList = ".".toList := hc
            rw [String.toList_inj.1 ht]
        | cons d more =>
            rw [hc] at hi
            rw [List.head?_cons, Option.any_some, hi d (by simp)] at hm
            cases hm
      · cases hi
  | identifier =>
      obtain ⟨c, other, he, hi⟩ := h
      cases hc.symm.trans he
      rcases hi with hi | hi
      · cases hi
      · exact absurd hi (by decide)
  | number =>
      obtain ⟨c, other, he, hi⟩ := h
      cases hc.symm.trans he
      cases hi
  | stringLiteral =>
      obtain ⟨other, he⟩ := h
      cases hc.symm.trans he
  | _ => cases hk

/-- What follows a number is no point before a digit. -/
theorem numberTail_of_soundFrom (hb : ∀ token ∈ rest, Begins token token.chars)
    (hs : SoundFrom .number rest) : (numberTail (renderChars rest)).1 = [] := by
  have hn := stops_of_soundFrom hb hs (by decide)
  cases hr : renderChars rest with
  | nil => rfl
  | cons c more =>
      rw [hr] at hn
      have hi := hn c rfl
      rw [numberTail_cons]
      split
      · rename_i hp
        change isIdentifierTail c = false at hi
        rw [hi, Bool.false_or, Bool.and_eq_true, beq_iff_eq] at hp
        obtain ⟨rfl, hd⟩ := hp
        cases rest with
        | nil => cases hr
        | cons token rest =>
            obtain ⟨ht, hf⟩ := List.forall_mem_cons.1 hb
            obtain ⟨tail, hc⟩ : ∃ tail, token.chars = '.' :: tail := by
              have hh := renderChars_head? ht rest
              rw [hr] at hh
              exact List.head?_eq_some_iff.1 hh.symm
            rw [renderChars_cons, hc, List.cons_append, List.cons.injEq] at hr
            obtain ⟨-, rfl⟩ := hr
            have hp : tail.head?.any isOperatorChar = false := by
              cases tail with
              | nil => rfl
              | cons d tail => exact isOperatorChar_of_isDigit hd
            have he := eq_point_of_head ht hc hp
            subst he
            cases hc
            obtain ⟨d, hh, hg⟩ := (Option.any_eq_true _ _).1 hd
            have hs : SoundFrom .point rest := hs.2
            obtain ⟨-, -, -, rfl⟩ := goesOn_of_soundFrom hf hs hh
              (by rw [Trail.goesOn, hg, Bool.or_true])
            cases hg
      · rfl

/-- Where each token is sound after the one before it, it ends where the next begins. -/
theorem ends_of_soundFrom {token : Token} (hb : ∀ other ∈ rest, Begins other other.chars)
    (hs : SoundFrom (Trail.of token) rest) (hc : ∀ second ∈ rest.head?, ¬Clash token second)
    (hl : ∀ other, .linebreak other ∈ token :: rest → other = ending)
    (hw : token.isWhitespace = false) : Ends token (renderChars rest) := by
  cases token with
  | whitespace => cases hw
  | linebreak other =>
      cases other with
      | cr =>
          intro hh
          cases rest with
          | nil => cases hh
          | cons second rest =>
              have ht := hb second List.mem_cons_self
              rw [renderChars_head? ht] at hh
              have hk := isLinebreak_of_isLineEnd ht hh rfl
              have he := hl .cr (by simp)
              cases second with
              | linebreak third =>
                  have ho := hl third (by simp)
                  subst he ho
                  simp [Linebreak.chars] at hh
              | _ => cases hk
      | _ => trivial
  | identifier name =>
      intro hn
      by_cases hv : name = "Void"
      · intro c hh
        cases rest with
        | nil => cases hh
        | cons second rest =>
            rw [renderChars_head? (hb second List.mem_cons_self)] at hh
            refine Bool.eq_false_iff.2 fun hi => hc second rfl (.inl ⟨by rw [hv], ?_⟩)
            rw [Option.mem_def.1 hh]
            exact hi
      · have ht : Trail.of (.identifier name) = .name := by simp [Trail.of, hv, hn]
        rw [ht] at hs
        exact stops_of_soundFrom hb hs (by decide)
  | number => exact numberTail_of_soundFrom hb hs
  | stringLiteral text =>
      intro hn hh
      have ht : Trail.of (.stringLiteral text) = .quotes := by simp [Trail.of, hn]
      rw [ht] at hs
      obtain ⟨-, -, -, he⟩ := goesOn_of_soundFrom hb hs hh rfl
      cases he
  | operator text =>
      intro ho
      have ht : Trail.of (.operator text) = .operator := by simp [Trail.of, ho]
      rw [ht] at hs
      refine ⟨operatorTail_of_soundFrom hb hs, fun hd => Bool.eq_false_iff.2 fun hk => ?_⟩
      obtain ⟨c, hh, hg⟩ := (Option.any_eq_true _ _).1 hk
      have hg : isOperatorChar c = true := by
        rcases Bool.or_eq_true _ _ ▸ hg with hg | hg <;> rw [beq_iff_eq.1 hg] <;> rfl
      obtain ⟨second, he, hm, -⟩ := goesOn_of_soundFrom hb hs hh hg
      exact hc second he (.inr ⟨text, rfl, hd, hm⟩)
  | lineComment text =>
      intro c hh
      cases rest with
      | nil => cases hh
      | cons second rest =>
          rw [renderChars_head? (hb second List.mem_cons_self)] at hh
          have hk : Trail.line.accepts second = true := hs.1
          rw [Trail.accepts, if_pos rfl] at hk
          cases second with
          | linebreak other =>
              cases other <;> simp [Linebreak.chars] at hh <;> subst hh <;> rfl
          | _ => cases hk
  | _ => trivial

/-- Space in front of what reads goes into the space that this begins with. -/
theorem lexes_space {text : String} {tokens : List Token}
    (hb : Begins (.whitespace text) (Token.whitespace text).chars)
    (h : Lexes (renderChars tokens) (mergeSpaces tokens)) :
    Lexes (renderChars (.whitespace text :: tokens)) (mergeSpaces (.whitespace text :: tokens)) := by
  obtain ⟨hn, hi⟩ := hb
  obtain ⟨c, more, ht⟩ := List.exists_cons_of_ne_nil hn
  rw [ht] at hi
  obtain ⟨hc, hm⟩ := List.forall_mem_cons.1 hi
  have hx : ∀ after, next c (more ++ after) =
      .ok { token := .whitespace (String.ofList (c :: (more ++ after.takeWhile isSpace)))
            rest := after.dropWhile isSpace } := by
    intro after
    rw [next, if_pos hc, List.takeWhile_append_of_pos hm, List.dropWhile_append_of_pos hm]
  rw [renderChars_cons, ht, mergeSpaces]
  split
  · rename_i following rest he
    rw [he] at h
    obtain ⟨hf, hr⟩ := h.space
    have hs : text ++ following = String.ofList (c :: (more ++ (renderChars tokens).takeWhile isSpace)) := by
      rw [← hf, ← List.cons_append, ← ht, Token.chars, Token.text, String.ofList_append,
        String.ofList_toList, String.ofList_toList]
    rw [hs]
    exact .cons (hx _) hr
  · rename_i hk
    have hs := h.stops_isSpace (fun token hh => by
      obtain ⟨rest, he⟩ := List.head?_eq_some_iff.1 (Option.mem_def.1 hh)
      cases token with
      | whitespace following => exact absurd he (hk following rest)
      | _ => rfl)
    have hw : String.ofList (c :: (more ++ (renderChars tokens).takeWhile isSpace)) = text := by
      rw [hs.takeWhile, List.append_nil, ← ht, Token.chars, Token.text, String.ofList_toList]
    have hl := Lexes.cons (hx (renderChars tokens)) (hs.dropWhile.symm ▸ h)
    rw [hw] at hl
    exact hl

/-- Sound tokens that are separated read back, with runs of space taken together. -/
theorem lexes_mergeSpaces {trail : Trail} {tokens : List Token}
    (hr : ∀ token ∈ tokens, Readable token) (hs : SoundFrom trail tokens)
    (hl : ∀ other, .linebreak other ∈ tokens → other = ending) (hp : Separated tokens) :
    Lexes (renderChars tokens) (mergeSpaces tokens) := by
  induction tokens generalizing trail with
  | nil => exact .nil
  | cons token rest ih =>
      obtain ⟨ht, hr⟩ := List.forall_mem_cons.1 hr
      have hi := ih hr hs.2 (fun other hm => hl other (List.mem_cons_of_mem token hm)) hp.tail
      cases hw : token.isWhitespace with
      | true =>
          cases token with
          | whitespace text => exact lexes_space ht.begins hi
          | _ => cases hw
      | false =>
          have hm : mergeSpaces (token :: rest) = token :: mergeSpaces rest := by
            cases token <;> first | rfl | cases hw
          have hn : Scans token [] := by
            cases token with
            | number text => exact scans_iff_tokenize.2 (hp.numbers text List.mem_cons_self)
            | _ => exact ht.scans (by rintro _ ⟨⟩)
          have he : Ends token (renderChars rest) :=
            ends_of_soundFrom (fun other hm => (hr other hm).begins) hs.tail.of
              (fun second hm => by
                obtain ⟨after, rfl⟩ := List.head?_eq_some_iff.1 (Option.mem_def.1 hm)
                exact hp.clashes [] token second after rfl)
              hl hw
          obtain ⟨c, more, lines, hc, hx⟩ := (hn.iff_ends _).2 he
          rw [renderChars_cons, hm, hc]
          exact .cons hx hi

end

/-- If rendered tokens read as the same tokens but for space, each was read in its own place. -/
theorem scans_of_visible_eq {source : List Char} {tokens again : List Token}
    (hb : ∀ token ∈ tokens, Begins token token.chars) (h : Lexes source again)
    (hs : source.dropWhile isSpace = (renderChars tokens).dropWhile isSpace)
    (hv : visible again = visible tokens) {before after : List Token} {token : Token}
    (ht : tokens = before ++ token :: after) (hw : token.isWhitespace = false) :
    Scans token (renderChars after) := by
  induction tokens generalizing source again before with
  | nil => simp at ht
  | cons first rest ih =>
      obtain ⟨hf, hr⟩ := List.forall_mem_cons.1 hb
      cases hk : first.isWhitespace with
      | true =>
          have hd : (renderChars (first :: rest)).dropWhile isSpace =
              (renderChars rest).dropWhile isSpace := by
            cases first with
            | whitespace text => rw [renderChars_cons, List.dropWhile_append_of_pos hf.2]
            | _ => cases hk
          have hx : visible (first :: rest) = visible rest := by
            rw [visible, List.filter_cons_of_neg (by simp [hk]), visible]
          cases before with
          | nil =>
              cases ht
              rw [hk] at hw
              cases hw
          | cons other before =>
              cases ht
              exact ih hr h (hs.trans hd) (hv.trans hx) rfl
      | false =>
          have hstop : Stops isSpace (renderChars (first :: rest)) := by
            intro c hc
            rw [renderChars_head? hf] at hc
            refine Bool.eq_false_iff.2 fun hi => ?_
            rw [isWhitespace_of_isSpace hf hc hi] at hk
            cases hk
          have hl := h.skipSpace
          rw [hs, hstop.dropWhile] at hl
          have hx : visible (skipSpace again) = first :: visible rest := by
            rw [visible_skipSpace, hv, visible_cons_of_not hk]
          cases ha : skipSpace again with
          | nil =>
              rw [ha] at hx
              cases hx
          | cons second following =>
              rw [ha, visible_cons_of_not (isWhitespace_of_skipSpace_eq ha)] at hx
              obtain ⟨rfl, hy⟩ := List.cons.inj hx
              rw [ha] at hl
              have hp := hl.renderChars
              rw [renderChars_cons, renderChars_cons] at hp
              have hc := List.append_cancel_left hp
              have hq : Lexes (renderChars (second :: rest)) ([] ++ second :: following) := hl
              have hn := hq.scans
              rw [hc] at hn
              cases before with
              | nil =>
                  cases ht
                  exact hn
              | cons other before =>
                  cases ht
                  exact ih hr hl.tail (by rw [hc]) hy rfl

end Lexer

/-- What every rule keeps between tokens, and what it keeps of each. -/
structure Presentable (tokens : List Token) : Prop where
  readable : ∀ token ∈ tokens, Lexer.Readable token
  sound : SoundFrom .free tokens

theorem Presentable.apply {options : Options} {rule : Rule} (hr : rule ∈ Rule.all)
    {tokens : List Token} (h : Presentable tokens) : Presentable (rule.apply options tokens) where
  readable := (Lexer.kept_readable options).forall_mem_apply hr tokens h.readable
  sound := Rule.soundFrom_apply hr (fun token hm => (h.readable token hm).begins) h.sound

theorem presentable_of_tokenize {source : String} {tokens : List Token}
    (h : tokenize source = .ok tokens) : Presentable tokens := by
  have hl := tokenize_eq_ok_iff.1 h
  refine ⟨fun token hm => ?_, hl.soundFrom trivial⟩
  obtain ⟨before, after, rfl⟩ := List.append_of_mem hm
  exact hl.scans.readable

/-- Every line terminator is spelled as the options say. -/
def Uniform (options : Options) (tokens : List Token) : Prop :=
  ∀ token ∈ tokens, ∀ ending, token = .linebreak ending → ending = options.linebreak

theorem run_all (options : Options) (tokens : List Token) :
    ∃ rules, (∀ rule ∈ rules, rule ∈ Rule.all) ∧
      Rule.run Rule.all options tokens =
        Rule.applyAll rules options (Rule.linebreaks options tokens) := by
  refine ⟨(Rule.all.filter (·.isEnabled options)).tail, fun rule hm => ?_, rfl⟩
  exact (List.mem_filter.1 (List.mem_of_mem_tail hm)).1

theorem kept_uniform (options : Options) :
    Rule.Kept options fun token => ∀ ending, token = .linebreak ending → ending = options.linebreak where
  terminator := by
    rintro ending ⟨⟩
    rfl
  space := by rintro _ _ _ _ ⟨⟩
  comma := by rintro _ ⟨⟩
  name := by rintro _ ⟨⟩
  opening := by rintro _ ⟨⟩
  closing := by rintro _ ⟨⟩
  respelled token h := by
    cases token <;> rintro ending ⟨⟩
    rfl
  recased token h := by
    cases token with
    | linebreak => exact h
    | number text =>
        rw [Rule.recaseHex]
        split <;> rintro _ ⟨⟩
    | _ => rintro _ ⟨⟩
  reindented level token h := by
    cases token with
    | linebreak => exact h
    | _ => rintro _ ⟨⟩
  trimmed text h := by rintro _ ⟨⟩

theorem uniform_run (options : Options) (tokens : List Token) :
    Uniform options (Rule.run Rule.all options tokens) := by
  obtain ⟨rules, hr, he⟩ := run_all options tokens
  rw [he]
  refine (kept_uniform options).forall_mem_applyAll hr ?_
  rw [Rule.linebreaks, List.forall_mem_map]
  rintro token - ending h
  cases token <;> cases h
  rfl

theorem presentable_run (options : Options) {tokens : List Token} (h : Presentable tokens) :
    Presentable (Rule.run Rule.all options tokens) :=
  Rule.applyAll_induction (fun _ hm _ hp => hp.apply hm) (fun _ hm => (List.mem_filter.1 hm).1) h

theorem Presentable.begins {tokens : List Token} (h : Presentable tokens) :
    ∀ token ∈ tokens, Lexer.Begins token token.chars :=
  fun token hm => (h.readable token hm).begins

theorem Presentable.separated {tokens again : List Token} (h : Presentable tokens)
    (hl : Lexer.Lexes (renderChars tokens) again) (hv : visible again = visible tokens) :
    Separated tokens := by
  have hs : ∀ {before after : List Token} {token : Token}, tokens = before ++ token :: after →
      token.isWhitespace = false → Lexer.Scans token (renderChars after) :=
    fun ht hw => Lexer.scans_of_visible_eq h.begins hl rfl hv ht hw
  constructor
  · intro text hm
    obtain ⟨before, after, ht⟩ := List.append_of_mem hm
    have hn := hs ht rfl
    exact Lexer.scans_iff_tokenize.1 ((hn.iff_ends []).2 (Lexer.ends_nil _))
  · intro before first second after ht hc
    have hb := h.begins second (by rw [ht]; simp)
    have hh := Lexer.renderChars_head? hb after
    rcases hc with ⟨rfl, hc⟩ | ⟨text, rfl, hd, hk⟩
    · have hn := hs ht rfl
      have he := (hn.iff_ends _).1 hn (by decide)
      obtain ⟨c, hf, hg⟩ := (Option.any_eq_true _ _).1 hc
      rw [he c (hh.trans hf)] at hg
      cases hg
    · have hn := hs ht rfl
      have he := ((hn.iff_ends _).1 hn (Lexer.isOperatorChar_of_getLast hn.begins hd)).2 hd
      rw [Lexer.opensComment, hh, Lexer.head?_of_isComment hb hk] at he
      cases he

/-- Separated tokens read back, with runs of space taken together. -/
theorem Presentable.lexes {options : Options} {tokens : List Token} (h : Presentable tokens)
    (hu : Uniform options tokens) (hp : Separated tokens) :
    Lexer.Lexes (renderChars tokens) (mergeSpaces tokens) :=
  Lexer.lexes_mergeSpaces h.readable h.sound (fun ending hm => hu _ hm ending rfl) hp

theorem readTokens_eq_ok {options : Options} {source : String} {tokens : List Token}
    (h : readTokens options source = .ok tokens) :
    tokenize source = .ok tokens ∧ Scope.check tokens options.fragment = .ok () := by
  unfold readTokens at h
  split at h
  · cases h
  · split at h
    · cases h
    · cases h
      exact ⟨‹_›, ‹_›⟩

/-- The text of formatted source reads as the tokens it was rendered from, space aside, exactly if
these are separated. -/
theorem format_reads_back {options : Options} {source out : String}
    (h : format Rule.all options source = .ok out) :
    ∃ tokens, readTokens options source = .ok tokens ∧
      out = render (Rule.run Rule.all options tokens) ∧
      ((∃ again, tokenize out = .ok again ∧
          visible again = visible (Rule.run Rule.all options tokens)) ↔
        Separated (Rule.run Rule.all options tokens)) := by
  unfold format at h
  cases hr : readTokens options source with
  | error fault =>
      rw [hr] at h
      cases h
  | ok tokens =>
      rw [hr] at h
      have ho : out = render (Rule.run Rule.all options tokens) := (Except.ok.inj h).symm
      have hc : out.toList = renderChars (Rule.run Rule.all options tokens) := by
        rw [ho, render, String.toList_ofList]
      have hp := presentable_run options (presentable_of_tokenize (readTokens_eq_ok hr).1)
      refine ⟨tokens, rfl, ho, ?_, fun hs => ?_⟩
      · rintro ⟨again, ha, hv⟩
        have hl := tokenize_eq_ok_iff.1 ha
        rw [hc] at hl
        exact hp.separated hl hv
      · refine ⟨_, tokenize_eq_ok_iff.2 ?_, visible_mergeSpaces _⟩
        rw [hc]
        exact hp.lexes (uniform_run options tokens) hs

set_option maxRecDepth 10000 in
theorem format_reads_back_list :
    ∃ tokens, readTokens {} "f [\n0xa\n] ; x\n" = .ok tokens ∧
      "f [\n    0xA,\n] ; x\n" = render (Rule.run Rule.all {} tokens) ∧
      ((∃ again, tokenize "f [\n    0xA,\n] ; x\n" = .ok again ∧
          visible again = visible (Rule.run Rule.all {} tokens)) ↔
        Separated (Rule.run Rule.all {} tokens)) :=
  format_reads_back (by cbv)

set_option maxRecDepth 10000 in
/-- The name that takes the place of an empty tuple runs into the word after it. -/
theorem format_fuses_void :
    ¬∀ options source out, format Rule.all options source = .ok out →
      ∃ tokens again, readTokens options source = .ok tokens ∧ tokenize out = .ok again ∧
        visible again = visible (Rule.run Rule.all options tokens) := by
  intro h
  obtain ⟨tokens, again, hr, ha, hv⟩ := h {} "->()x" "->Voidx" (by cbv)
  have ht : readTokens {} "->()x" =
      .ok [.operator "->", .opening .round, .closing .round, .identifier "x"] := by cbv
  have hf : tokenize "->Voidx" = .ok [.operator "->", .identifier "Voidx"] := by cbv
  have he : Rule.run Rule.all {}
      [.operator "->", .opening .round, .closing .round, .identifier "x"] =
      [.operator "->", .identifier "Void", .identifier "x"] := by cbv
  cases hr.symm.trans ht
  cases ha.symm.trans hf
  rw [he] at hv
  exact absurd hv (by decide)

end SourceStyle
