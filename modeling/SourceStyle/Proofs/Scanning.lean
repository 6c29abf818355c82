import Mathlib.Data.List.TakeWhile
import SourceStyle.Proofs.Lexing

/-!
Where tokens end. A token reads the same whatever follows it, as long as what follows does not go
on with it, and only the first characters of what follows decide that.
-/

namespace SourceStyle.Lexer

def Lexeme.before (after : List Char) (lexeme : Lexeme) : Lexeme :=
  { lexeme with rest := after }

theorem head?_append_of_ne_nil {taken : List Char} (h : taken ≠ []) (after : List Char) :
    (taken ++ after).head? = taken.head? := by
  cases taken with
  | nil => exact absurd rfl h
  | cons => rfl

theorem blockComment?_ne_nil {depth : Nat} {source : List Char} {lexeme : Lexeme}
    (h : blockComment? depth source = some lexeme) : lexeme.chars ≠ [] := by
  fun_cases blockComment? depth source with
  | case1 => simp [blockComment?] at h
  | case3 =>
      simp only [blockComment?, Option.some.injEq] at h
      subst h
      simp
  | case2 | case4 | case5 =>
      simp only [blockComment?] at h
      obtain ⟨inner, -, rfl⟩ := Option.map_eq_some_iff.1 h
      simp [Lexeme.after]

theorem lineEnds_congr {c : Char} {first second : List Char} (h : first.head? = second.head?) :
    lineEnds c first = lineEnds c second := by
  simp only [lineEnds, h]

theorem blockComment?_cons {depth : Nat} {c : Char} {rest : List Char}
    (hopen : c = '/' → rest.head? ≠ some '*') (hclose : c = '*' → rest.head? ≠ some '/') :
    blockComment? depth (c :: rest) =
      (blockComment? depth rest).map (.after [c] (lineEnds c rest)) := by
  rw [blockComment?]
  · rintro following rfl rfl
    exact hopen rfl rfl
  · rintro following rfl rfl
    exact hclose rfl rfl

/-- A character that begins no pair has no second of that pair behind it. -/
theorem head?_ne_of_unpaired {c first second : Char} {rest : List Char}
    (h : ∀ following, c = first → rest = second :: following → False) :
    c = first → rest.head? ≠ some second := by
  intro hc hs
  obtain ⟨following, he⟩ := List.head?_eq_some_iff.1 hs
  exact h following hc he

theorem blockComment?_before {depth : Nat} {source : List Char} {lexeme : Lexeme}
    (h : blockComment? depth source = some lexeme) (after : List Char) :
    blockComment? depth (lexeme.chars ++ after) = some (lexeme.before after) := by
  fun_induction blockComment? depth source generalizing lexeme with
  | case1 => cases h
  | case2 depth rest ih =>
      obtain ⟨inner, hi, rfl⟩ := Option.map_eq_some_iff.1 h
      simp only [Lexeme.after, List.cons_append, List.nil_append, blockComment?, ih hi]
      rfl
  | case3 rest =>
      cases h
      rfl
  | case4 rest outer ih =>
      obtain ⟨inner, hi, rfl⟩ := Option.map_eq_some_iff.1 h
      simp only [Lexeme.after, List.cons_append, List.nil_append, blockComment?, ih hi]
      rfl
  | case5 depth c rest hopen hclose ih =>
      obtain ⟨inner, hi, rfl⟩ := Option.map_eq_some_iff.1 h
      have hn := blockComment?_ne_nil hi
      have hh : (inner.chars ++ after).head? = rest.head? := by
        rw [head?_append_of_ne_nil hn, ← blockComment?_append hi, head?_append_of_ne_nil hn]
      simp only [Lexeme.after, List.cons_append, List.nil_append]
      rw [blockComment?_cons, ih hi, lineEnds_congr hh]
      · rfl
      · rw [hh]
        exact head?_ne_of_unpaired hopen
      · rw [hh]
        exact head?_ne_of_unpaired hclose

theorem multilineString?_three {source : List Char} {lexeme : Lexeme}
    (h : multilineString? source = some lexeme) : 3 ≤ lexeme.chars.length := by
  fun_induction multilineString? source generalizing lexeme with
  | case1 => cases h
  | case2 =>
      cases h
      simp
  | case3 _ _ ih | case4 _ _ _ _ ih =>
      obtain ⟨inner, hi, rfl⟩ := Option.map_eq_some_iff.1 h
      have := ih hi
      simp only [Lexeme.after, List.length_append]
      omega

theorem take_two_append {taken : List Char} (h : 3 ≤ taken.length) (after : List Char) :
    (taken ++ after).take 2 = taken.take 2 := by
  rw [List.take_append_of_le_length (by omega)]

/-- A string of several lines does not see what follows it. -/
theorem multilineString?_before {source : List Char} {lexeme : Lexeme}
    (h : multilineString? source = some lexeme) (after : List Char) :
    multilineString? (lexeme.chars ++ after) = some (lexeme.before after) := by
  fun_induction multilineString? source generalizing lexeme with
  | case1 => cases h
  | case2 =>
      cases h
      rfl
  | case3 c rest ih =>
      obtain ⟨inner, hi, rfl⟩ := Option.map_eq_some_iff.1 h
      simp only [Lexeme.after, List.cons_append, List.nil_append, multilineString?, ih hi]
      rfl
  | case4 c rest hquotes hescape ih =>
      obtain ⟨inner, hi, rfl⟩ := Option.map_eq_some_iff.1 h
      have hl := multilineString?_three hi
      have ht : (inner.chars ++ after).take 2 = rest.take 2 := by
        rw [take_two_append hl, ← multilineString?_append hi, take_two_append hl]
      have hh : (inner.chars ++ after).head? = rest.head? := by
        have hk := congrArg List.head? ht
        rwa [List.head?_take, List.head?_take] at hk
      simp only [Lexeme.after, List.cons_append, List.nil_append]
      rw [multilineString?, ih hi, lineEnds_congr hh]
      · rfl
      · rintro following rfl hf
        rw [hf] at ht
        cases rest with
        | nil => cases ht
        | cons second rest =>
            cases rest with
            | nil => cases ht
            | cons third rest =>
                cases ht
                exact hquotes rest rfl rfl
      · rintro second following rfl hf
        cases rest with
        | nil => cases hi
        | cons third rest => exact hescape third rest rfl rfl

theorem map_eq_ok {result : Except SyntaxFault Lexeme} {taken : List Char} {lines : Nat}
    {lexeme : Lexeme} (h : result.map (.after taken lines) = .ok lexeme) :
    ∃ inner, result = .ok inner ∧ lexeme = inner.after taken lines := by
  cases result with
  | error => cases h
  | ok inner =>
      cases h
      exact ⟨inner, rfl, rfl⟩

/-- A string of one line does not see what follows it. -/
theorem quotedString_before {state : QuoteState} {source : List Char} {lexeme : Lexeme}
    (h : quotedString state source = .ok lexeme) (after : List Char) :
    quotedString state (lexeme.chars ++ after) = .ok (lexeme.before after) := by
  fun_induction quotedString state source generalizing lexeme with
  | case1 | case6 | case8 | case13 => cases h
  | case2 =>
      cases h
      rfl
  | case3 _ _ _ ih | case4 _ _ ih | case9 _ _ _ ih | case10 _ _ ih | case11 _ _ _ ih
  | case12 _ _ _ ih | case5 _ _ _ _ ih =>
      obtain ⟨inner, hi, rfl⟩ := map_eq_ok h
      simp only [Lexeme.after, List.cons_append, List.nil_append, quotedString, ih hi]
      rfl
  | case7 outer c rest hend hdeep _ _ hc ih =>
      obtain ⟨inner, hi, rfl⟩ := map_eq_ok h
      have hb : c ≠ '\\' := by
        rintro rfl
        exact hc rfl
      simp only [Lexeme.after, List.cons_append, List.nil_append]
      rw [quotedString, if_neg hc, ih hi]
      · rfl
      · exact hend
      · exact hdeep
      · exact fun _ he => absurd he hb
      · exact fun _ _ he => absurd he hb
  | case14 depth outer c rest _ _ _ _ hc ih =>
      obtain ⟨inner, hi, rfl⟩ := map_eq_ok h
      simp only [Lexeme.after, List.cons_append, List.nil_append, quotedString, ih hi]
      rw [if_neg hc]
      rfl

/-- The characters do not begin with one of the class. -/
def Stops (p : Char → Bool) (after : List Char) : Prop :=
  ∀ c ∈ after.head?, p c = false

section
variable {p : Char → Bool} {inside after : List Char}

theorem stops_dropWhile (p : Char → Bool) (source : List Char) : Stops p (source.dropWhile p) := by
  intro c hc
  have hd := List.head?_dropWhile_not p source
  rw [Option.mem_def.1 hc] at hd
  simpa using hd

theorem Stops.takeWhile (ha : Stops p after) : after.takeWhile p = [] := by
  cases after with
  | nil => rfl
  | cons c rest => rw [List.takeWhile_cons_of_neg (by simp [ha c rfl])]

theorem Stops.dropWhile (ha : Stops p after) : after.dropWhile p = after := by
  cases after with
  | nil => rfl
  | cons c rest => rw [List.dropWhile_cons_of_neg (by simp [ha c rfl])]

theorem Stops.takeWhile_append (hi : ∀ c ∈ inside, p c = true) (ha : Stops p after) :
    (inside ++ after).takeWhile p = inside := by
  rw [List.takeWhile_append_of_pos hi, ha.takeWhile, List.append_nil]

theorem Stops.dropWhile_append (hi : ∀ c ∈ inside, p c = true) (ha : Stops p after) :
    (inside ++ after).dropWhile p = after := by
  rw [List.dropWhile_append_of_pos hi, ha.dropWhile]

end

theorem numberTail_cons (c : Char) (rest : List Char) :
    numberTail (c :: rest) =
      if (isIdentifierTail c || (c == '.' && rest.head?.any Char.isDigit)) = true then
        (c :: (numberTail rest).1, (numberTail rest).2)
      else ([], c :: rest) := by
  rw [numberTail]

theorem isIdentifierTail_of_isDigit {c : Char} (h : c.isDigit = true) : isIdentifierTail c = true := by
  rw [isIdentifierTail, Text.isNumeric_of_isDigit h, Bool.or_true]

/-- Nothing that would continue a name follows a number. -/
theorem stops_of_numberTail {after : List Char} (h : (numberTail after).1 = []) :
    Stops isIdentifierTail after := by
  cases after with
  | nil => nofun
  | cons c rest =>
      rw [numberTail_cons] at h
      split at h
      · cases h
      · rename_i hc
        rintro d ⟨⟩
        simp only [Bool.or_eq_true, not_or] at hc
        exact Bool.eq_false_iff.2 hc.1

theorem isDigit_of_numberTail {after : List Char} (h : (numberTail after).1 = []) :
    after.head?.any Char.isDigit = false := by
  cases after with
  | nil => rfl
  | cons c rest =>
      have hs := stops_of_numberTail h c rfl
      rw [List.head?_cons, Option.any_some]
      refine Bool.eq_false_iff.2 fun hd => ?_
      rw [isIdentifierTail_of_isDigit hd] at hs
      cases hs

theorem numberTail_of_nil {after : List Char} (h : (numberTail after).1 = []) :
    numberTail after = ([], after) := by
  have ha := numberTail_append after
  rw [h, List.nil_append] at ha
  exact Prod.ext h ha

/-- A number does not see what follows it, as long as it ends there. -/
theorem numberTail_swap {tail first after : List Char}
    (h : numberTail (tail ++ first) = (tail, first)) :
    numberTail (tail ++ after) = (tail, after) ↔ (numberTail after).1 = [] := by
  induction tail with
  | nil => exact ⟨fun ha => by rw [List.nil_append] at ha; rw [ha], numberTail_of_nil⟩
  | cons c tail ih =>
      rw [List.cons_append, numberTail_cons] at h
      split at h
      · rename_i hc
        have ht : numberTail (tail ++ first) = (tail, first) := by
          injection h with h₁ h₂
          injection h₁ with _ h₁
          exact Prod.ext h₁ h₂
        have hn : (isIdentifierTail c || (c == '.' && (tail ++ after).head?.any Char.isDigit)) =
            true := by
          cases tail with
          | nil =>
              have hs := isDigit_of_numberTail (congrArg Prod.fst ht)
              rw [List.nil_append] at hs
              rw [List.nil_append, hs, Bool.and_false, Bool.or_false] at hc
              rw [hc, Bool.true_or]
          | cons d tail => exact hc
        rw [List.cons_append, numberTail_cons, if_pos hn, ← ih ht]
        constructor
        · intro ha
          injection ha with h₁ h₂
          injection h₁ with _ h₁
          exact Prod.ext h₁ h₂
        · intro ha
          rw [ha]
      · cases h

/-- The first of the characters after a slash makes a comment of it. -/
def opensComment (after : List Char) : Bool :=
  after.head?.any fun c => c == '/' || c == '*'

theorem operatorTail_cons (c : Char) (rest : List Char) :
    operatorTail (c :: rest) =
      if (!isOperatorChar c || (c == '/' && opensComment rest)) = true then ([], c :: rest)
      else (c :: (operatorTail rest).1, (operatorTail rest).2) := by
  rw [operatorTail]
  rfl

theorem operatorTail_of_nil {after : List Char} (h : (operatorTail after).1 = []) :
    operatorTail after = ([], after) := by
  have ha := operatorTail_append after
  rw [h, List.nil_append] at ha
  exact Prod.ext h ha

/-- An operator does not see what follows it, as long as it ends there. -/
theorem operatorTail_swap {tail first after : List Char}
    (h : operatorTail (tail ++ first) = (tail, first)) :
    operatorTail (tail ++ after) = (tail, after) ↔
      (operatorTail after).1 = [] ∧ (tail.getLast? = some '/' → opensComment after = false) := by
  induction tail with
  | nil =>
      constructor
      · intro ha
        rw [List.nil_append] at ha
        exact ⟨by rw [ha], nofun⟩
      · exact fun ha => operatorTail_of_nil ha.1
  | cons c tail ih =>
      rw [List.cons_append, operatorTail_cons] at h
      split at h
      · cases h
      · rename_i hc
        have ht : operatorTail (tail ++ first) = (tail, first) := by
          injection h with h₁ h₂
          injection h₁ with _ h₁
          exact Prod.ext h₁ h₂
        have hp : operatorTail (c :: (tail ++ after)) = (c :: tail, after) ↔
            ¬(!isOperatorChar c || (c == '/' && opensComment (tail ++ after))) = true ∧
              operatorTail (tail ++ after) = (tail, after) := by
          rw [operatorTail_cons]
          split
          · exact ⟨nofun, fun ha => absurd ‹_› ha.1⟩
          · constructor
            · intro ha
              injection ha with h₁ h₂
              injection h₁ with _ h₁
              exact ⟨‹_›, Prod.ext h₁ h₂⟩
            · rintro ⟨-, ha⟩
              rw [ha]
        rw [List.cons_append, hp, ih ht]
        simp only [Bool.or_eq_true, Bool.and_eq_true, not_or, not_and, Bool.not_eq_true,
          beq_iff_eq] at hc ⊢
        cases tail with
        | nil =>
            simp only [List.nil_append, List.getLast?_nil, reduceCtorEq, false_implies, and_true,
              List.getLast?_singleton, Option.some.injEq]
            exact ⟨fun ha => ⟨ha.2, ha.1.2⟩, fun ha => ⟨⟨hc.1, ha.2⟩, ha.1⟩⟩
        | cons d tail =>
            rw [List.getLast?_cons_cons]
            exact ⟨fun ha => ha.2, fun ha => ⟨hc, ha⟩⟩

/-- What a first character makes of what follows it. -/
inductive Dispatch (c : Char) : Prop
  | space : isSpace c = true →
      (∀ rest, next c rest =
        .ok { token := .whitespace (String.ofList (c :: rest.takeWhile isSpace))
              rest := rest.dropWhile isSpace }) → Dispatch c
  | lineFeed : c = '\n' →
      (∀ rest, next c rest = .ok { token := .linebreak .lf, rest, lines := 1 }) → Dispatch c
  | carriageReturn : c = '\r' → (∀ rest, next c rest = .ok (carriageReturn rest)) → Dispatch c
  | slash : c = '/' → (∀ rest, next c rest = afterSlash rest) → Dispatch c
  | quote : c = '"' → (∀ rest, next c rest = afterQuote rest) → Dispatch c
  | backquote : c = '\x60' → (∀ rest, next c rest = afterBackquote rest) → Dispatch c
  | digit : c.isDigit = true →
      (∀ rest, next c rest =
        .ok { token := .number (String.ofList (c :: (numberTail rest).1))
              rest := (numberTail rest).2 }) → Dispatch c
  | name : isIdentifierHead c = true → c ≠ '\x60' →
      (∀ rest, next c rest =
        .ok { token := .identifier (String.ofList (c :: rest.takeWhile isIdentifierTail))
              rest := rest.dropWhile isIdentifierTail }) → Dispatch c
  | sign : isOperatorChar c = true → c ≠ '/' →
      (∀ rest, next c rest =
        .ok { token := .operator (String.ofList (c :: (operatorTail rest).1))
              rest := (operatorTail rest).2 }) → Dispatch c
  | punctuation {token : Token} : punctuation? c = some token →
      (∀ rest, next c rest = .ok { token, rest }) → Dispatch c
  | other : isOperatorChar c = false → isSpace c = false → isLineEnd c = false →
      (∀ rest, next c rest = .ok { token := .operator c.toString, rest }) → Dispatch c

theorem dispatch (c : Char) : Dispatch c := by
  by_cases hs : isSpace c = true
  · exact .space hs fun rest => by rw [next, if_pos hs]
  by_cases hn : c = '\n'
  · exact .lineFeed hn fun rest => by rw [next, if_neg hs, if_pos hn]
  by_cases hr : c = '\r'
  · exact .carriageReturn hr fun rest => by rw [next, if_neg hs, if_neg hn, if_pos hr]
  by_cases hc : c = '/'
  · exact .slash hc fun rest => by rw [next, if_neg hs, if_neg hn, if_neg hr, if_pos hc]
  by_cases hq : c = '"'
  · exact .quote hq fun rest => by
      rw [next, if_neg hs, if_neg hn, if_neg hr, if_neg hc, if_pos hq]
  by_cases hb : c = '\x60'
  · exact .backquote hb fun rest => by
      rw [next, if_neg hs, if_neg hn, if_neg hr, if_neg hc, if_neg hq, if_pos hb]
  obtain ⟨sign, he, hs', hn'⟩ : ∃ sign : List Char → Except SyntaxFault Step,
      (∀ rest, next c rest = if c.isDigit then
          .ok { token := .number (String.ofList (c :: (numberTail rest).1))
                rest := (numberTail rest).2 }
        else if isIdentifierHead c then
          .ok { token := .identifier (String.ofList (c :: rest.takeWhile isIdentifierTail))
                rest := rest.dropWhile isIdentifierTail }
        else if isOperatorChar c then
          .ok { token := .operator (String.ofList (c :: (operatorTail rest).1))
                rest := (operatorTail rest).2 }
        else sign rest) ∧
      (∀ token, punctuation? c = some token → ∀ rest, sign rest = .ok { token, rest }) ∧
      (punctuation? c = none → ∀ rest, sign rest = .ok { token := .operator c.toString, rest }) :=
    ⟨_, fun rest => (if_neg hs).trans ((if_neg hn).trans ((if_neg hr).trans ((if_neg hc).trans
        ((if_neg hq).trans (if_neg hb))))),
      fun token hp rest => by rw [hp], fun hp rest => by rw [hp]⟩
  by_cases hd : c.isDigit = true
  · exact .digit hd fun rest => by rw [he, if_pos hd]
  by_cases hi : isIdentifierHead c = true
  · exact .name hi hb fun rest => by rw [he, if_neg hd, if_pos hi]
  by_cases ho : isOperatorChar c = true
  · exact .sign ho hc fun rest => by rw [he, if_neg hd, if_neg hi, if_pos ho]
  cases hp : punctuation? c with
  | some token =>
      exact .punctuation hp fun rest => by
        rw [he, if_neg hd, if_neg hi, if_neg ho, hs' token hp]
  | none =>
      refine .other (Bool.eq_false_iff.2 ho) (Bool.eq_false_iff.2 hs) ?_ fun rest => by
        rw [he, if_neg hd, if_neg hi, if_neg ho, hn' hp]
      simp [isLineEnd, hn, hr]

/-- What follows does not go on with the token. -/
def Ends (token : Token) (after : List Char) : Prop :=
  match token with
  | .whitespace _ => Stops isSpace after
  | .linebreak .cr => after.head? ≠ some '\n'
  | .identifier name => name.toList.head? ≠ some '\x60' → Stops isIdentifierTail after
  | .number _ => (numberTail after).1 = []
  | .stringLiteral text => text = "\"\"" → after.head? ≠ some '"'
  | .operator text => text.toList.head?.any isOperatorChar = true →
      (operatorTail after).1 = [] ∧
        (text.toList.getLast? = some '/' → opensComment after = false)
  | .lineComment _ => Stops (!isLineEnd ·) after
  | _ => True

/-- The token is read where its characters come before these. -/
def Scans (token : Token) (after : List Char) : Prop :=
  ∃ c more lines, token.chars = c :: more ∧ next c (more ++ after) = .ok { token, rest := after, lines }

/-- What a class of characters takes is what is before the end, exactly if it ends there. -/
theorem takeWhile_iff {p : Char → Bool} {inside first after : List Char}
    (h : (inside ++ first).takeWhile p = inside) :
    ((inside ++ after).takeWhile p, (inside ++ after).dropWhile p) = (inside, after) ↔
      Stops p after := by
  have hi : ∀ c ∈ inside, p c = true := by
    rw [← h]
    exact fun c hm => List.mem_takeWhile_imp hm
  constructor
  · intro ha
    have hs := stops_dropWhile p (inside ++ after)
    rwa [(Prod.mk.inj ha).2] at hs
  · exact fun ha => Prod.ext (ha.takeWhile_append hi) (ha.dropWhile_append hi)

/-- A token made of what was taken is the one before the end, exactly if that was taken. -/
theorem step_iff {wrap : List Char → Token} (hw : Function.Injective wrap)
    {taken rest more after : List Char} :
    (∃ lines, (.ok { token := wrap taken, rest } : Except SyntaxFault Step) =
        .ok { token := wrap more, rest := after, lines }) ↔ (taken, rest) = (more, after) := by
  constructor
  · rintro ⟨lines, h⟩
    injection h with h
    injection h with ht hr
    exact Prod.ext (hw ht) hr
  · intro h
    cases h
    exact ⟨0, rfl⟩

/-- What a class of characters takes makes the token, exactly if it ends there. -/
theorem takeStep_iff {wrap : List Char → Token} (hw : Function.Injective wrap) {p : Char → Bool}
    {more first : List Char} (h : (more ++ first).takeWhile p = more) (after : List Char) :
    (∃ lines, (.ok { token := wrap ((more ++ after).takeWhile p)
                     rest := (more ++ after).dropWhile p } : Except SyntaxFault Step) =
        .ok { token := wrap more, rest := after, lines }) ↔ Stops p after := by
  rw [← takeWhile_iff h]
  exact step_iff hw

theorem ofList_cons_injective {wrap : String → Token} (hw : Function.Injective wrap)
    (before : List Char) : Function.Injective fun more => wrap (String.ofList (before ++ more)) :=
  fun _ _ h => List.append_cancel_left (String.ofList_injective (hw h))

theorem scans_iff {token : Token} {c : Char} {more : List Char} (hc : token.chars = c :: more)
    (after : List Char) :
    Scans token after ↔ ∃ lines, next c (more ++ after) = .ok { token, rest := after, lines } := by
  constructor
  · rintro ⟨d, other, lines, hd, hn⟩
    cases hc.symm.trans hd
    exact ⟨lines, hn⟩
  · rintro ⟨lines, hn⟩
    exact ⟨c, more, lines, hc, hn⟩

section
variable {token : Token} {more first : List Char} {lines : Nat}

theorem carriageReturn_swap (hc : token.chars = '\r' :: more)
    (h : carriageReturn (more ++ first) = { token, rest := first, lines }) (after : List Char) :
    (∃ lines, carriageReturn (more ++ after) = { token, rest := after, lines }) ↔
      Ends token after := by
  unfold carriageReturn at h
  split at h
  · injection h with ht hr
    subst ht hr
    have hm : more = ['\n'] := by simpa [Linebreak.chars, eq_comm] using hc
    subst hm
    exact iff_of_true ⟨1, rfl⟩ trivial
  · injection h with ht hr
    subst ht
    have hm : more = [] := by simpa [Linebreak.chars] using hc
    subst hm
    simp only [List.nil_append, Ends]
    unfold carriageReturn
    split
    · exact iff_of_false (by rintro ⟨lines, h⟩; cases h) (fun hn => hn rfl)
    · rename_i hn
      refine iff_of_true ⟨1, rfl⟩ fun hh => ?_
      obtain ⟨following, he⟩ := List.head?_eq_some_iff.1 hh
      exact hn following he

theorem afterBackquote_swap (hc : token.chars = '\x60' :: more)
    (h : afterBackquote (more ++ first) = .ok { token, rest := first, lines }) (after : List Char) :
    (∃ lines, afterBackquote (more ++ after) = .ok { token, rest := after, lines }) ↔
      Ends token after := by
  unfold afterBackquote at h
  split at h
  · rename_i following hd
    injection h with h
    injection h with ht hr
    subst ht hr
    have hm := (List.cons.inj (hc.symm.trans String.toList_ofList)).2
    have hn : ∀ d ∈ (more ++ following).takeWhile isEscapedChar, isEscapedChar d = true :=
      fun d hm => List.mem_takeWhile_imp hm
    generalize (more ++ following).takeWhile isEscapedChar = name at hm hn ⊢
    subst hm
    have hs : Stops isEscapedChar ('\x60' :: after) := by
      rintro d ⟨⟩
      rfl
    have he : afterBackquote (name ++ ['\x60'] ++ after) =
        .ok { token := .identifier (String.ofList ('\x60' :: (name ++ ['\x60']))), rest := after } := by
      rw [List.append_assoc, List.singleton_append, afterBackquote, hs.dropWhile_append hn,
        hs.takeWhile_append hn]
      rfl
    refine iff_of_true ⟨0, he⟩ fun hh => ?_
    rw [String.toList_ofList] at hh
    exact absurd rfl hh
  · cases h

theorem quotedString_ne_nil {state : QuoteState} {source : List Char} {lexeme : Lexeme}
    (h : quotedString state source = .ok lexeme) : lexeme.chars ≠ [] := by
  intro hn
  have hb := quotedString_before h []
  rw [hn] at hb
  cases state <;> simp [quotedString] at hb

/-- A quote right after the opening one closes the string. -/
theorem quotedString_quote (rest : List Char) :
    quotedString (.text []) ('"' :: rest) = .ok { chars := ['"'], rest } := by
  rw [quotedString]

/-- The only string that another quote goes on with is the empty one. -/
theorem emptyString_swap (after : List Char) :
    (∃ lines, afterQuote ('"' :: after) =
        .ok { token := .stringLiteral "\"\"", rest := after, lines }) ↔
      after.head? ≠ some '"' := by
  unfold afterQuote
  split
  · rename_i body hq
    cases hq
    refine iff_of_false ?_ fun hn => hn rfl
    rintro ⟨lines, h⟩
    split at h
    · injection h with h
      injection h with ht
      injection ht with ht
      have hl := congrArg (fun text => text.toList) ht
      rw [String.toList_ofList] at hl
      exact absurd hl (by simp)
    · cases h
  · rename_i hq
    refine iff_of_true ⟨0, by rw [quotedString_quote]⟩ fun hn => ?_
    obtain ⟨body, rfl⟩ := List.head?_eq_some_iff.1 hn
    exact hq body rfl

theorem afterQuote_swap (hc : token.chars = '"' :: more)
    (h : afterQuote (more ++ first) = .ok { token, rest := first, lines }) (after : List Char) :
    (∃ lines, afterQuote (more ++ after) = .ok { token, rest := after, lines }) ↔
      Ends token after := by
  unfold afterQuote at h
  split at h
  · split at h
    · rename_i lexeme hl
      injection h with h
      injection h with ht
      subst ht
      have hm := (List.cons.inj (hc.symm.trans String.toList_ofList)).2
      have hb := multilineString?_before hl after
      subst hm
      refine iff_of_true ⟨lexeme.lines, ?_⟩ fun he => ?_
      · rw [List.cons_append, List.cons_append, afterQuote, hb]
        rfl
      · have hl := congrArg (fun text => text.toList) he
        rw [String.toList_ofList] at hl
        exact absurd hl (by simp)
    · cases h
  · rename_i hq
    split at h
    · rename_i lexeme hl
      injection h with h
      injection h with ht
      subst ht
      have hm := (List.cons.inj (hc.symm.trans String.toList_ofList)).2
      have hb := quotedString_before hl after
      subst hm
      cases hd : lexeme.chars with
      | nil => exact absurd hd (quotedString_ne_nil hl)
      | cons d inside =>
          rw [hd] at hb hl
          by_cases he : d = '"'
          · subst he
            rw [List.cons_append, quotedString_quote] at hl
            injection hl with hl
            subst hl
            cases hd
            rw [List.singleton_append, emptyString_swap]
            exact ⟨fun ha _ => ha, fun ha => ha rfl⟩
          · refine iff_of_true ⟨0, ?_⟩ fun ht => ?_
            · rw [afterQuote, hb]
              · rw [← hd]
                rfl
              · rintro body hf
                exact he (List.cons.inj hf).1
            · have hl := congrArg (fun text => text.toList) ht
              rw [String.toList_ofList] at hl
              exact absurd (List.cons.inj (List.cons.inj hl).2).1 he
    · cases h

theorem afterSlash_operator {rest : List Char} (h : opensComment rest = false) :
    afterSlash rest =
      .ok { token := .operator (String.ofList ('/' :: (operatorTail rest).1))
            rest := (operatorTail rest).2 } := by
  unfold afterSlash
  split
  · cases h
  · cases h
  · rfl

theorem isComment_of_afterSlash {rest : List Char} {step : Step} (ho : opensComment rest = true)
    (h : afterSlash rest = .ok step) :
    step.token.isComment = true ∧ step.token.chars ≠ ['/'] := by
  unfold afterSlash at h
  split at h
  · cases h
    exact ⟨rfl, by simp [Token.chars, Token.text]⟩
  · split at h
    · cases h
      exact ⟨rfl, by simp [Token.chars, Token.text]⟩
    · cases h
  · rename_i hs hb
    cases rest with
    | nil => cases ho
    | cons c rest =>
        rw [opensComment, List.head?_cons, Option.any_some, Bool.or_eq_true, beq_iff_eq,
          beq_iff_eq] at ho
        rcases ho with rfl | rfl
        · exact absurd rfl (hs rest)
        · exact absurd rfl (hb rest)

theorem cons_pair_iff {c : Char} {taken rest other after : List Char} :
    (c :: taken, rest) = (c :: other, after) ↔ (taken, rest) = (other, after) := by
  simp

/-- An operator is read exactly if it is what the characters of operators reach. -/
theorem operator_swap {c : Char} (hf : operatorTail (c :: (more ++ first)) = (c :: more, first))
    (after : List Char) :
    operatorTail (c :: (more ++ after)) = (c :: more, after) ↔
      Ends (.operator (String.ofList (c :: more))) after := by
  have hc : isOperatorChar c = true := by
    rw [operatorTail_cons] at hf
    split at hf
    · cases hf
    · rename_i hn
      simp only [Bool.or_eq_true, Bool.not_eq_true', not_or, Bool.not_eq_false] at hn
      exact hn.1
  rw [← List.cons_append] at hf ⊢
  rw [operatorTail_swap hf, Ends, String.toList_ofList, List.head?_cons, Option.any_some]
  exact ⟨fun ha _ => ha, fun ha => ha hc⟩

theorem slashOperator_swap
    (h : afterSlash (more ++ first) =
      .ok { token := .operator (String.ofList ('/' :: more)), rest := first, lines })
    (after : List Char) :
    (∃ lines, afterSlash (more ++ after) =
        .ok { token := .operator (String.ofList ('/' :: more)), rest := after, lines }) ↔
      Ends (.operator (String.ofList ('/' :: more))) after := by
  have hw : Function.Injective fun more => Token.operator (String.ofList ('/' :: more)) :=
    ofList_cons_injective (fun _ _ he => Token.operator.inj he) ['/']
  have ht : ∀ rest, opensComment rest = false →
      operatorTail ('/' :: rest) = ('/' :: (operatorTail rest).1, (operatorTail rest).2) := by
    intro rest ho
    rw [operatorTail_cons, ho]
    rfl
  have hf : opensComment (more ++ first) = false := by
    refine Bool.eq_false_iff.2 fun ho => ?_
    cases (isComment_of_afterSlash ho h).1
  have hm := (step_iff hw).1 ⟨lines, (afterSlash_operator hf).symm.trans h⟩
  rw [← operator_swap (by rw [ht _ hf, cons_pair_iff, hm])]
  cases ho : opensComment (more ++ after) with
  | true =>
      refine iff_of_false ?_ ?_
      · rintro ⟨lines, h⟩
        cases (isComment_of_afterSlash ho h).1
      · rw [operatorTail_cons, ho]
        exact nofun
  | false =>
      rw [afterSlash_operator ho, ht _ ho, cons_pair_iff, step_iff hw]

theorem lineComment_swap
    (hc : token.chars = '/' :: '/' :: more)
    (h : afterSlash ('/' :: (more ++ first)) = .ok { token, rest := first, lines })
    (after : List Char) :
    (∃ lines, afterSlash ('/' :: (more ++ after)) = .ok { token, rest := after, lines }) ↔
      Ends token after := by
  have hw : Function.Injective fun more => Token.lineComment (String.ofList ('/' :: '/' :: more)) :=
    ofList_cons_injective (fun _ _ he => Token.lineComment.inj he) ['/', '/']
  rw [afterSlash] at h ⊢
  injection h with h
  injection h with ht
  subst ht
  have hm := (List.cons.inj (List.cons.inj (hc.symm.trans String.toList_ofList)).2).2.symm
  rw [hm, Ends]
  exact takeStep_iff hw hm after

theorem blockComment_swap
    (hc : token.chars = '/' :: '*' :: more)
    (h : afterSlash ('*' :: (more ++ first)) = .ok { token, rest := first, lines })
    (after : List Char) :
    (∃ lines, afterSlash ('*' :: (more ++ after)) = .ok { token, rest := after, lines }) ↔
      Ends token after := by
  rw [afterSlash] at h ⊢
  split at h
  · rename_i lexeme hl
    injection h with h
    injection h with ht
    subst ht
    have hm := (List.cons.inj (List.cons.inj (hc.symm.trans String.toList_ofList)).2).2
    have hb := blockComment?_before hl after
    subst hm
    rw [hb]
    exact iff_of_true ⟨lexeme.lines, rfl⟩ trivial
  · cases h

theorem afterSlash_swap (hc : token.chars = '/' :: more)
    (h : afterSlash (more ++ first) = .ok { token, rest := first, lines }) (after : List Char) :
    (∃ lines, afterSlash (more ++ after) = .ok { token, rest := after, lines }) ↔
      Ends token after := by
  cases hf : opensComment (more ++ first) with
  | false =>
      have he := h
      rw [afterSlash_operator hf] at he
      injection he with he
      injection he with ht
      subst ht
      have hm := (List.cons.inj (hc.symm.trans String.toList_ofList)).2
      rw [← hm] at h ⊢
      exact slashOperator_swap h after
  | true =>
      cases more with
      | nil => exact absurd hc (isComment_of_afterSlash hf h).2
      | cons c more =>
          rw [List.cons_append, opensComment, List.head?_cons, Option.any_some, Bool.or_eq_true,
            beq_iff_eq, beq_iff_eq] at hf
          rcases hf with rfl | rfl
          · exact lineComment_swap hc h after
          · exact blockComment_swap hc h after

end

/-- Whether a token is read before other characters is a matter of where it ends. -/
theorem Scans.iff_ends {token : Token} {first : List Char} (h : Scans token first)
    (after : List Char) : Scans token after ↔ Ends token after := by
  obtain ⟨c, more, lines, hc, hn⟩ := h
  rw [scans_iff hc]
  cases dispatch c with
  | space hs hd =>
      rw [hd] at hn ⊢
      injection hn with hn
      injection hn with ht
      subst ht
      have hm := (List.cons.inj (hc.symm.trans String.toList_ofList)).2.symm
      rw [hm, Ends]
      exact takeStep_iff (ofList_cons_injective (fun _ _ he => Token.whitespace.inj he) [c]) hm after
  | lineFeed hs hd =>
      rw [hd] at hn ⊢
      injection hn with hn
      injection hn with ht
      subst ht
      have hm : more = [] := by simpa [Linebreak.chars, hs] using hc
      subst hm
      exact iff_of_true ⟨1, rfl⟩ trivial
  | carriageReturn hs hd =>
      subst hs
      simp only [hd, Except.ok.injEq] at hn ⊢
      exact carriageReturn_swap hc hn after
  | slash hs hd =>
      subst hs
      rw [hd] at hn ⊢
      exact afterSlash_swap hc hn after
  | quote hs hd =>
      subst hs
      rw [hd] at hn ⊢
      exact afterQuote_swap hc hn after
  | backquote hs hd =>
      subst hs
      rw [hd] at hn ⊢
      exact afterBackquote_swap hc hn after
  | digit hs hd =>
      rw [hd] at hn ⊢
      have hw : Function.Injective fun more => Token.number (String.ofList (c :: more)) :=
        ofList_cons_injective (fun _ _ he => Token.number.inj he) [c]
      have he := hn
      injection he with he
      injection he with ht
      subst ht
      have hm := (List.cons.inj (hc.symm.trans String.toList_ofList)).2.symm
      rw [hm] at hn ⊢
      have hf : numberTail (more ++ first) = (more, first) :=
        (step_iff hw).1 ⟨lines, by rw [hm]; exact hn⟩
      rw [Ends, ← numberTail_swap hf]
      exact step_iff hw
  | name hs hb hd =>
      rw [hd] at hn ⊢
      injection hn with hn
      injection hn with ht
      subst ht
      have hm := (List.cons.inj (hc.symm.trans String.toList_ofList)).2.symm
      rw [hm, Ends, String.toList_ofList, List.head?_cons]
      have hw : Function.Injective fun more => Token.identifier (String.ofList (c :: more)) :=
        ofList_cons_injective (fun _ _ he => Token.identifier.inj he) [c]
      refine (takeStep_iff hw hm after).trans ?_
      exact ⟨fun ha _ => ha, fun ha => ha fun he => hb (Option.some.inj he)⟩
  | sign hs hb hd =>
      rw [hd] at hn ⊢
      have hw : Function.Injective fun more => Token.operator (String.ofList (c :: more)) :=
        ofList_cons_injective (fun _ _ he => Token.operator.inj he) [c]
      have ht : ∀ rest, operatorTail (c :: rest) =
          (c :: (operatorTail rest).1, (operatorTail rest).2) := fun rest => by
        simp [operatorTail_cons, hs, hb]
      have he := hn
      injection he with he
      injection he with hk
      subst hk
      have hm := (List.cons.inj (hc.symm.trans String.toList_ofList)).2.symm
      rw [hm] at hn ⊢
      have hf : operatorTail (more ++ first) = (more, first) :=
        (step_iff hw).1 ⟨lines, by rw [hm]; exact hn⟩
      rw [← operator_swap (by rw [ht, hf]), ht, cons_pair_iff]
      exact step_iff hw
  | punctuation hs hd =>
      rw [hd] at hn ⊢
      injection hn with hn
      injection hn with ht
      subst ht
      have hm : more = [] := by simpa [punctuation?_chars hs] using hc.symm
      subst hm
      refine iff_of_true ⟨0, rfl⟩ ?_
      unfold punctuation? at hs
      split at hs <;> cases hs <;> trivial
  | other ho _ _ hd =>
      rw [hd] at hn ⊢
      injection hn with hn
      injection hn with ht
      subst ht
      have hm : more = [] := by simpa [Token.chars, Token.text] using hc.symm
      subst hm
      refine iff_of_true ⟨0, rfl⟩ fun hk => ?_
      simp [ho] at hk

theorem ends_nil (token : Token) : Ends token [] := by
  unfold Ends
  split <;> simp [Stops, numberTail, operatorTail, opensComment]

end SourceStyle.Lexer
