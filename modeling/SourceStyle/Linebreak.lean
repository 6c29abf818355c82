/-!
Line terminators: the three spellings, counting them in a text and respelling them.
-/

namespace SourceStyle

inductive Linebreak where
  | cr
  | lf
  | crlf
deriving DecidableEq, Repr

namespace Linebreak

def chars : Linebreak → List Char
  | cr => ['\r']
  | lf => ['\n']
  | crlf => ['\r', '\n']

def text (ending : Linebreak) : String :=
  String.ofList ending.chars

def name : Linebreak → String
  | cr => "cr"
  | lf => "lf"
  | crlf => "crlf"

/-- The number of terminators in a text, where a carriage return and the line feed after it are one.
-/
def count : List Char → Nat
  | [] => 0
  | '\r' :: '\n' :: rest => count rest + 1
  | c :: rest => if c = '\r' ∨ c = '\n' then count rest + 1 else count rest

/-- The text with every terminator in the given spelling. -/
def respell (ending : Linebreak) : List Char → List Char
  | [] => []
  | '\r' :: '\n' :: rest => ending.chars ++ respell ending rest
  | c :: rest =>
    if c = '\r' ∨ c = '\n' then ending.chars ++ respell ending rest else c :: respell ending rest

theorem respell_cons_of_not {c : Char} (h : ¬(c = '\r' ∨ c = '\n')) (ending : Linebreak)
    (rest : List Char) : respell ending (c :: rest) = c :: respell ending rest := by
  rw [respell, if_neg h]
  rintro rest rfl
  exact absurd (.inl rfl) h

/-- A carriage return in front of a line feed adds nothing. -/
theorem respell_cr_cons (ending : Linebreak) (rest : List Char) :
    respell ending ('\r' :: rest) =
      if rest.head? = some '\n' then respell ending rest else ending.chars ++ respell ending rest := by
  cases rest with
  | nil => rfl
  | cons c rest =>
      by_cases hc : c = '\n'
      · subst hc
        simp [respell]
      · simp [respell, hc]

theorem respell_lf_cons (ending : Linebreak) (rest : List Char) :
    respell ending ('\n' :: rest) = ending.chars ++ respell ending rest := by
  simp [respell]

theorem head?_respell_cr_ne (text : List Char) : (respell .cr text).head? ≠ some '\n' := by
  fun_cases respell .cr text with
  | case1 => simp
  | case2 rest => simp [chars]
  | case3 c rest _ h => simp [chars]
  | case4 c rest _ h =>
      simp only [List.head?_cons, ne_eq, Option.some.injEq]
      exact fun hc => h (.inr hc)

theorem respell_chars_append (ending first : Linebreak) {rest : List Char}
    (h : first = .cr → rest.head? ≠ some '\n') :
    respell ending (first.chars ++ rest) = ending.chars ++ respell ending rest := by
  cases first with
  | cr =>
      cases rest with
      | nil => simp [chars, respell]
      | cons c rest =>
          have hc : c ≠ '\n' := by simpa using h rfl
          simp [chars, respell, hc]
  | lf => simp [chars, respell]
  | crlf => simp [chars, respell]

theorem respell_respell (ending first : Linebreak) (text : List Char) :
    respell ending (respell first text) = respell ending text := by
  fun_induction respell first text with
  | case1 => rfl
  | case2 rest ih =>
      rw [respell_chars_append ending first (by rintro rfl; exact head?_respell_cr_ne rest), ih]
      rfl
  | case3 c rest hn h ih =>
      rw [respell_chars_append ending first (by rintro rfl; exact head?_respell_cr_ne rest), ih,
        respell, if_pos h]
      exact hn
  | case4 c rest hn h ih =>
      rw [respell_cons_of_not h, respell_cons_of_not h, ih]

end Linebreak
end SourceStyle
