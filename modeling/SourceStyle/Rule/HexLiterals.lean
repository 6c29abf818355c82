import SourceStyle.Options
import SourceStyle.Text.LetterCase
import SourceStyle.Token

/-!
Letter case of hexadecimal literals.
-/

namespace SourceStyle.Rule

/-- The digits of a hexadecimal literal, without what marks it as one. -/
def hexDigits? : List Char → Option (List Char)
  | '0' :: 'x' :: digits | '0' :: 'X' :: digits => some digits
  | _ => none

theorem eq_of_hexDigits? {text digits : List Char} (h : hexDigits? text = some digits) :
    ∃ x, (x = 'x' ∨ x = 'X') ∧ text = '0' :: x :: digits := by
  unfold hexDigits? at h
  split at h
  · cases h
    exact ⟨'x', .inl rfl, rfl⟩
  · cases h
    exact ⟨'X', .inr rfl, rfl⟩
  · cases h

def recase (options : Options) (digits : List Char) : List Char :=
  if options.uppercaseHex then Text.upper digits else Text.lower digits

/-- The token with its digits in the wanted case, if it is a hexadecimal literal. -/
def recaseHex (options : Options) : Token → Token
  | .number text =>
    match hexDigits? text.toList with
    | some digits => .number (String.ofList ('0' :: 'x' :: recase options digits))
    | none => .number text
  | token => token

theorem recaseHex_of_some {options : Options} {text : String} {digits : List Char}
    (h : hexDigits? text.toList = some digits) :
    recaseHex options (.number text) =
      .number (String.ofList ('0' :: 'x' :: recase options digits)) := by
  simp only [recaseHex, h]

theorem recaseHex_of_none {options : Options} {text : String}
    (h : hexDigits? text.toList = none) :
    recaseHex options (.number text) = .number text := by
  simp only [recaseHex, h]

/-- Recasing gives a hexadecimal literal its digits in the wanted case and leaves every other token
as it is. -/
theorem recaseHex_cases (options : Options) (token : Token) :
    recaseHex options token = token ∨
      ∃ x digits, (x = 'x' ∨ x = 'X') ∧ token = .number (String.ofList ('0' :: x :: digits)) ∧
        recaseHex options token = .number (String.ofList ('0' :: 'x' :: recase options digits)) := by
  cases token with
  | number text =>
      cases hd : hexDigits? text.toList with
      | none => exact .inl (recaseHex_of_none hd)
      | some digits =>
          obtain ⟨x, hx, he⟩ := eq_of_hexDigits? hd
          refine .inr ⟨x, digits, hx, ?_, recaseHex_of_some hd⟩
          rw [← he, String.ofList_toList]
  | _ => exact .inl rfl

def hexLiterals (options : Options) (tokens : List Token) : List Token :=
  tokens.map (recaseHex options)

end SourceStyle.Rule
