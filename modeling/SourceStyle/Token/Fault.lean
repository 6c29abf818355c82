import SourceStyle.Token

/-!
Reasons why source is refused, each on a line.
-/

namespace SourceStyle

inductive SyntaxFault where
  | unterminatedString
  | unterminatedInterpolation
  | unterminatedName
  | unterminatedComment
  | unexpected (bracket : Bracket)
  | unclosed (bracket : Bracket)
  | described (text : String)
deriving DecidableEq, Repr

def SyntaxFault.message : SyntaxFault → String
  | unterminatedString => "unterminated string literal"
  | unterminatedInterpolation => "unterminated string interpolation"
  | unterminatedName => "unterminated escaped identifier"
  | unterminatedComment => "unterminated block comment"
  | unexpected bracket => "unexpected '" ++ bracket.closeChar.toString ++ "'"
  | unclosed bracket => "unclosed '" ++ bracket.openChar.toString ++ "'"
  | described text => text

/-- A fault and the line it is reported on, counted from one. -/
structure SyntaxError where
  line : Nat
  fault : SyntaxFault
deriving DecidableEq, Repr

def SyntaxError.message (error : SyntaxError) : String :=
  error.fault.message ++ " on line " ++ toString error.line

end SourceStyle
