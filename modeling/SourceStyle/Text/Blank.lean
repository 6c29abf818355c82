import SourceStyle.Text.CodePoints

/-!
White space: the code points with the White_Space property, and trimming at the end of a text.
-/

namespace SourceStyle.Text

def blankRanges : CodePointRanges :=
  [
   (0x9, 0xD), (0x20, 0x20), (0x85, 0x85), (0xA0, 0xA0), (0x1680, 0x1680), (0x2000, 0x200A),
   (0x2028, 0x2029), (0x202F, 0x202F), (0x205F, 0x205F), (0x3000, 0x3000)]

def isBlank (c : Char) : Bool :=
  blankRanges.contains c

def trimEnd (text : List Char) : List Char :=
  (text.reverse.dropWhile isBlank).reverse

end SourceStyle.Text
