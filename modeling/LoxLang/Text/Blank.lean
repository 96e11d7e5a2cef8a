import LoxLang.Text.CodeRange

/-!
# White space

The characters with the Unicode property of white space, and the text that is left when they are removed
from both ends. The set has not changed since Unicode 6.3.
-/

namespace LoxLang.Text

/-- The code points of white space. -/
def blankRanges : CodeRanges :=
  [(0x09, 0x0D), (0x20, 0x20), (0x85, 0x85), (0xA0, 0xA0), (0x1680, 0x1680), (0x2000, 0x200A),
   (0x2028, 0x2029), (0x202F, 0x202F), (0x205F, 0x205F), (0x3000, 0x3000)]

/-- Whether a character is white space. -/
def isBlank (c : Char) : Bool := blankRanges.has c

/-- A text without the white space at its ends. -/
def trimBlank (text : List Char) : List Char :=
  ((text.dropWhile isBlank).reverse.dropWhile isBlank).reverse

end LoxLang.Text
