import LoxLang.Text.CodeRange

/-!
# Characters for which nothing is shown

The characters with the Unicode property Default_Ignorable_Code_Point: a display that does not know their
effect leaves them out. Most are format characters; some, such as the fillers of Hangul, are letters. The
ranges are those of Unicode 17.0, with the code points that are reserved for such characters.
-/

namespace LoxLang.Text

/-- The code points of ignorable characters. -/
def ignorableRanges : CodeRanges :=
  [(0xAD, 0xAD), (0x34F, 0x34F), (0x61C, 0x61C), (0x115F, 0x1160), (0x17B4, 0x17B5),
   (0x180B, 0x180F), (0x200B, 0x200F), (0x202A, 0x202E), (0x2060, 0x206F), (0x3164, 0x3164),
   (0xFE00, 0xFE0F), (0xFEFF, 0xFEFF), (0xFFA0, 0xFFA0), (0xFFF0, 0xFFF8), (0x1BCA0, 0x1BCA3),
   (0x1D173, 0x1D17A), (0xE0000, 0xE0FFF)]

theorem ignorableRanges_ascend : ignorableRanges.ascendsFrom 0x80 = true := by decide +kernel

/-- Whether nothing is shown for a character. -/
def isIgnorable (c : Char) : Bool := ignorableRanges.has c

end LoxLang.Text
