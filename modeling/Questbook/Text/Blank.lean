/-
Questbook/Text/Blank.lean

White space.  A character is blank when it has the Unicode property `White_Space`: twenty-five
code points, of which core's `Char.isWhitespace` knows four.  Authored lines are split, trimmed
and scanned by this class.
-/

namespace Questbook.Text

/-- Whether a character has the Unicode property `White_Space`. -/
def isBlank (c : Char) : Bool :=
  let n := c.toNat
  (9 ≤ n && n ≤ 13) || n == 0x20 || n == 0x85 || n == 0xA0 || n == 0x1680 ||
    (0x2000 ≤ n && n ≤ 0x200A) || n == 0x2028 || n == 0x2029 || n == 0x202F || n == 0x205F ||
    n == 0x3000

end Questbook.Text
