import DeadCode.Text.Basic

/-!
# DeadCode.Text.Space

White space of the Unicode standard, and the words between it.
-/

namespace DeadCode.Text

/-- Whether `c` is white space. -/
def isSpace (c : Char) : Bool :=
  let n := c.toNat
  (9 ≤ n && n ≤ 13) || n == 0x20 || n == 0x85 || n == 0xA0 || n == 0x1680 ||
    (0x2000 ≤ n && n ≤ 0x200A) || n == 0x2028 || n == 0x2029 || n == 0x202F || n == 0x205F ||
    n == 0x3000

/-- Whether `c` is a space or a tab, the blanks that stay on a line. -/
def isBlank (c : Char) : Bool := c == ' ' || c == '\t'

/-- The text without white space at its ends. -/
def trim (cs : List Char) : List Char := trimWhile isSpace cs

/-- The words of a text: its non-empty pieces between white space. -/
def words (cs : List Char) : List (List Char) :=
  (splitWhere isSpace cs).filter fun word => !word.isEmpty

end DeadCode.Text
