/-!
# Blank characters

The 25 code points with the Unicode property `White_Space`, and texts trimmed of them at both
ends. Numbers in variables and the tokens of a dump are told apart by this property, so it reaches
beyond the blanks of the first 128 code points.
-/

namespace DsiPanel

/-- The character has the property `White_Space`. -/
def isBlank (c : Char) : Bool :=
  let n := c.toNat
  (0x09 ≤ n && n ≤ 0x0d) || n == 0x20 || n == 0x85 || n == 0xa0 || n == 0x1680 ||
    (0x2000 ≤ n && n ≤ 0x200a) || n == 0x2028 || n == 0x2029 || n == 0x202f || n == 0x205f ||
    n == 0x3000

/-- The characters without the blanks before the first and after the last other character. -/
def trimBlanks (cs : List Char) : List Char :=
  ((cs.dropWhile isBlank).reverse.dropWhile isBlank).reverse

end DsiPanel
