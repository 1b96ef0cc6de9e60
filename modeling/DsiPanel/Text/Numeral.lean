import DsiPanel.Text.Blank

/-!
# Decimal numbers in variables and options

An unsigned number is a run of digits with at most one plus sign before it, and blanks around it
are passed over. A signed number may have either sign and no blanks. Leading zeros count for
nothing. A number outside the range asked for is no number.
-/

namespace DsiPanel

/-- The number that a non-empty run of decimal digits writes. -/
def readDigits? (cs : List Char) : Option Nat :=
  if !cs.isEmpty && cs.all Char.isDigit then some (Nat.ofDigitChars 10 cs 0) else none

/-- The characters without one leading plus sign. -/
def dropPlus : List Char → List Char
  | '+' :: cs => cs
  | cs => cs

/-- The unsigned number below `bound` that `text` writes. -/
def readUnsigned? (bound : Nat) (text : String) : Option Nat :=
  (readDigits? (dropPlus (trimBlanks text.toList))).filter (· < bound)

/-- The number that `text` writes with an optional sign. -/
def readSigned? (text : String) : Option Int :=
  match text.toList with
  | '-' :: cs => (readDigits? cs).map fun n => -(n : Int)
  | cs => (readDigits? (dropPlus cs)).map Int.ofNat

end DsiPanel
