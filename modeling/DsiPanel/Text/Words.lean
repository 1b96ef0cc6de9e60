import DsiPanel.Text.Column
import DsiPanel.Text.Filling

/-!
# Words on lines

Items with one space or one line break between neighbours: a break where the space and the next
item would pass the width. Lines after the first are not indented, and every item, also an empty
one, has its own space or break.
-/

namespace DsiPanel

/-- A line takes an item after a space while it stays within `width`. -/
def wordRule (width : Nat) : FillRule String where
  breaks used word := decide (width < used + textWidth word + 1)
  grown used word := used + 1 + textWidth word
  fresh := textWidth

/-- The lines that the items are laid on. -/
def wordLines (width : Nat) (words : List String) : List (List String) :=
  (wordRule width).fill words

def fillWords (width : Nat) (words : List String) : String :=
  String.intercalate "\n" ((wordLines width words).map (String.intercalate " "))

end DsiPanel
