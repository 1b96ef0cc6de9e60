/-!
# Settings

What a user may choose about the generated text. The record holds any numbers; where settings come
from outside, a width of zero is refused.
-/

namespace DsiPanel

structure Settings where
  /-- Waits of at most this many milliseconds are left out. -/
  ignoreWait : Nat := 0
  /-- Call by name only the commands that every panel treats alike. -/
  conservative : Bool := false
  /-- The width of a line of driver text in columns. -/
  wrapWidth : Nat := 80
deriving DecidableEq, Repr

/-- The settings where nothing is chosen. -/
def Settings.standard : Settings := {}

end DsiPanel
