/-!
# Argument counts

How many argument bytes a display command takes, the command byte itself not counted: any number,
or one of a few.
-/

namespace DsiPanel

/-- The argument counts that a command takes. -/
inductive Arity where
  | any
  | oneOf (counts : List Nat)
deriving DecidableEq, Repr

namespace Arity

def accepts : Arity → Nat → Bool
  | any, _ => true
  | oneOf counts, count => counts.contains count

/-- The counts in words. -/
def describe : Arity → String
  | any => "any"
  | oneOf counts => String.intercalate " or " (counts.map toString)

end Arity

end DsiPanel
