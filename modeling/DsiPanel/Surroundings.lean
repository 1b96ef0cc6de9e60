import DsiPanel.Files
import DsiPanel.Note.Log

/-!
# Surroundings

What a program sees around it: variables, paths and a log. Whether something stands at a path is
a question of its own: a path may lead to something that cannot be read, and it may be that not even
this can be found out, because a directory on the way is closed or the path is too long. Then nothing
counts as being there.
-/

namespace DsiPanel

/-- What reading a path tells of whether something is there, where all that can go wrong on the way
is that nothing is found. -/
def isFound {α : Type} : Except ReadFault α → Bool
  | .ok _ => true
  | .error .isDirectory => true
  | .error _ => false

structure Surroundings where
  lookup : String → Option String
  read : String → Except ReadFault Bytes
  /-- Something is known to be at the path. -/
  isThere : String → Bool := fun path => isFound (read path)
  log : Log := .off

namespace Surroundings

/-- The variable with the directives of the log. -/
def logVariable : String := "RUST_LOG"

/-- What the log writes of the notes of a run. -/
def logged (around : Surroundings) (notes : List Note) : String :=
  around.log.text (around.lookup logVariable) notes

end Surroundings

end DsiPanel
