import DsiPanel.Note.Basic

/-!
# Logs

A log writes the notes of a run as they are given, one line each, and passes over those that its
directives do not ask for. How directives are read, and how a line looks, is the log's own business:
a line may tell the time, so it may differ between two notes that say the same. Text that is no list
of directives counts as none, and without directives everything is written that is not told for
debugging.
-/

namespace DsiPanel

/-- A log, by what it makes of directives and of notes. -/
structure Log where
  /-- Which notes a list of directives asks for. -/
  reads? : String → Option (Note → Bool)
  /-- The line of a note that is the given one of its run. -/
  line : Nat → Note → String

namespace Log

/-- The log that writes nothing, whatever it is asked for. -/
def off : Log where
  reads? _ := none
  line _ _ := ""

/-- Which notes are written where no directives are given. -/
def usual (note : Note) : Bool := note.level != .debug

def writes (log : Log) (directives : Option String) : Note → Bool :=
  (directives.bind log.reads?).getD usual

/-- The text of the given note of a run. -/
def entry (log : Log) (directives : Option String) (index : Nat) (note : Note) : String :=
  if log.writes directives note then log.line index note else ""

/-- The text of all notes of a run. -/
def text (log : Log) (directives : Option String) (notes : List Note) : String :=
  String.join (notes.zipIdx.map fun (note, index) => log.entry directives index note)

end Log

end DsiPanel
