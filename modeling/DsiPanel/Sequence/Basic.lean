import DsiPanel.Sequence.SignalingMode
import DsiPanel.Wire.Decode

/-!
# Command sequences

A named run of operations with the mode in which it is sent. A vendor tree may give its array in
several segments; they are one array, and a frame may start in one segment and end in the next.
-/

namespace DsiPanel

structure CommandSequence where
  name : String
  mode : SignalingMode
  operations : List Operation := []
deriving DecidableEq, Repr

namespace CommandSequence

def push (s : CommandSequence) (op : Operation) : CommandSequence :=
  { s with operations := s.operations ++ [op] }

def append (s : CommandSequence) (operations : List Operation) : CommandSequence :=
  { s with operations := s.operations ++ operations }

def clear (s : CommandSequence) : CommandSequence := { s with operations := [] }

def length (s : CommandSequence) : Nat := s.operations.length

def isEmpty (s : CommandSequence) : Bool := s.operations.isEmpty

/-- The milliseconds that all operations ask for, counted in 32 bits. -/
def totalWait (s : CommandSequence) : UInt32 :=
  s.operations.foldl (fun sum op => sum + op.wait.toUInt32) 0

/-- The sequence whose array is given in segments. -/
def decode (name : String) (mode : SignalingMode) (segments : List Bytes) :
    Except DecodeError CommandSequence := do
  let operations ← DsiPanel.decode segments.flatten
  pure { name, mode, operations }

end CommandSequence

end DsiPanel
