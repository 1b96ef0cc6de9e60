import DsiPanel.Bootloader.Packet
import DsiPanel.Sequence.Basic
import DsiPanel.Text.Wrapped

/-!
# Bootloader tables

A sequence as a bootloader holds it: an array with the packet of each operation, then a table with
a row for each array that gives its size, its name and the wait after it. Arrays and table are
named for the panel and the sequence.
-/

namespace DsiPanel

/-- The width of a line of packet bytes in columns. -/
def packetLineWidth : Nat := 54

/-- The name of the array of operation `index`. -/
def arrayName (panel sequence : String) (index : Nat) : String := s!"{panel}_{sequence}_cmd_{index}"

/-- The frame of the bytes of an array. -/
def packetFrame : ListFrame := { opening := "\t", separator := ",", closing := "" }

def packetBody (packet : Bytes) : String :=
  packetFrame.render none packetLineWidth (byteLiterals packet)

def packetArray (name : String) (packet : Bytes) : String :=
  s!"static char {name}[] = " ++ "\x7b\n" ++ packetBody packet ++ "\n\x7d;\n"

def tableRow (name : String) (wait : UInt8) : String :=
  "\t\x7b sizeof(" ++ name ++ "), " ++ name ++ ", " ++ toString wait.toNat ++ " \x7d,\n"

/-- An operation as the table holds it. -/
structure TableEntry where
  name : String
  packet : Bytes
  wait : UInt8
deriving DecidableEq, Repr

/-- The entries of a sequence, or the error of the first operation that has no packet. -/
def CommandSequence.tableEntries (panel : String) (s : CommandSequence) :
    Except SynthesisError (List TableEntry) :=
  s.operations.zipIdx.mapM fun (op, index) => do
    let packet ← op.packet index
    pure { name := arrayName panel s.name index, packet, wait := op.wait }

def CommandSequence.table (panel : String) (s : CommandSequence) : Except SynthesisError String := do
  let entries ← s.tableEntries panel
  let arrays := String.join (entries.map fun e => packetArray e.name e.packet)
  let rows := String.join (entries.map fun e => tableRow e.name e.wait)
  let head := s!"static struct mipi_dsi_cmd {panel}_{s.name}_command[] = " ++ "\x7b\n"
  pure (arrays ++ "\n" ++ head ++ rows ++ "\x7d;")

end DsiPanel
