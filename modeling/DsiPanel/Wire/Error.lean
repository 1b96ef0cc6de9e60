import DsiPanel.Text.Hexadecimal

/-!
# Faults of vendor data

Why a command array, an opcode or a mode property cannot be read. The causes are told apart by
constructor; their wording is in one place.
-/

namespace DsiPanel

inductive DecodeError where
  /-- The frame of operation `index`, which starts at `offset`, is cut off. -/
  | truncated (index offset need available : Nat)
  /-- The frame of operation `index`, which starts at `offset`, names a channel past the third. -/
  | invalidChannel (index offset : Nat) (value : UInt8)
  | unknownTransaction (opcode : UInt8)
  | unknownMode (name : String)
deriving DecidableEq, Repr

def DecodeError.message : DecodeError → String
  | truncated index offset need available =>
    s!"Truncated sequence at operation {index} (offset {offset}): " ++
      s!"need {need} bytes, got {available}"
  | invalidChannel index offset value =>
    s!"Invalid virtual channel {value.toNat} at operation {index} (offset {offset}), must be 0-3"
  | unknownTransaction opcode => s!"Unknown transaction type: {byteLiteral opcode}"
  | unknownMode name => s!"Unknown signaling mode: {name}"

end DsiPanel
