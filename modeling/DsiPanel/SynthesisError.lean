import DsiPanel.Wire.Error
import DsiPanel.Wire.Transaction

/-!
# Faults of generated text

Why no driver text or packet can stand for an operation. Faults of the vendor data are passed on as
they are; the others name the operation by its index in the sequence.
-/

namespace DsiPanel

inductive SynthesisError where
  | decode (error : DecodeError)
  /-- No driver text stands for the transaction. -/
  | unsupported (index : Nat) (transaction : Transaction)
  /-- A short packet has no room for the payload. -/
  | shortOverflow (index length : Nat)
  /-- The word count of a long packet cannot give the length of the payload. -/
  | payloadTooLong (index length : Nat)
deriving DecidableEq, Repr

def SynthesisError.message : SynthesisError → String
  | decode error => error.message
  | unsupported index transaction =>
    s!"Operation {index}: {transaction.name} ({byteLiteral transaction.opcode}) is not supported"
  | shortOverflow index length =>
    s!"Operation {index}: short packet payload too long ({length} bytes, max 2)"
  | payloadTooLong index length =>
    s!"Operation {index}: long packet payload too long ({length} bytes, max 65535)"

end DsiPanel
