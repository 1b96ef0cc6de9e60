import DsiPanel.Dcs.Resolution
import DsiPanel.Kernel.Feature
import DsiPanel.Sequence.SignalingMode
import DsiPanel.Wire.Operation
import DsiPanel.Wire.Transaction

/-!
# Notes

What is told on the way to a result: each note is the fact that it tells, and its wording is made
from the fact. A note never changes a result. Warnings are the notes that a reader of the generated
text should see; what a run has read is told for its user, and all else for debugging.
-/

namespace DsiPanel

inductive NoteLevel where
  | debug
  | info
  | warn
deriving DecidableEq, Repr

def NoteLevel.name : NoteLevel → String
  | debug => "DEBUG"
  | info => "INFO"
  | warn => "WARN"

inductive Note where
  /-- The payload of operation `index` had `declared` bytes, of which `kept` are kept. -/
  | truncated (index : Nat) (transaction : Transaction) (declared kept : Nat) (dropped : Bytes)
  | decoded (sequence : String) (opcode : UInt8) (length : Nat)
  /-- A sequence was given no array at all. -/
  | noArrays (sequence : String)
  /-- A mode property is no text. -/
  | modeNotText (raw : Bytes)
  /-- A mode property is taken for an index. -/
  | modeIndex (index : Nat) (mode : SignalingMode)
  /-- A mode property is taken for nothing, and the mode is the standard one. -/
  | modeFallback
  | mismatch (found : Mismatch)
  /-- The strategy by which operation `index` is turned into text. -/
  | strategy (index : Nat) (transaction : Transaction)
  | unknownOpcode (index : Nat) (opcode : UInt8) (payload : Bytes)
  /-- A DCS write sends no byte. -/
  | emptyPayload (transaction : Transaction)
  | ignored (transaction : Transaction)
  /-- A whole sequence has its text. -/
  | synthesized (sequence : String) (count : Nat) (features : Features)
  | noSettingsFile (path : String)
  /-- A run has its bytes and its mode, and goes on to decode them. -/
  | decoding (sequence : String) (count : Nat) (mode : SignalingMode)
  /-- The operation at `index` of a sequence that was decoded in a run. -/
  | listed (index : Nat) (op : Operation)
deriving DecidableEq, Repr

/-- The features of a set as messages list them. -/
def Features.listing (set : Features) : String :=
  "\x7b" ++ String.intercalate ", " (set.toList.map Feature.name) ++ "\x7d"

namespace Note

def level : Note → NoteLevel
  | truncated .. | decoded .. | strategy .. | synthesized .. | noSettingsFile .. => .debug
  | decoding .. | listed .. => .info
  | noArrays .. | modeNotText .. | modeIndex .. | modeFallback | mismatch .. | unknownOpcode ..
  | emptyPayload .. | ignored .. => .warn

def message : Note → String
  | truncated index transaction declared kept dropped =>
    s!"Operation {index}: truncating {transaction.name} payload from {declared} to {kept} bytes " ++
      s!"(dropped: {Bytes.toHex dropped})"
  | decoded sequence opcode length =>
    s!"{sequence}: decoded transaction {byteLiteral opcode} with {length} payload bytes"
  | noArrays sequence => s!"{sequence} command sequence has no command arrays"
  | modeNotText raw => s!"command state is not a null terminated string: {Bytes.toHex raw}"
  | modeIndex index mode =>
    s!"Interpreting command state as numeric index: {index} == {mode.vendorName}"
  | modeFallback => s!"Falling back to {SignalingMode.standard.vendorName}"
  | mismatch found => s!"{found.message}. Consider conservative DCS matching"
  | strategy index transaction =>
    s!"Operation {index}: {transaction.name} ({byteLiteral transaction.opcode}) " ++
      s!"via {transaction.strategy.name}"
  | unknownOpcode index opcode payload =>
    s!"Operation {index}: {(DecodeError.unknownTransaction opcode).message}, " ++
      s!"payload {Bytes.toHex payload}"
  | emptyPayload transaction => s!"Empty {transaction.name} payload"
  | ignored transaction => s!"Ignoring weird {transaction.name}"
  | synthesized sequence count features =>
    s!"{sequence} sequence: {count} operations, features {features.listing}"
  | noSettingsFile path => s!"No config file at {path}, using defaults"
  | decoding sequence count mode =>
    s!"Decoding {count} bytes as {sequence} sequence ({mode.vendorName})"
  | listed index op =>
    let name := ((Transaction.ofOpcode? op.opcode).map Transaction.name).getD "UNKNOWN"
    s!"  [{index}] {name} ({byteLiteral op.opcode}) last={op.last} vc={op.channel} " ++
      s!"ack={op.ack} wait={op.wait}ms payload={Bytes.toHex op.payload}"

end Note

end DsiPanel
