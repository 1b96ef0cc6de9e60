import DsiPanel.Dcs.Resolution
import DsiPanel.Kernel.Statement
import DsiPanel.Settings.Basic
import DsiPanel.SynthesisError
import DsiPanel.Wire.Operation

/-!
# From an operation to a statement

The strategy of its transaction says what is done for an operation. An opcode without a
transaction, a payload that resolves to no command and a payload that is missing all still have a
statement; only a transaction that a driver cannot send at all has none. Whether there is a
statement is decided by the opcode alone, never by the settings.
-/

namespace DsiPanel

/-- The call that stands for a write without any byte. -/
def emptyWrite (function : String) (transaction : Transaction) : Action :=
  .call { function, arguments := ["NULL", "0"], subject := transaction.name }

def genericAction (transaction : Transaction) (payload : Bytes) : Action :=
  if payload.isEmpty then emptyWrite "mipi_dsi_generic_write" transaction
  else .writeBytes .generic payload

/-- What is done for a DCS write: the helper of the command, the write of a named command, or the
bytes as they are. -/
def commandAction (conservative : Bool) (transaction : Transaction) (payload : Bytes) : Action :=
  match resolve conservative payload with
  | .matched command literals =>
    match command.helper? with
    | some function => .call { function, arguments := literals, subject := command.name }
    | none => .writeCommand command payload.tail
  | .unmatched _ =>
    if payload.isEmpty then emptyWrite "mipi_dsi_dcs_write_buffer" transaction
    else .writeBytes .dcs payload

/-- What is done to turn a peripheral on or to shut it down. -/
def peripheralAction (transaction : Transaction) : Action :=
  .call
    { function :=
        if transaction = .turnOnPeripheral then "mipi_dsi_turn_on_peripheral"
        else "mipi_dsi_shutdown_peripheral"
      arguments := []
      subject := transaction.name }

/-- What is done to switch compression: on, if the payload starts with a byte that is not zero. -/
def compressionAction (payload : Bytes) : Action :=
  let enable := payload.head?.any (· != 0)
  .call
    { function := "mipi_dsi_compression_mode"
      arguments := [if enable then "true" else "false"]
      subject := Transaction.compressionMode.name }

/-- What is done for a transaction with a payload, if a driver can send it. -/
def Transaction.action? (conservative : Bool) (payload : Bytes) (transaction : Transaction) :
    Option Action :=
  match transaction.strategy with
  | .genericWrite => some (genericAction transaction payload)
  | .commandWrite => some (commandAction conservative transaction payload)
  | .peripheralControl => some (peripheralAction transaction)
  | .compressionMode => some (compressionAction payload)
  | .ignore => some (.ignored transaction)
  | .unsupported => none

def Operation.action (conservative : Bool) (index : Nat) (op : Operation) :
    Except SynthesisError Action :=
  match Transaction.ofOpcode? op.opcode with
  | none => .ok (.unknown op.opcode)
  | some transaction =>
    match transaction.action? conservative op.payload with
    | some action => .ok action
    | none => .error (.unsupported index transaction)

/-- There is a statement for the operation: its opcode is not that of a transaction which a driver
cannot send. -/
def Operation.isSupported (op : Operation) : Bool :=
  match Transaction.ofOpcode? op.opcode with
  | none => true
  | some transaction => transaction.strategy != .unsupported

/-- The statement of the operation at `index`. -/
def Operation.statement (settings : Settings) (index : Nat) (op : Operation) :
    Except SynthesisError Statement := do
  let action ← op.action settings.conservative index
  pure { action, delay := effectiveDelay? settings.ignoreWait op.wait }

end DsiPanel
