import DsiPanel.Dcs.Command
import DsiPanel.Kernel.Delay
import DsiPanel.Kernel.Feature
import DsiPanel.Text.Wrapped
import DsiPanel.Wire.Transaction

/-!
# Statements

What a function of a panel driver does for one operation, before it is text: a call whose result is
checked, a write of bytes, or a comment where nothing is sent, and the sleep after it. Text is made
of a statement only at the end and for a width. Everything else that is asked of a statement, the
features it needs and whether it opens a block, is read off the action and not off the text.

The text uses the handle `dsi`, the device `dev` and the variable `ret`.
-/

namespace DsiPanel

/-- A call whose result is checked. -/
structure Call where
  function : String
  /-- The arguments after the handle. -/
  arguments : List String
  /-- The name of what is done, for the message on failure. -/
  subject : String
deriving DecidableEq, Repr

/-- Which of the two write functions sends the bytes. -/
inductive WriteFamily where
  | generic
  | dcs
deriving DecidableEq, Repr

/-- The write function of the family. -/
def WriteFamily.function : WriteFamily → String
  | generic => "mipi_dsi_generic_write_seq"
  | dcs => "mipi_dsi_dcs_write_seq"

/-- What is done for an operation. -/
inductive Action where
  | call (call : Call)
  /-- The bytes are sent as they are. -/
  | writeBytes (family : WriteFamily) (payload : Bytes)
  /-- The bytes are sent after a command that is given by its name. -/
  | writeCommand (command : DcsCommand) (arguments : Bytes)
  /-- Nothing is sent for a transaction that a driver has no use for. -/
  | ignored (transaction : Transaction)
  /-- Nothing is sent for an opcode that is no transaction. -/
  | unknown (opcode : UInt8)
deriving DecidableEq, Repr

/-- An action and the sleep after it. -/
structure Statement where
  action : Action
  /-- The milliseconds to sleep. -/
  delay : Option Nat
deriving DecidableEq, Repr

/-! ## Text -/

/-- The frame of an argument list after `head`. -/
def argumentFrame (head : String) : ListFrame :=
  { opening := head, separator := ",", closing := ");" }

/-- A name in plain words. -/
def inWords (name : String) : String :=
  String.ofList (name.toList.map fun c => if c = '_' then ' ' else c.toLower)

namespace Call

/-- The call itself; a wrapped list of arguments starts on a line of its own. -/
def line (width : Nat) (c : Call) : String :=
  (argumentFrame s!"\tret = {c.function}(").render (some 1) width ("dsi" :: c.arguments)

/-- The block that reports a failure and gives it to the caller. -/
def check (c : Call) : String :=
  "\tif (ret < 0) \x7b\n\t\tdev_err(dev, \"Failed to " ++ inWords c.subject ++
    ": %d\\n\", ret);\n\t\treturn ret;\n\t\x7d"

end Call

/-- The write of literals; in a wrapped list those after the first start on a line of their own. -/
def writeLine (family : WriteFamily) (literals : List String) (width : Nat) : String :=
  (argumentFrame s!"\t{family.function}(").render (some 2) width ("dsi" :: literals)

namespace Action

def text (width : Nat) : Action → String
  | call c => c.line width ++ "\n" ++ c.check
  | writeBytes family payload => writeLine family (byteLiterals payload) width
  | writeCommand command arguments =>
    writeLine .dcs (command.identifier :: byteLiterals arguments) width
  | ignored transaction => s!"\t// WARNING: Ignoring weird {transaction.name}"
  | unknown opcode => s!"\t// FIXME: unknown transaction type {byteLiteral opcode}"

/-- The text holds a block in braces. -/
def opensBlock : Action → Bool
  | call _ => true
  | _ => false

/-- The features that the action needs. -/
def features : Action → Features
  | call _ => { returnValue := true, deviceHandle := true }
  | writeCommand _ _ => { displayHeader := true }
  | _ => .empty

end Action

namespace Statement

def text (width : Nat) (s : Statement) : String :=
  match s.delay with
  | none => s.action.text width
  | some ms => s.action.text width ++ "\n" ++ delayLine ms

def opensBlock (s : Statement) : Bool := s.action.opensBlock

def features (s : Statement) : Features :=
  s.action.features.union { delay := s.delay.isSome }

end Statement

end DsiPanel
