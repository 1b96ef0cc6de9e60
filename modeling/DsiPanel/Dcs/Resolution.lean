import DsiPanel.Dcs.Command

/-!
# Resolving a DCS payload

The first byte of a DCS write may name a display command. The payload is resolved to that command
when the byte is known, conservative matching lets the command through, the count of bytes after it
fits and they have literals. The first of these that fails leaves the payload unresolved. An
unknown byte and a held-back command are no fault; a wrong count and arguments without literals
are told as a mismatch, and the payload can then still be written byte by byte.
-/

namespace DsiPanel

/-- What keeps a payload from the command that its first byte names. -/
inductive Mismatch where
  /-- The command does not take `count` argument bytes. -/
  | arity (command : DcsCommand) (count : Nat)
  /-- The argument bytes have no literals. -/
  | undecodable (command : DcsCommand) (arguments : Bytes) (fault : ArgumentFault)
deriving DecidableEq, Repr

namespace Mismatch

def command : Mismatch → DcsCommand
  | arity command _ => command
  | undecodable command _ _ => command

def message : Mismatch → String
  | arity command count =>
    s!"DCS command {command.name} with incorrect argument count " ++
      s!"(expected: {command.arity.describe}, is: {count})"
  | undecodable command arguments fault =>
    s!"DCS command {command.name} with invalid arguments {Bytes.toHex arguments}: {fault.message}"

end Mismatch

/-- What a DCS payload resolves to. -/
inductive Resolution where
  | matched (command : DcsCommand) (arguments : List String)
  | unmatched (mismatch : Option Mismatch)
deriving DecidableEq, Repr

def Resolution.mismatch? : Resolution → Option Mismatch
  | matched _ _ => none
  | unmatched mismatch => mismatch

/-- The command and argument literals of a DCS payload, the command byte first in it. -/
def resolve (conservative : Bool) : Bytes → Resolution
  | [] => .unmatched none
  | opcode :: arguments =>
    match DcsCommand.ofOpcode? opcode with
    | none => .unmatched none
    | some command =>
      if conservative && !command.isConservative then .unmatched none
      else if !command.arity.accepts arguments.length then
        .unmatched (some (.arity command arguments.length))
      else
        match command.codec.decode arguments with
        | .ok literals => .matched command literals
        | .error fault => .unmatched (some (.undecodable command arguments fault))

end DsiPanel
