import DsiPanel.Text.Hexadecimal

/-!
# Argument codecs

How the argument bytes of a display command are written as literals of the generated text: byte by
byte, as integers of a fixed width and byte order, or as the name of a tear mode.

An integer is gathered in 64 bits, so of a width above eight only the last eight bytes count. Bytes
that do not fill a whole integer after the first are left out; fewer bytes than one integer make
one literal of what there is. Integers of no bytes at all are a fault, whatever the input.
-/

namespace DsiPanel

inductive ByteOrder where
  | big
  | little
deriving DecidableEq, Repr

/-- When a panel signals its vertical blanking. -/
inductive TearMode where
  /-- At the vertical blanking alone. -/
  | vertical
  /-- At the vertical and the horizontal blanking. -/
  | verticalAndHorizontal
deriving DecidableEq, Repr

namespace TearMode

def ofByte? (b : UInt8) : Option TearMode :=
  if b = 0 then some vertical else if b = 1 then some verticalAndHorizontal else none

/-- The name of the mode in the display headers. -/
def identifier : TearMode → String
  | vertical => "MIPI_DSI_DCS_TEAR_MODE_VBLANK"
  | verticalAndHorizontal => "MIPI_DSI_DCS_TEAR_MODE_VHBLANK"

end TearMode

/-- Why argument bytes have no literals. -/
inductive ArgumentFault where
  | invalidTearMode (value : UInt8)
  | missingValue
  /-- Integers of no bytes were asked for. -/
  | zeroWidth
deriving DecidableEq, Repr

def ArgumentFault.message : ArgumentFault → String
  | invalidTearMode value => s!"{value.toNat} is not a valid TearMode"
  | missingValue => "missing value"
  | zeroWidth => "integer width is zero"

/-- How argument bytes become literals. -/
inductive ArgumentCodec where
  /-- A literal for each byte. -/
  | bytes
  /-- A literal for each group of `width` bytes. -/
  | integers (width : Nat) (order : ByteOrder)
  /-- The name of a tear mode. -/
  | tearMode
deriving DecidableEq, Repr

/-- The integer that the bytes make in 64 bits. -/
def gatherInteger (order : ByteOrder) (bytes : Bytes) : UInt64 :=
  let ordered := match order with
    | .big => bytes
    | .little => bytes.reverse
  ordered.foldl (fun sum b => (sum <<< 8) ||| b.toUInt64) 0

/-- The first `count` groups of `width` bytes. -/
def groupsOf (width : Nat) : Nat → Bytes → List Bytes
  | 0, _ => []
  | count + 1, bytes => bytes.take width :: groupsOf width count (bytes.drop width)

/-- The literals of the integers that the bytes hold. -/
def integerLiterals (width : Nat) (order : ByteOrder) (bytes : Bytes) : List String :=
  let groups :=
    if bytes.length < width then [bytes] else groupsOf width (bytes.length / width) bytes
  groups.map fun group => hexLiteral width (gatherInteger order group).toNat

/-- The literals of argument bytes. -/
def ArgumentCodec.decode : ArgumentCodec → Bytes → Except ArgumentFault (List String)
  | bytes, arguments => .ok (byteLiterals arguments)
  | integers 0 _, _ => .error .zeroWidth
  | integers width order, arguments => .ok (integerLiterals width order arguments)
  | tearMode, [] => .error .missingValue
  | tearMode, value :: _ =>
    match TearMode.ofByte? value with
    | some mode => .ok [mode.identifier]
    | none => .error (.invalidTearMode value)

end DsiPanel
