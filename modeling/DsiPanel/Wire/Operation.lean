import DsiPanel.Bytes

/-!
# Operations

One step of a panel's command sequence: what is sent, on which virtual channel, with which marks,
and how long to wait after it. The fields take any value; the channel is cut to its two bits where
it goes onto the wire, and an operation whose payload passes the length field has no wire form.
-/

namespace DsiPanel

/-- The count of bytes before the payload of a frame. -/
def headerSize : Nat := 7

/-- The places of the header's fields: opcode, last mark, virtual channel, acknowledgement, wait,
payload length. -/
def headerOffsets : List Nat := [0, 1, 2, 3, 4, 5]

/-- The bits of a virtual channel. -/
def channelMask : UInt8 := 3

/-- The longest payload that the two bytes of the length field can give. -/
def maxPayload : Nat := 65535

/-- One step of a command sequence. -/
structure Operation where
  opcode : UInt8
  /-- The last packet of its group. -/
  last : Bool := false
  channel : UInt8 := 0
  /-- An acknowledgement is asked for. -/
  ack : Bool := false
  /-- Milliseconds to wait after the step. -/
  wait : UInt8 := 0
  payload : Bytes := []
deriving DecidableEq, Repr

/-- A mark as a byte. -/
def markByte (mark : Bool) : UInt8 := if mark then 1 else 0

namespace Operation

def withWait (op : Operation) (wait : UInt8) : Operation := { op with wait }

def withLast (op : Operation) (last : Bool) : Operation := { op with last }

def withAck (op : Operation) (ack : Bool) : Operation := { op with ack }

/-- The operation on a channel, of which only the two low bits count. -/
def withChannel (op : Operation) (channel : UInt8) : Operation :=
  { op with channel := channel &&& channelMask }

def commandByte? (op : Operation) : Option UInt8 := op.payload.head?

def arguments (op : Operation) : Bytes := op.payload.tail

def header (op : Operation) : Bytes :=
  [op.opcode, markByte op.last, op.channel &&& channelMask, markByte op.ack, op.wait] ++
    Bytes.bigEndian16 op.payload.length

/-- The frame of the operation, if the length field can give the length of its payload. -/
def wire? (op : Operation) : Option Bytes :=
  if op.payload.length ≤ maxPayload then some (op.header ++ op.payload) else none

end Operation

/-- The frames of the operations one after another, if each of them has one. -/
def wireAll? (operations : List Operation) : Option Bytes :=
  (operations.mapM Operation.wire?).map List.flatten

end DsiPanel
