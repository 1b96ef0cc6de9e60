import DsiPanel.SynthesisError
import DsiPanel.Wire.Operation

/-!
# Bootloader packets

An operation as a bootloader's display driver sends it: four bytes for a short packet, and for a
long one four bytes, the payload and as many `0xff` as the next multiple of four asks for.

```text
long:  count low, count high, type, flags, payload, filling
short: data, data, type, flags
```

The type byte holds the opcode and, in its two high bits, the virtual channel. The flags are the
acknowledgement, a long packet and the last packet of a group.
-/

namespace DsiPanel

/-- A packet takes a multiple of this many bytes. -/
def packetAlignment : Nat := 4

def fillByte : UInt8 := 0xff

/-- The payload bytes that a short packet has room for. -/
def shortPayload : Nat := 2

def packetFlags (ack long last : Bool) : UInt8 :=
  (if ack then 0x20 else 0) ||| (if long then 0x40 else 0) ||| (if last then 0x80 else 0)

/-- The opcode and the channel in one byte. -/
def typeByte (opcode channel : UInt8) : UInt8 := opcode ||| (channel <<< 6)

/-- The count of bytes that fill a packet of `length` bytes up. -/
def fillCount (length : Nat) : Nat := (packetAlignment - length % packetAlignment) % packetAlignment

/-- The type and flags of an operation. -/
def Operation.packetMarks (op : Operation) (transaction : Transaction) : Bytes :=
  [typeByte transaction.opcode op.channel, packetFlags op.ack transaction.isLong op.last]

def Operation.longPacket (op : Operation) (transaction : Transaction) : Bytes :=
  Bytes.littleEndian16 op.payload.length ++ op.packetMarks transaction ++ op.payload ++
    List.replicate (fillCount op.payload.length) fillByte

/-- The short packet of an operation, its payload filled up with zeros. -/
def Operation.shortPacket (op : Operation) (transaction : Transaction) : Bytes :=
  [op.payload[0]?.getD 0, op.payload[1]?.getD 0] ++ op.packetMarks transaction

def Operation.packet (index : Nat) (op : Operation) : Except SynthesisError Bytes :=
  match Transaction.ofOpcode? op.opcode with
  | none => .error (.decode (.unknownTransaction op.opcode))
  | some transaction =>
    if transaction.isLong then
      if op.payload.length ≤ maxPayload then .ok (op.longPacket transaction)
      else .error (.payloadTooLong index op.payload.length)
    else if op.payload.length ≤ shortPayload then .ok (op.shortPacket transaction)
    else .error (.shortOverflow index op.payload.length)

end DsiPanel
