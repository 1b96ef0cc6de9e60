import DsiPanel.Bytes

/-!
# Transactions

The data types of MIPI DSI packets that a host sends to a peripheral. Each row of the table gives
the opcode, the name, the bound on the payload and the way in which driver text is made from such a
packet. A short packet is told from a long one by its opcode alone: the low four bits of a long
one are nine or more (`Transaction.isLong`).

Looking an opcode up is all that is decided here. Whether text can be made of a transaction is a
later question, and an opcode without a row is no fault of the reader.
-/

namespace DsiPanel

/-- How many payload bytes a transaction carries, the command byte included. -/
inductive PayloadLimit where
  | atMost (count : Nat)
  | unbounded
deriving DecidableEq, Repr

/-- The bytes of a payload that the limit keeps. -/
def PayloadLimit.cut : PayloadLimit → Bytes → Bytes
  | .atMost count, payload => payload.take count
  | .unbounded, payload => payload

/-- How driver text is made from a transaction. -/
inductive Strategy where
  /-- A generic write of all its bytes. -/
  | genericWrite
  /-- A DCS write, resolved against the command table. -/
  | commandWrite
  /-- Turning the peripheral on or shutting it down. -/
  | peripheralControl
  /-- Switching stream compression on or off. -/
  | compressionMode
  /-- A comment alone. -/
  | ignore
  /-- No driver text can stand for it. -/
  | unsupported
deriving DecidableEq, Repr

def Strategy.name : Strategy → String
  | genericWrite => "GenericWrite"
  | commandWrite => "NamedCommandWrite"
  | peripheralControl => "PeripheralControl"
  | compressionMode => "CompressionMode"
  | ignore => "Ignore"
  | unsupported => "Unsupported"

/-- The transactions from the host to the peripheral, by the low and then the high four bits of
their opcodes. -/
inductive Transaction where
  | vSyncStart
  | vSyncEnd
  | hSyncStart
  | hSyncEnd
  | colorModeOff
  | colorModeOn
  | shutdownPeripheral
  | turnOnPeripheral
  | genericShortWrite0Param
  | genericShortWrite1Param
  | genericShortWrite2Param
  | genericReadRequest0Param
  | genericReadRequest1Param
  | genericReadRequest2Param
  | dcsShortWrite
  | dcsShortWriteParam
  | dcsRead
  | executeQueue
  | compressionMode
  | setMaximumReturnPacketSize
  | endOfTransmission
  | nullPacket
  | blankingPacket
  | genericLongWrite
  | dcsLongWrite
  | pictureParameterSet
  | compressedPixelStream
  | looselyPackedPixelStreamYcbcr20
  | packedPixelStreamYcbcr24
  | packedPixelStreamYcbcr16
  | packedPixelStream30
  | packedPixelStream36
  | packedPixelStreamYcbcr12
  | packedPixelStream16
  | packedPixelStream18
  | pixelStream3Byte18
  | packedPixelStream24
deriving DecidableEq, Repr

structure TransactionRow where
  opcode : UInt8
  name : String
  limit : PayloadLimit
  strategy : Strategy

namespace Transaction

def row : Transaction → TransactionRow
  | vSyncStart => ⟨0x01, "V_SYNC_START", .unbounded, .unsupported⟩
  | vSyncEnd => ⟨0x11, "V_SYNC_END", .unbounded, .unsupported⟩
  | hSyncStart => ⟨0x21, "H_SYNC_START", .unbounded, .unsupported⟩
  | hSyncEnd => ⟨0x31, "H_SYNC_END", .unbounded, .unsupported⟩
  | colorModeOff => ⟨0x02, "COLOR_MODE_OFF", .unbounded, .unsupported⟩
  | colorModeOn => ⟨0x12, "COLOR_MODE_ON", .unbounded, .unsupported⟩
  | shutdownPeripheral => ⟨0x22, "SHUTDOWN_PERIPHERAL", .atMost 1, .peripheralControl⟩
  | turnOnPeripheral => ⟨0x32, "TURN_ON_PERIPHERAL", .atMost 1, .peripheralControl⟩
  | genericShortWrite0Param => ⟨0x03, "GENERIC_SHORT_WRITE_0_PARAM", .atMost 1, .genericWrite⟩
  | genericShortWrite1Param => ⟨0x13, "GENERIC_SHORT_WRITE_1_PARAM", .atMost 2, .genericWrite⟩
  | genericShortWrite2Param => ⟨0x23, "GENERIC_SHORT_WRITE_2_PARAM", .atMost 3, .genericWrite⟩
  | genericReadRequest0Param => ⟨0x04, "GENERIC_READ_REQUEST_0_PARAM", .unbounded, .unsupported⟩
  | genericReadRequest1Param => ⟨0x14, "GENERIC_READ_REQUEST_1_PARAM", .unbounded, .unsupported⟩
  | genericReadRequest2Param => ⟨0x24, "GENERIC_READ_REQUEST_2_PARAM", .unbounded, .unsupported⟩
  | dcsShortWrite => ⟨0x05, "DCS_SHORT_WRITE", .atMost 1, .commandWrite⟩
  | dcsShortWriteParam => ⟨0x15, "DCS_SHORT_WRITE_PARAM", .atMost 2, .commandWrite⟩
  | dcsRead => ⟨0x06, "DCS_READ", .unbounded, .unsupported⟩
  | executeQueue => ⟨0x16, "EXECUTE_QUEUE", .unbounded, .unsupported⟩
  | compressionMode => ⟨0x07, "COMPRESSION_MODE", .atMost 2, .compressionMode⟩
  | setMaximumReturnPacketSize => ⟨0x37, "SET_MAXIMUM_RETURN_PACKET_SIZE", .unbounded, .ignore⟩
  | endOfTransmission => ⟨0x08, "END_OF_TRANSMISSION", .unbounded, .unsupported⟩
  | nullPacket => ⟨0x09, "NULL_PACKET", .unbounded, .ignore⟩
  | blankingPacket => ⟨0x19, "BLANKING_PACKET", .unbounded, .unsupported⟩
  | genericLongWrite => ⟨0x29, "GENERIC_LONG_WRITE", .unbounded, .genericWrite⟩
  | dcsLongWrite => ⟨0x39, "DCS_LONG_WRITE", .unbounded, .commandWrite⟩
  | pictureParameterSet => ⟨0x0a, "PICTURE_PARAMETER_SET", .unbounded, .unsupported⟩
  | compressedPixelStream => ⟨0x0b, "COMPRESSED_PIXEL_STREAM", .unbounded, .unsupported⟩
  | looselyPackedPixelStreamYcbcr20 => ⟨0x0c, "LOOSELY_PACKED_PIXEL_STREAM_YCBCR20", .unbounded, .unsupported⟩
  | packedPixelStreamYcbcr24 => ⟨0x1c, "PACKED_PIXEL_STREAM_YCBCR24", .unbounded, .unsupported⟩
  | packedPixelStreamYcbcr16 => ⟨0x2c, "PACKED_PIXEL_STREAM_YCBCR16", .unbounded, .unsupported⟩
  | packedPixelStream30 => ⟨0x0d, "PACKED_PIXEL_STREAM_30", .unbounded, .unsupported⟩
  | packedPixelStream36 => ⟨0x1d, "PACKED_PIXEL_STREAM_36", .unbounded, .unsupported⟩
  | packedPixelStreamYcbcr12 => ⟨0x3d, "PACKED_PIXEL_STREAM_YCBCR12", .unbounded, .unsupported⟩
  | packedPixelStream16 => ⟨0x0e, "PACKED_PIXEL_STREAM_16", .unbounded, .unsupported⟩
  | packedPixelStream18 => ⟨0x1e, "PACKED_PIXEL_STREAM_18", .unbounded, .unsupported⟩
  | pixelStream3Byte18 => ⟨0x2e, "PIXEL_STREAM_3BYTE_18", .unbounded, .unsupported⟩
  | packedPixelStream24 => ⟨0x3e, "PACKED_PIXEL_STREAM_24", .unbounded, .unsupported⟩

def all : List Transaction :=
  [.vSyncStart, .vSyncEnd, .hSyncStart, .hSyncEnd, .colorModeOff, .colorModeOn, .shutdownPeripheral,
    .turnOnPeripheral, .genericShortWrite0Param, .genericShortWrite1Param, .genericShortWrite2Param,
    .genericReadRequest0Param, .genericReadRequest1Param, .genericReadRequest2Param, .dcsShortWrite,
    .dcsShortWriteParam, .dcsRead, .executeQueue, .compressionMode, .setMaximumReturnPacketSize,
    .endOfTransmission, .nullPacket, .blankingPacket, .genericLongWrite, .dcsLongWrite,
    .pictureParameterSet, .compressedPixelStream, .looselyPackedPixelStreamYcbcr20,
    .packedPixelStreamYcbcr24, .packedPixelStreamYcbcr16, .packedPixelStream30,
    .packedPixelStream36, .packedPixelStreamYcbcr12, .packedPixelStream16, .packedPixelStream18,
    .pixelStream3Byte18, .packedPixelStream24]

/-- The byte that stands for the transaction in a frame. -/
def opcode (t : Transaction) : UInt8 := t.row.opcode

def name (t : Transaction) : String := t.row.name

/-- The name of the transaction in the display headers. -/
def identifier (t : Transaction) : String := "MIPI_DSI_" ++ t.name

def limit (t : Transaction) : PayloadLimit := t.row.limit

def strategy (t : Transaction) : Strategy := t.row.strategy

/-- The packet carries a counted payload of its own after the header. -/
def isLong (t : Transaction) : Bool := decide (9 ≤ t.opcode &&& 0x0f)

def isCommandWrite (t : Transaction) : Bool := t.strategy = .commandWrite

def ofOpcode? (opcode : UInt8) : Option Transaction := all.find? (·.opcode == opcode)

theorem mem_all (t : Transaction) : t ∈ all := by
  cases t <;> decide

/-- No two rows share an opcode. -/
theorem ofOpcode?_opcode (t : Transaction) : ofOpcode? t.opcode = some t := by
  cases t <;> decide

theorem ofOpcode?_eq_some_iff (opcode : UInt8) (t : Transaction) :
    ofOpcode? opcode = some t ↔ t.opcode = opcode := by
  constructor
  · intro h
    simpa using List.find?_some h
  · rintro rfl
    exact ofOpcode?_opcode t

theorem opcode_injective {t u : Transaction} (h : t.opcode = u.opcode) : t = u := by
  have known := ofOpcode?_opcode t
  rw [h, ofOpcode?_opcode] at known
  exact (Option.some.inj known).symm

theorem ofOpcode?_eq_none_iff (opcode : UInt8) :
    ofOpcode? opcode = none ↔ ∀ t : Transaction, t.opcode ≠ opcode := by
  constructor
  · rintro unknown t rfl
    rw [ofOpcode?_opcode] at unknown
    contradiction
  · intro unknown
    cases known : ofOpcode? opcode with
    | none => rfl
    | some t => exact absurd ((ofOpcode?_eq_some_iff opcode t).mp known) (unknown t)

end Transaction

/-- The payload of a frame as an operation keeps it: cut to the bound of its transaction, and whole
under an opcode without a row. -/
def keptPayload (opcode : UInt8) (payload : Bytes) : Bytes :=
  match Transaction.ofOpcode? opcode with
  | some t => t.limit.cut payload
  | none => payload

theorem keptPayload_opcode (t : Transaction) (payload : Bytes) :
    keptPayload t.opcode payload = t.limit.cut payload := by
  simp only [keptPayload, Transaction.ofOpcode?_opcode]

theorem keptPayload_of_unknown {opcode : UInt8} (h : Transaction.ofOpcode? opcode = none)
    (payload : Bytes) : keptPayload opcode payload = payload := by
  simp only [keptPayload, h]

end DsiPanel
