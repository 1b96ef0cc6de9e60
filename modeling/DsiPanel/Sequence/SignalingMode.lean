import DsiPanel.Text.Utf8
import DsiPanel.Wire.Error

/-!
# Signaling modes

A sequence is sent at low power or at high speed. A vendor tree names the mode in a property, as
text that a zero byte ends. Text that names no mode is an error. Bytes that are no such text are
not: a big-endian index of four bytes is tried, and low power is what everything else means. Text
is tried first, so four bytes that are text are never taken for an index.
-/

namespace DsiPanel

inductive SignalingMode where
  | lowPower
  | highSpeed
deriving DecidableEq, Repr

namespace SignalingMode

/-- The modes in the order of their indices. -/
def all : List SignalingMode := [lowPower, highSpeed]

/-- The mode where none is given. -/
def standard : SignalingMode := lowPower

/-- The name of a mode in vendor trees. -/
def vendorName : SignalingMode → String
  | lowPower => "dsi_lp_mode"
  | highSpeed => "dsi_hs_mode"

/-- The name of a mode in interchange text. -/
def name : SignalingMode → String
  | lowPower => "LowPower"
  | highSpeed => "HighSpeed"

def ofVendorName? (text : String) : Option SignalingMode := all.find? (·.vendorName == text)

def ofName? (text : String) : Option SignalingMode := all.find? (·.name == text)

def ofIndex? (index : Nat) : Option SignalingMode := all[index]?

/-- The statement that puts the host into the mode. -/
def switchStatement : SignalingMode → String
  | lowPower => "\tdsi->mode_flags |= MIPI_DSI_MODE_LPM;"
  | highSpeed => "\tdsi->mode_flags &= ~MIPI_DSI_MODE_LPM;"

/-! ## The mode property -/

/-- The text of a property: not empty, and ended by its only zero byte. -/
def propertyText? (raw : Bytes) : Option String :=
  match raw.getLast? with
  | some 0 =>
    let text := raw.dropLast
    if text.isEmpty || text.contains 0 then none else decodeUtf8? text
  | _ => none

/-- The index of a property: four bytes, the most significant first. -/
def propertyIndex? : Bytes → Option Nat
  | [a, b, c, d] => some (Bytes.word a b * 65536 + Bytes.word c d)
  | _ => none

/-- The mode that a property gives by index. -/
def ofPropertyIndex? (raw : Bytes) : Option SignalingMode := (propertyIndex? raw).bind ofIndex?

def ofProperty (raw : Bytes) : Except DecodeError SignalingMode :=
  match propertyText? raw with
  | some text =>
    match ofVendorName? text with
    | some mode => .ok mode
    | none => .error (.unknownMode text)
  | none => .ok ((ofPropertyIndex? raw).getD standard)

end SignalingMode

end DsiPanel
