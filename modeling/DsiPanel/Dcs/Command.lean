import DsiPanel.Dcs.Arity
import DsiPanel.Dcs.Codec

/-!
# Display commands

The commands of the MIPI display command set. Each row of the table gives the command byte, the
name, how many argument bytes the command takes, how they are written as literals and which
helper of the display headers performs it, if one does.

The three columns fit each other: a codec other than byte by byte stands only beside an arity that
gives it whole integers, or one byte for a tear mode.
-/

namespace DsiPanel

/-- The display commands, by their command bytes. -/
inductive DcsCommand where
  | nop
  | softReset
  | enterSleepMode
  | exitSleepMode
  | enterPartialMode
  | enterNormalMode
  | exitInvertMode
  | enterInvertMode
  | setGammaCurve
  | setDisplayOff
  | setDisplayOn
  | setColumnAddress
  | setPageAddress
  | writeMemoryStart
  | writeLut
  | readMemoryStart
  | setPartialRows
  | setPartialColumns
  | setScrollArea
  | setTearOff
  | setTearOn
  | setAddressMode
  | setScrollStart
  | exitIdleMode
  | enterIdleMode
  | setPixelFormat
  | writeMemoryContinue
  | set3dControl
  | readMemoryContinue
  | setVsyncTiming
  | setTearScanline
  | getScanline
  | setDisplayBrightness
  | writeControlDisplay
  | writePowerSave
  | setCabcMinBrightness
  | readDdbStart
  | readPpsStart
  | readDdbContinue
  | readPpsContinue
deriving DecidableEq, Repr

structure DcsRow where
  opcode : UInt8
  name : String
  arity : Arity
  codec : ArgumentCodec
  helper : Option String

namespace DcsCommand

def row : DcsCommand → DcsRow
  | nop => ⟨0x00, "NOP", .oneOf [0], .bytes, some "mipi_dsi_dcs_nop"⟩
  | softReset => ⟨0x01, "SOFT_RESET", .oneOf [0], .bytes, some "mipi_dsi_dcs_soft_reset"⟩
  | enterSleepMode => ⟨0x10, "ENTER_SLEEP_MODE", .oneOf [0], .bytes,
      some "mipi_dsi_dcs_enter_sleep_mode"⟩
  | exitSleepMode => ⟨0x11, "EXIT_SLEEP_MODE", .oneOf [0], .bytes,
      some "mipi_dsi_dcs_exit_sleep_mode"⟩
  | enterPartialMode => ⟨0x12, "ENTER_PARTIAL_MODE", .oneOf [0], .bytes, none⟩
  | enterNormalMode => ⟨0x13, "ENTER_NORMAL_MODE", .oneOf [0], .bytes, none⟩
  | exitInvertMode => ⟨0x20, "EXIT_INVERT_MODE", .oneOf [0], .bytes, none⟩
  | enterInvertMode => ⟨0x21, "ENTER_INVERT_MODE", .oneOf [0], .bytes, none⟩
  | setGammaCurve => ⟨0x26, "SET_GAMMA_CURVE", .oneOf [1], .bytes, none⟩
  | setDisplayOff => ⟨0x28, "SET_DISPLAY_OFF", .oneOf [0], .bytes,
      some "mipi_dsi_dcs_set_display_off"⟩
  | setDisplayOn => ⟨0x29, "SET_DISPLAY_ON", .oneOf [0], .bytes, some "mipi_dsi_dcs_set_display_on"⟩
  | setColumnAddress => ⟨0x2a, "SET_COLUMN_ADDRESS", .oneOf [4], .integers 2 .big,
      some "mipi_dsi_dcs_set_column_address"⟩
  | setPageAddress => ⟨0x2b, "SET_PAGE_ADDRESS", .oneOf [4], .integers 2 .big,
      some "mipi_dsi_dcs_set_page_address"⟩
  | writeMemoryStart => ⟨0x2c, "WRITE_MEMORY_START", .any, .bytes, none⟩
  | writeLut => ⟨0x2d, "WRITE_LUT", .any, .bytes, none⟩
  | readMemoryStart => ⟨0x2e, "READ_MEMORY_START", .any, .bytes, none⟩
  | setPartialRows => ⟨0x30, "SET_PARTIAL_ROWS", .any, .bytes, none⟩
  | setPartialColumns => ⟨0x31, "SET_PARTIAL_COLUMNS", .any, .bytes, none⟩
  | setScrollArea => ⟨0x33, "SET_SCROLL_AREA", .oneOf [6], .bytes, none⟩
  | setTearOff => ⟨0x34, "SET_TEAR_OFF", .oneOf [0], .bytes, some "mipi_dsi_dcs_set_tear_off"⟩
  | setTearOn => ⟨0x35, "SET_TEAR_ON", .oneOf [1], .tearMode, some "mipi_dsi_dcs_set_tear_on"⟩
  | setAddressMode => ⟨0x36, "SET_ADDRESS_MODE", .oneOf [1], .bytes, none⟩
  | setScrollStart => ⟨0x37, "SET_SCROLL_START", .oneOf [2], .bytes, none⟩
  | exitIdleMode => ⟨0x38, "EXIT_IDLE_MODE", .oneOf [0], .bytes, none⟩
  | enterIdleMode => ⟨0x39, "ENTER_IDLE_MODE", .oneOf [0], .bytes, none⟩
  | setPixelFormat => ⟨0x3a, "SET_PIXEL_FORMAT", .oneOf [1], .bytes,
      some "mipi_dsi_dcs_set_pixel_format"⟩
  | writeMemoryContinue => ⟨0x3c, "WRITE_MEMORY_CONTINUE", .any, .bytes, none⟩
  | set3dControl => ⟨0x3d, "SET_3D_CONTROL", .any, .bytes, none⟩
  | readMemoryContinue => ⟨0x3e, "READ_MEMORY_CONTINUE", .any, .bytes, none⟩
  | setVsyncTiming => ⟨0x40, "SET_VSYNC_TIMING", .any, .bytes, none⟩
  | setTearScanline => ⟨0x44, "SET_TEAR_SCANLINE", .oneOf [2], .integers 2 .big,
      some "mipi_dsi_dcs_set_tear_scanline"⟩
  | getScanline => ⟨0x45, "GET_SCANLINE", .any, .bytes, none⟩
  | setDisplayBrightness => ⟨0x51, "SET_DISPLAY_BRIGHTNESS", .oneOf [1, 2], .integers 2 .little,
      some "mipi_dsi_dcs_set_display_brightness"⟩
  | writeControlDisplay => ⟨0x53, "WRITE_CONTROL_DISPLAY", .oneOf [1], .bytes, none⟩
  | writePowerSave => ⟨0x55, "WRITE_POWER_SAVE", .oneOf [1], .bytes, none⟩
  | setCabcMinBrightness => ⟨0x5e, "SET_CABC_MIN_BRIGHTNESS", .any, .bytes, none⟩
  | readDdbStart => ⟨0xa1, "READ_DDB_START", .any, .bytes, none⟩
  | readPpsStart => ⟨0xa2, "READ_PPS_START", .any, .bytes, none⟩
  | readDdbContinue => ⟨0xa8, "READ_DDB_CONTINUE", .any, .bytes, none⟩
  | readPpsContinue => ⟨0xa9, "READ_PPS_CONTINUE", .any, .bytes, none⟩

def all : List DcsCommand :=
  [.nop, .softReset, .enterSleepMode, .exitSleepMode, .enterPartialMode, .enterNormalMode,
    .exitInvertMode, .enterInvertMode, .setGammaCurve, .setDisplayOff, .setDisplayOn,
    .setColumnAddress, .setPageAddress, .writeMemoryStart, .writeLut, .readMemoryStart,
    .setPartialRows, .setPartialColumns, .setScrollArea, .setTearOff, .setTearOn, .setAddressMode,
    .setScrollStart, .exitIdleMode, .enterIdleMode, .setPixelFormat, .writeMemoryContinue,
    .set3dControl, .readMemoryContinue, .setVsyncTiming, .setTearScanline, .getScanline,
    .setDisplayBrightness, .writeControlDisplay, .writePowerSave, .setCabcMinBrightness,
    .readDdbStart, .readPpsStart, .readDdbContinue, .readPpsContinue]

def opcode (c : DcsCommand) : UInt8 := c.row.opcode

def name (c : DcsCommand) : String := c.row.name

/-- The name of the command in the display headers. -/
def identifier (c : DcsCommand) : String := "MIPI_DCS_" ++ c.name

def arity (c : DcsCommand) : Arity := c.row.arity

def codec (c : DcsCommand) : ArgumentCodec := c.row.codec

/-- The helper function that performs the command. -/
def helper? (c : DcsCommand) : Option String := c.row.helper

/-- The commands that are still called by name where matching is conservative. -/
def conservative : List DcsCommand := [.enterSleepMode, .exitSleepMode, .setDisplayOn, .setDisplayOff]

def isConservative (c : DcsCommand) : Bool := conservative.contains c

def ofOpcode? (opcode : UInt8) : Option DcsCommand := all.find? (·.opcode == opcode)

theorem mem_all (c : DcsCommand) : c ∈ all := by
  cases c <;> decide

/-- No two rows share a command byte. -/
theorem ofOpcode?_opcode (c : DcsCommand) : ofOpcode? c.opcode = some c := by
  cases c <;> decide

theorem ofOpcode?_eq_some_iff (opcode : UInt8) (c : DcsCommand) :
    ofOpcode? opcode = some c ↔ c.opcode = opcode := by
  constructor
  · intro h
    simpa using List.find?_some h
  · rintro rfl
    exact ofOpcode?_opcode c

end DcsCommand

end DsiPanel
