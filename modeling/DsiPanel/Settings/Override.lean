import DsiPanel.Files
import DsiPanel.Settings.Basic
import DsiPanel.Text.Numeral

/-!
# Overriding settings

Variables may replace single settings. They are taken one after another in a fixed order; the first
whose text says nothing ends the run, and what was replaced before it stays replaced. A width of
zero is refused at the very end, wherever it comes from.
-/

namespace DsiPanel

/-- A setting that a variable may replace. -/
inductive SettingsField where
  | ignoreWait
  | conservative
  | wrapWidth
deriving DecidableEq, Repr

namespace SettingsField

def all : List SettingsField := [ignoreWait, conservative, wrapWidth]

def name : SettingsField → String
  | ignoreWait => "ignore_wait"
  | conservative => "conservative_dcs"
  | wrapWidth => "wrap_width"

def variableName : SettingsField → String
  | ignoreWait => "DSIGEN_IGNORE_WAIT"
  | conservative => "DSIGEN_CONSERVATIVE_DCS"
  | wrapWidth => "DSIGEN_WRAP_WIDTH"

end SettingsField

/-- Waits are below this in files and variables. -/
def ignoreWaitBound : Nat := 4294967296

/-- Widths are below this in variables. -/
def wrapWidthBound : Nat := 18446744073709551616

/-- Why there are no settings. -/
inductive SettingsError where
  /-- The file at `path` cannot be read. -/
  | unreadable (path : String) (fault : ReadFault)
  /-- The text of the file is broken, or a value in it is of the wrong kind. -/
  | malformed
  /-- The text for a field does not say a value of it. -/
  | invalid (field : SettingsField) (value : String)
deriving DecidableEq, Repr

/-- The words with which the message of a broken file goes on. Where in the file the fault is and
what it is stands after them, and is left out here. -/
def malformedReason : String := "TOML parse error"

def SettingsError.message : SettingsError → String
  | unreadable path fault => s!"Failed to read config file {path}: {fault.message}"
  | malformed => s!"Failed to parse config: {malformedReason}"
  | invalid field value => s!"Invalid value for {field.name}: {value}"

/-- What lies under an error, in words. -/
def SettingsError.cause? : SettingsError → Option String
  | unreadable _ fault => some fault.message
  | malformed => some malformedReason
  | invalid _ _ => none

/-- The flag that a text says, in any case of its letters. -/
def readFlag? (text : String) : Option Bool :=
  let word := String.ofList ((trimBlanks text.toList).map Char.toLower)
  if ["1", "true", "yes", "on"].contains word then some true
  else if ["0", "false", "no", "off"].contains word then some false
  else none

/-- The settings with a field replaced by what `text` says. -/
def SettingsField.replace? (text : String) (s : Settings) : SettingsField → Option Settings
  | ignoreWait => (readUnsigned? ignoreWaitBound text).map fun n => { s with ignoreWait := n }
  | conservative => (readFlag? text).map fun flag => { s with conservative := flag }
  | wrapWidth => (readUnsigned? wrapWidthBound text).map fun n => { s with wrapWidth := n }

namespace Settings

/-- The fault of settings that no text can be made with. -/
def fault? (s : Settings) : Option SettingsError :=
  if s.wrapWidth = 0 then some (.invalid .wrapWidth (toString s.wrapWidth)) else none

/-- The settings after the variables of some fields, and the field whose variable says nothing. -/
def replaceFields (lookup : String → Option String) :
    List SettingsField → Settings → Settings × Option SettingsError
  | [], s => (s, none)
  | field :: rest, s =>
    match lookup field.variableName with
    | none => replaceFields lookup rest s
    | some text =>
      match field.replace? text s with
      | some s => replaceFields lookup rest s
      | none => (s, some (.invalid field text))

/-- The settings after all variables, and the error if there is one. -/
def override (lookup : String → Option String) (s : Settings) :
    Settings × Option SettingsError :=
  match replaceFields lookup SettingsField.all s with
  | (s, none) => (s, s.fault?)
  | (s, some error) => (s, some error)

end Settings

end DsiPanel
