import DsiPanel.Settings.Override
import DsiPanel.Surroundings
import DsiPanel.Toml.Document

/-!
# Settings in a file

A file of settings is a TOML document. Keys that name no setting are passed over; a setting that is
left out keeps its standard value, and one of the wrong kind or range breaks the file. Only a file
that is whole is asked whether its width is zero.
-/

namespace DsiPanel

open Toml (Value)

def naturalValue? (bound : Nat) : Value → Option Nat
  | .integer n => if 0 ≤ n ∧ n < bound then some n.toNat else none
  | _ => none

def flagValue? : Value → Option Bool
  | .boolean b => some b
  | _ => none

namespace Settings

/-- The settings with those that the entries give. -/
def ofEntries? (entries : List (String × Value)) : Option Settings := do
  let given {α : Type} (field : SettingsField) (read : Value → Option α) (standard : α) : Option α :=
    match entries.lookup field.name with
    | none => some standard
    | some value => read value
  let ignoreWait ← given .ignoreWait (naturalValue? ignoreWaitBound) standard.ignoreWait
  let conservative ← given .conservative flagValue? standard.conservative
  let wrapWidth ← given .wrapWidth (naturalValue? wrapWidthBound) standard.wrapWidth
  some { ignoreWait, conservative, wrapWidth }

/-- The settings if text can be made with them. -/
def checked (s : Settings) : Except SettingsError Settings :=
  match s.fault? with
  | none => .ok s
  | some error => .error error

def ofDocument (text : String) : Except SettingsError Settings :=
  match (Toml.read? text).bind ofEntries? with
  | none => .error .malformed
  | some s => s.checked

def ofFile (around : Surroundings) (path : String) : Except SettingsError Settings :=
  match textOf (around.read path) with
  | .error fault => .error (.unreadable path fault)
  | .ok text => ofDocument text

/-- The variable that names the file of settings. -/
def pathVariable : String := "DSIGEN_CONFIG"

/-- The file of settings where no variable names one. -/
def standardPath : String := "dsigen.toml"

def path (around : Surroundings) : String := (around.lookup pathVariable).getD standardPath

/-- The settings before any variable replaces one: those of the file, if it is there. -/
def base (around : Surroundings) : Except SettingsError Settings :=
  let path := path around
  if around.isThere path then ofFile around path else .ok standard

/-- The settings of the file and the variables. -/
def load (around : Surroundings) : Except SettingsError Settings := do
  let s ← base around
  match s.override around.lookup with
  | (s, none) => .ok s
  | (_, some error) => .error error

end Settings

end DsiPanel
