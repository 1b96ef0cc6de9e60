import DsiPanel.Interchange.Reader
import DsiPanel.Sequence.Basic
import DsiPanel.Settings.Override

/-!
# Interchange forms

Operations, sequences, modes and settings as JSON. A record is an object of its fields or an array
of their values in order. In an object, fields of other names are passed over and no field may
stand twice; in an array, no value may be left over. All fields must be there, but for settings,
where each that is missing has its standard value. Numbers must be whole and in range, and nothing
more is asked of them.
-/

namespace DsiPanel

open Interchange (Datum)

namespace Interchange

/-- The values given for the names, from the entries of an object; a name that stands twice makes
it no record. -/
def fieldsOfEntries? (names : List String) (entries : List (List StringUnit × Datum)) :
    Option (List (Option Datum)) := do
  let entries ← entries.mapM fun (key, value) => (textOf? key).map fun name => (name, value)
  names.mapM fun name =>
    match entries.filter fun entry => entry.1 = name with
    | [] => some none
    | [(_, value)] => some (some value)
    | _ => none

/-- The values given for the names, from those of an array in their order. -/
def fieldsOfItems? (names : List String) (items : List Datum) : Option (List (Option Datum)) :=
  if items.length ≤ names.length then
    some (items.map some ++ List.replicate (names.length - items.length) none)
  else none

/-- The values that a record gives for the names. -/
def fields? (names : List String) : Datum → Option (List (Option Datum))
  | .object entries => fieldsOfEntries? names entries
  | .array items => fieldsOfItems? names items
  | _ => none

def required {α : Type} (read : Datum → Option α) (field : Option Datum) : Option α :=
  field.bind read

def optional {α : Type} (standard : α) (read : Datum → Option α) : Option Datum → Option α
  | none => some standard
  | some datum => read datum

def byte? (datum : Datum) : Option UInt8 := (datum.natural? 256).map UInt8.ofNat

def bytes? (datum : Datum) : Option Bytes := datum.items?.bind fun items => items.mapM byte?

def ofBytes (bytes : Bytes) : Datum := .array (bytes.map fun b => Datum.ofNat b.toNat)

end Interchange

open Interchange

namespace SignalingMode

/-- The mode of a value: its name, alone or as the only key of an object with nothing under it. -/
def ofDatum? : Datum → Option SignalingMode
  | .string units => (textOf? units).bind ofName?
  | .object [(key, .null)] => (textOf? key).bind ofName?
  | _ => none

def toDatum (mode : SignalingMode) : Datum := .ofText mode.name

end SignalingMode

namespace Operation

def fieldNames : List String :=
  ["transaction_type", "is_last", "virtual_channel", "ack_requested", "wait_ms", "payload"]

def ofDatum? (datum : Datum) : Option Operation := do
  match ← fields? fieldNames datum with
  | [opcode, last, channel, ack, wait, payload] =>
    let opcode ← required byte? opcode
    let last ← required Datum.boolean? last
    let channel ← required byte? channel
    let ack ← required Datum.boolean? ack
    let wait ← required byte? wait
    let payload ← required bytes? payload
    some { opcode, last, channel, ack, wait, payload }
  | _ => none

def toDatum (op : Operation) : Datum :=
  .ofFields
    (fieldNames.zip
      [.ofNat op.opcode.toNat, .boolean op.last, .ofNat op.channel.toNat, .boolean op.ack,
        .ofNat op.wait.toNat, ofBytes op.payload])

end Operation

namespace CommandSequence

def fieldNames : List String := ["name", "signaling_mode", "operations"]

def ofDatum? (datum : Datum) : Option CommandSequence := do
  match ← fields? fieldNames datum with
  | [name, mode, operations] =>
    let name ← required Datum.text? name
    let mode ← required SignalingMode.ofDatum? mode
    let operations ← required
      (fun datum => datum.items?.bind fun items => items.mapM Operation.ofDatum?) operations
    some { name, mode, operations }
  | _ => none

def toDatum (s : CommandSequence) : Datum :=
  .ofFields
    (fieldNames.zip
      [.ofText s.name, s.mode.toDatum, .array (s.operations.map Operation.toDatum)])

end CommandSequence

namespace Settings

def fieldNames : List String := SettingsField.all.map SettingsField.name

def ofDatum? (datum : Datum) : Option Settings := do
  match ← fields? fieldNames datum with
  | [ignoreWait, conservative, wrapWidth] =>
    let ignoreWait ←
      optional standard.ignoreWait (Datum.natural? ignoreWaitBound) ignoreWait
    let conservative ← optional standard.conservative Datum.boolean? conservative
    let wrapWidth ← optional standard.wrapWidth (Datum.natural? wrapWidthBound) wrapWidth
    some { ignoreWait, conservative, wrapWidth }
  | _ => none

def toDatum (s : Settings) : Datum :=
  .ofFields
    (fieldNames.zip [.ofNat s.ignoreWait, .boolean s.conservative, .ofNat s.wrapWidth])

end Settings

end DsiPanel
