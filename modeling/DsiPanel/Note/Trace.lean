import DsiPanel.Kernel.Fragment
import DsiPanel.Note.Basic
import DsiPanel.Settings.Document

/-!
# What is told of a run

For each step of the library, the notes that it gives, in order. They are worked out from the same
data as the result and stand beside it: of a run that fails they are the notes up to the failure.

Bytes that a reader cuts off a payload are all in its note, and each operation whose text says less
than its data has exactly one warning.
-/

namespace DsiPanel

/-! ## Decoding -/

/-- The note of a frame that is longer than its transaction lets the operation be. -/
def Frame.truncation? (index : Nat) (f : Frame) : Option Note :=
  match Transaction.ofOpcode? f.opcode with
  | none => none
  | some transaction =>
    match transaction.limit with
    | .unbounded => none
    | .atMost max =>
      if max < f.payload.length then
        some (.truncated index transaction f.payload.length max (f.payload.drop max))
      else none

/-- The notes of the complete frames, also where a later one is a fault. -/
def Frames.notes (read : Frames) : List Note :=
  read.frames.zipIdx.filterMap fun (frame, index) => frame.truncation? index

/-- The notes of decoding the bytes from `offset` on. -/
def decodeNotes (offset : Nat) (data : Bytes) : List Note :=
  (Cursor.ofBytes data offset).readFrames.notes

/-- The notes of decoding a sequence: those of its frames, then one for each operation if there is
a sequence. -/
def CommandSequence.decodeNotes (name : String) (mode : SignalingMode) (segments : List Bytes) :
    List Note :=
  if segments.isEmpty then [.noArrays name]
  else
    DsiPanel.decodeNotes 0 segments.flatten ++
      match CommandSequence.decode name mode segments with
      | .error _ => []
      | .ok sequence =>
        sequence.operations.map fun op => .decoded name op.opcode op.payload.length

def SignalingMode.propertyNotes (raw : Bytes) : List Note :=
  match propertyText? raw with
  | some _ => []
  | none =>
    .modeNotText raw ::
      match propertyIndex? raw, ofPropertyIndex? raw with
      | some index, some mode => [.modeIndex index mode]
      | _, _ => [.modeFallback]

/-! ## Settings -/

def Settings.loadNotes (around : Surroundings) : List Note :=
  let path := Settings.path around
  if around.isThere path then [] else [.noSettingsFile path]

/-! ## Generating text -/

def Resolution.notes (resolution : Resolution) : List Note :=
  (resolution.mismatch?.map Note.mismatch).toList

/-- The warnings of turning a transaction with a payload into text. -/
def Transaction.warnings (conservative : Bool) (payload : Bytes) (transaction : Transaction) :
    List Note :=
  match transaction.strategy with
  | .commandWrite =>
    if payload.isEmpty then [.emptyPayload transaction]
    else (resolve conservative payload).notes
  | .ignore => [.ignored transaction]
  | _ => []

/-- The notes of turning the operation at `index` into text. -/
def Operation.notes (conservative : Bool) (index : Nat) (op : Operation) : List Note :=
  match Transaction.ofOpcode? op.opcode with
  | none => [.unknownOpcode index op.opcode op.payload]
  | some transaction =>
    .strategy index transaction :: transaction.warnings conservative op.payload

/-- The notes of the operations from `index` on, up to the first that has no text. -/
def operationNotes (conservative : Bool) (index : Nat) : List Operation → List Note
  | [] => []
  | op :: rest =>
    op.notes conservative index ++
      if op.isSupported then operationNotes conservative (index + 1) rest else []

/-- The notes of turning a sequence into text. -/
def CommandSequence.notes (settings : Settings) (s : CommandSequence) : List Note :=
  operationNotes settings.conservative 0 s.operations ++
    match s.synthesize settings with
    | .error _ => []
    | .ok fragment => [.synthesized s.name s.length fragment.features]

/-- The notes of decoding segments and turning the sequence into text. -/
def rawNotes (settings : Settings) (name : String) (mode : SignalingMode) (segments : List Bytes) :
    List Note :=
  CommandSequence.decodeNotes name mode segments ++
    match CommandSequence.decode name mode segments with
    | .error _ => []
    | .ok sequence => sequence.notes settings

end DsiPanel
