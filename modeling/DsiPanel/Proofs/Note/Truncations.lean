import DsiPanel.Note.Trace
import DsiPanel.Proofs.CommandLine.Dumps
import DsiPanel.Proofs.Note.Reports
import DsiPanel.Proofs.Wire.Concatenation

/-!
# Bytes that are cut off

A frame may declare more bytes than its transaction carries. The operation keeps as many as are carried, and the
others are told, with the place of the frame (`TellsCut`): what is kept and what is told are together what was
declared, so no byte is lost.

**The law** (`CommandSequence.decodeNotes_reported`): of the complete frames of an array each that is cut has its
note, and no other has one, also where a later frame is a fault. What each operation is follows only if there is a
sequence. The one warning is that a sequence has no arrays at all.
-/

namespace DsiPanel

/-! ## One frame -/

/-- The note of a frame that declares more bytes than its transaction carries. Its text tells the place of the
frame, how many bytes are declared and how many are kept, and then those that are not, in digits. -/
inductive TellsCut : Frame × Nat → Note → Prop
  | cut {f : Frame} {index max : Nat} {t : Transaction} {op : Operation} {dropped : Bytes} {hex : String}
      (known : t.opcode = f.opcode) (bound : t.limit = .atMost max) (longer : max < f.payload.length)
      (stored : f.Denotes op) (kept : op.payload.length = max) (whole : op.payload ++ dropped = f.payload)
      (text : (Note.truncated index t f.payload.length max dropped).message =
        s!"Operation {index}: truncating {t.name} payload from {f.payload.length} to {op.payload.length} bytes " ++
          s!"(dropped: {hex})")
      (digits : readHex (encodeUtf8 hex) = .ok dropped) :
      TellsCut (f, index) (.truncated index t f.payload.length max dropped)

/-- Every frame stands for an operation. -/
theorem Frame.exists_denotes (f : Frame) : ∃ op, f.Denotes op ∧ op.payload = keptPayload f.opcode f.payload :=
  ⟨{ f.operation with channel := f.channel }, ⟨rfl, bne_iff_ne, rfl, bne_iff_ne, rfl, kept_iff.mpr rfl⟩, rfl⟩

theorem truncation?_eq_some_iff {f : Frame} {index : Nat} {note : Note} :
    f.truncation? index = some note ↔ TellsCut (f, index) note := by
  constructor
  · intro told
    unfold Frame.truncation? at told
    split at told
    next => contradiction
    next t found =>
      have known := (Transaction.ofOpcode?_eq_some_iff f.opcode t).mp found
      split at told
      next => contradiction
      next max bound =>
        split at told
        next longer =>
          cases told
          obtain ⟨op, stored, payload⟩ := f.exists_denotes
          rw [← known, keptPayload_opcode, bound] at payload
          have kept : op.payload.length = max := by
            rw [payload]
            exact List.length_take_of_le (Nat.le_of_lt longer)
          have whole : op.payload ++ f.payload.drop max = f.payload := by
            rw [payload]
            exact List.take_append_drop max f.payload
          exact .cut known bound longer stored kept whole (by rw [kept]; rfl) (spellsBytes_hexPair _).readHex_eq
        next => contradiction
  · intro told
    cases told with
    | @cut _ _ max t op dropped _ known bound longer _ kept whole =>
      have rest : f.payload.drop max = dropped := by
        rw [← whole, ← kept, List.drop_left]
      unfold Frame.truncation?
      simp only [(Transaction.ofOpcode?_eq_some_iff f.opcode t).mpr known, bound, if_pos longer, rest]

theorem TellsCut.level {entry : Frame × Nat} {note : Note} (h : TellsCut entry note) : note.level = .debug := by
  cases h
  rfl

/-! ## An array -/

/-- The notes of an array are those of its complete frames, whether or not a fault follows them. -/
theorem decodeNotes_reports (data : Bytes) :
    ∃ frames rest, (∀ f ∈ frames, f.Complete) ∧ data = arrayBytes frames ++ rest ∧
      Reports TellsCut frames.zipIdx (decodeNotes 0 data) ∧
      (rest = [] ∧ decode data = .ok (frames.map Frame.operation) ∨
        ∃ error, FirstFault frames.length (arrayBytes frames).length rest error ∧
          decode data = .error error) := by
  obtain ⟨stop, bytes, position, complete, ends⟩ := readFrames_stop (Cursor.ofBytes data 0)
  have told := reports_filterMap (r := TellsCut) (fun _ _ => truncation?_eq_some_iff)
    (Cursor.ofBytes data 0).readFrames.frames.zipIdx
  refine ⟨_, stop.rest, complete, bytes, told, ?_⟩
  unfold decode decodeFrom Frames.operations
  rcases ends with ⟨stopRest, none⟩ | ⟨more, fault, failed, some⟩
  · rw [none]
    exact .inl ⟨stopRest, rfl⟩
  · rw [some]
    have start : stop.position = (arrayBytes (Cursor.ofBytes data 0).readFrames.frames).length := by
      rw [position]
      simp [Cursor.ofBytes]
    refine .inr ⟨_, ?_, rfl⟩
    rw [← start]
    exact firstFault_iff.mpr ⟨more, fault, failed, rfl⟩

/-- Without arrays there are neither frames nor operations to tell of. -/
theorem CommandSequence.decodeNotes_eq (name : String) (mode : SignalingMode) (segments : List Bytes) :
    CommandSequence.decodeNotes name mode segments =
      (if segments = [] then [.noArrays name] else []) ++ DsiPanel.decodeNotes 0 segments.flatten ++
        match CommandSequence.decode name mode segments with
        | .error _ => []
        | .ok sequence => sequence.operations.map fun op => .decoded name op.opcode op.payload.length := by
  cases segments with
  | nil =>
    have none : Cursor.readFrames (Cursor.ofBytes [] 0) = { frames := [], fault := none } := by
      rw [Cursor.readFrames]
      rfl
    have whole : DsiPanel.decode [] = .ok [] := by
      rw [DsiPanel.decode, decodeFrom, none]
      rfl
    rw [decode_eq, List.flatten_nil, whole, DsiPanel.decodeNotes, none]
    rfl
  | cons segment segments => rfl

/-- Nothing but a missing array is warned of. -/
theorem CommandSequence.notesAt_warn_decodeNotes (name : String) (mode : SignalingMode) (segments : List Bytes) :
    notesAt .warn (CommandSequence.decodeNotes name mode segments) =
      if segments = [] then [.noArrays name] else [] := by
  have apart : NoteLevel.debug ≠ .warn := by decide
  have cuts : notesAt .warn (DsiPanel.decodeNotes 0 segments.flatten) = [] := by
    obtain ⟨frames, -, -, -, told, -⟩ := decodeNotes_reports segments.flatten
    refine notesAt_eq_nil apart fun note mem => ?_
    obtain ⟨entry, -, cut⟩ := told.exists_mem note mem
    exact cut.level
  have each (operations : List Operation) :
      notesAt .warn (operations.map fun op => .decoded name op.opcode op.payload.length) = [] := by
    refine notesAt_eq_nil apart fun note mem => ?_
    obtain ⟨op, -, rfl⟩ := List.mem_map.mp mem
    rfl
  have opening : notesAt .warn (if segments = [] then [.noArrays name] else []) =
      if segments = [] then [.noArrays name] else [] := by
    split <;> rfl
  rw [CommandSequence.decodeNotes_eq, notesAt_append, notesAt_append, cuts, opening, List.append_nil]
  cases CommandSequence.decode name mode segments with
  | error => exact List.append_nil _
  | ok sequence => rw [each, List.append_nil]

/-- **No byte is dropped without a note.** What is told of decoding a sequence is, in this order, that it has no
arrays, if it has none; the bytes that are cut off its complete frames; and each of its operations, if there is a
sequence. Only the first of these is a warning. -/
theorem CommandSequence.decodeNotes_reported (name : String) (mode : SignalingMode) (segments : List Bytes) :
    ∃ frames rest cuts decoded, (∀ f ∈ frames, f.Complete) ∧ segments.flatten = arrayBytes frames ++ rest ∧
      Reports TellsCut frames.zipIdx cuts ∧
      CommandSequence.decodeNotes name mode segments =
        (if segments = [] then [.noArrays name] else []) ++ cuts ++ decoded ∧
      (rest = [] ∧ (∃ sequence, CommandSequence.decode name mode segments = .ok sequence ∧
          List.Forall₂ Frame.Denotes frames sequence.operations ∧
          decoded = sequence.operations.map fun op => .decoded name op.opcode op.payload.length) ∨
        (∃ error, FirstFault frames.length (arrayBytes frames).length rest error ∧
          CommandSequence.decode name mode segments = .error error) ∧ decoded = []) ∧
      notesAt .warn (CommandSequence.decodeNotes name mode segments) =
        if segments = [] then [.noArrays name] else [] := by
  obtain ⟨frames, rest, complete, bytes, cuts, ends⟩ := decodeNotes_reports segments.flatten
  refine ⟨frames, rest, _, _, complete, bytes, cuts, CommandSequence.decodeNotes_eq name mode segments, ?_,
    CommandSequence.notesAt_warn_decodeNotes name mode segments⟩
  rw [CommandSequence.decode_eq]
  rcases ends with ⟨whole, decoded⟩ | ⟨error, fault, failed⟩
  · rw [decoded]
    exact .inl ⟨whole, _, rfl, (forall₂_denotes_iff complete).mpr rfl, rfl⟩
  · rw [failed]
    exact .inr ⟨⟨error, fault, rfl⟩, rfl⟩

end DsiPanel
