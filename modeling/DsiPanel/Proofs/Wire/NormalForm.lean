import DsiPanel.Proofs.Wire.RoundTrip

/-!
# The normal form of a command array

Decoding loses what an operation does not keep: which byte a mark was, and payload bytes past the
bound of the transaction. Writing the decoded operations again gives an array without any of that,
which stands for the same operations.

**The law** (`decode_normalForm`): the operations of an array can be written, the array they make is
never longer than the first one and decodes to the same operations, and it is the first one exactly
if every frame there was canonical to begin with (`Frame.Canonical`).

All of it is settled for one frame. A complete frame written again (`Frame.rewritten`) stands for the
same operation, takes no more bytes, and is the given frame exactly if that was canonical. Frames
move when payloads before them shrink, but a run of frames is told by its bytes, so two arrays are
equal only if they are so frame by frame.
-/

namespace DsiPanel

/-! ## What a decoded operation keeps -/

theorem keptPayload_length_le (opcode : UInt8) (payload : Bytes) :
    (keptPayload opcode payload).length ≤ payload.length := by
  cases known : Transaction.ofOpcode? opcode with
  | none => exact Nat.le_of_eq (congrArg List.length (keptPayload_of_unknown known payload))
  | some t =>
    obtain rfl := (Transaction.ofOpcode?_eq_some_iff opcode t).mp known
    rw [keptPayload_opcode]
    cases t.limit with
    | atMost count => exact List.length_take_le' count payload
    | unbounded => exact Nat.le_refl payload.length

/-- The payload is kept whole exactly if it stays within the bound of its transaction. -/
theorem keptPayload_eq_self_iff {opcode : UInt8} {payload : Bytes} :
    keptPayload opcode payload = payload ↔ Operation.FitsLimit { opcode, payload } := by
  constructor
  · intro whole t ht max limit
    have own : t.opcode = opcode := ht
    rw [← own, keptPayload_opcode, limit] at whole
    show payload.length ≤ max
    rw [← whole]
    exact List.length_take_le max payload
  · intro fits
    exact Operation.kept_of_fitsLimit fits (kept_iff.mpr rfl)

namespace Frame

theorem operation_channel_le (f : Frame) : f.operation.channel ≤ 3 := and_channelMask_le f.channel

theorem operation_payload_le (f : Frame) : f.operation.payload.length ≤ f.payload.length :=
  keptPayload_length_le f.opcode f.payload

theorem Complete.operation_payload_le {f : Frame} (h : f.Complete) :
    f.operation.payload.length ≤ maxPayload :=
  Nat.le_of_lt_succ (Nat.lt_of_le_of_lt f.operation_payload_le h.length)

theorem operation_fitsLimit (f : Frame) : f.operation.FitsLimit := by
  intro t ht max limit
  have own : t.opcode = f.opcode := ht
  show (keptPayload f.opcode f.payload).length ≤ max
  rw [← own, keptPayload_opcode, limit]
  exact List.length_take_le max f.payload

/-! ## A frame written again -/

/-- The frame is as operations are written: its marks are zero or one, and its payload stays within
the bound of its transaction, if there is one. -/
structure Canonical (f : Frame) : Prop where
  last : f.last = 0 ∨ f.last = 1
  ack : f.ack = 0 ∨ f.ack = 1
  limit : ∀ t : Transaction, t.opcode = f.opcode → ∀ max, t.limit = .atMost max → f.payload.length ≤ max

/-- The frame in which the operation of the frame is written. -/
def rewritten (f : Frame) : Frame := f.operation.frame

theorem Complete.rewritten {f : Frame} (h : f.Complete) : f.rewritten.Complete :=
  Operation.frame_complete h.operation_payload_le

/-- A frame written again stands for the same operation. -/
theorem Complete.operation_rewritten {f : Frame} (h : f.Complete) :
    f.rewritten.operation = f.operation := by
  have denotes : f.operation.frame.Denotes f.rewritten.operation := h.rewritten.denotes_iff.mpr rfl
  have returns := Operation.frame_denotes_iff.mp denotes
  exact returns.eq f.operation_channel_le f.operation_fitsLimit

theorem length_rewritten_le (f : Frame) : f.rewritten.bytes.length ≤ f.bytes.length := by
  rw [length_bytes, length_bytes]
  exact Nat.add_le_add_left f.operation_payload_le headerSize

/-- A mark is written as it was read only where it was zero or one. -/
theorem markByte_bne_zero_iff {mark : UInt8} : markByte (mark != 0) = mark ↔ mark = 0 ∨ mark = 1 := by
  by_cases zero : mark = 0
  · subst zero
    decide
  · rw [bne_iff_ne.mpr zero]
    exact ⟨fun one => .inr one.symm, fun h => (h.resolve_left zero).symm⟩

/-- A complete frame is left as it is exactly if it is canonical. -/
theorem Complete.rewritten_eq_iff {f : Frame} (h : f.Complete) : f.rewritten = f ↔ f.Canonical := by
  have channel : f.channel &&& channelMask &&& channelMask = f.channel := by
    rw [and_channelMask_of_le h.channel, and_channelMask_of_le h.channel]
  have fields : f.rewritten = f ↔ markByte (f.last != 0) = f.last ∧
      markByte (f.ack != 0) = f.ack ∧ keptPayload f.opcode f.payload = f.payload := by
    obtain ⟨opcode, last, _, ack, wait, payload⟩ := f
    simp only [Frame.rewritten, Operation.frame, operation, channel, Frame.mk.injEq, true_and]
  rw [fields, markByte_bne_zero_iff, markByte_bne_zero_iff, keptPayload_eq_self_iff]
  constructor
  · rintro ⟨last, ack, limit⟩
    exact ⟨last, ack, limit⟩
  · rintro ⟨last, ack, limit⟩
    exact ⟨last, ack, limit⟩

end Frame

/-! ## Runs written again -/

/-- Operations that have frames are written as these frames, one after another. -/
theorem wireAll?_eq_some {operations : List Operation}
    (h : ∀ op ∈ operations, op.payload.length ≤ maxPayload) :
    wireAll? operations = some (arrayBytes (operations.map Operation.frame)) := by
  have each : operations.mapM Operation.wire? = some (operations.map fun op => op.frame.bytes) := by
    induction operations with
    | nil => rfl
    | cons op operations ih =>
      obtain ⟨head, tail⟩ := List.forall_mem_cons.mp h
      rw [List.mapM_cons, Operation.wire?_eq_some head, ih tail]
      rfl
  rw [wireAll?, each, arrayBytes, List.map_map]
  rfl

section Run

variable {frames : List Frame} (complete : ∀ f ∈ frames, f.Complete)

include complete

theorem wireAll?_operations :
    wireAll? (frames.map Frame.operation) = some (arrayBytes (frames.map Frame.rewritten)) := by
  have short := fun f hf => (complete f hf).operation_payload_le
  rw [wireAll?_eq_some (List.forall_mem_map.mpr short), List.map_map]
  rfl

theorem complete_rewritten : ∀ f ∈ frames.map Frame.rewritten, f.Complete :=
  List.forall_mem_map.mpr fun f hf => (complete f hf).rewritten

theorem operations_rewritten :
    (frames.map Frame.rewritten).map Frame.operation = frames.map Frame.operation := by
  rw [List.map_map]
  exact List.map_congr_left fun f hf => (complete f hf).operation_rewritten

/-- A run is left as it is exactly if all of its frames are canonical. -/
theorem arrayBytes_rewritten_eq_iff :
    arrayBytes (frames.map Frame.rewritten) = arrayBytes frames ↔ ∀ f ∈ frames, f.Canonical := by
  constructor
  · intro same f hf
    have fixed := arrayBytes_injOn complete (complete_rewritten complete) same
    have own := List.map_eq_map_iff.mp (fixed.trans (List.map_id frames).symm) f hf
    exact (complete f hf).rewritten_eq_iff.mp own
  · intro canonical
    have fixed : frames.map Frame.rewritten = frames.map id :=
      List.map_congr_left fun f hf => (complete f hf).rewritten_eq_iff.mpr (canonical f hf)
    rw [fixed, List.map_id]

end Run

theorem length_arrayBytes_rewritten_le (frames : List Frame) :
    (arrayBytes (frames.map Frame.rewritten)).length ≤ (arrayBytes frames).length := by
  induction frames with
  | nil => exact Nat.le_refl 0
  | cons f frames ih =>
    rw [List.map_cons, arrayBytes_cons, arrayBytes_cons, List.length_append, List.length_append]
    exact Nat.add_le_add f.length_rewritten_le ih

/-! ## The law -/

/-- What decodes is a run of complete frames in one way only. Its operations stay on the four channels
and within the bounds of their transactions; written again they make an array that is never longer
and decodes to the same operations. The array is the first one exactly if all of its frames were
canonical. -/
theorem decode_normalForm (data : Bytes) (operations : List Operation)
    (decoded : decode data = .ok operations) :
    (∀ op ∈ operations, op.channel ≤ 3 ∧ op.payload.length ≤ 65535 ∧ op.FitsLimit) ∧
    ∃ frames written,
      (∀ run : List Frame, (∀ f ∈ run, f.Complete) ∧ data = arrayBytes run ↔ run = frames) ∧
      wireAll? operations = some written ∧ written.length ≤ data.length ∧
      decode written = .ok operations ∧ (written = data ↔ ∀ f ∈ frames, f.Canonical) := by
  obtain ⟨frames, complete, rfl, rfl⟩ := decode_ok_iff.mp decoded
  have own : ∀ f ∈ frames, f.operation.channel ≤ 3 ∧ f.operation.payload.length ≤ 65535 ∧
      f.operation.FitsLimit :=
    fun f hf => ⟨f.operation_channel_le, (complete f hf).operation_payload_le, f.operation_fitsLimit⟩
  have only (run : List Frame) :
      (∀ f ∈ run, f.Complete) ∧ arrayBytes frames = arrayBytes run ↔ run = frames := by
    constructor
    · rintro ⟨completeRun, bytes⟩
      exact arrayBytes_injOn complete completeRun bytes.symm
    · rintro rfl
      exact ⟨complete, rfl⟩
  have again : decode (arrayBytes (frames.map Frame.rewritten)) = .ok (frames.map Frame.operation) :=
    decode_ok_iff.mpr ⟨_, complete_rewritten complete, rfl, (operations_rewritten complete).symm⟩
  exact ⟨List.forall_mem_map.mpr own, frames, _, only, wireAll?_operations complete,
    length_arrayBytes_rewritten_le frames, again, arrayBytes_rewritten_eq_iff complete⟩

/-- A short write with a mark of seven and a byte too many, and a long write as it should be. -/
def looseFrames : List Frame :=
  [⟨0x05, 7, 1, 0, 0x78, [0x11, 0x22]⟩, ⟨0x39, 1, 0, 0, 0, [0xb0, 0x04]⟩]

/-- The loose frames decode, and their operations make another array that stands for the same. -/
theorem decode_normalForm_loose :
    ∃ operations written, decode (arrayBytes looseFrames) = .ok operations ∧
      wireAll? operations = some written ∧ decode written = .ok operations ∧
      written.length ≤ 18 ∧ written ≠ arrayBytes looseFrames := by
  have complete : ∀ f ∈ looseFrames, f.Complete :=
    List.forall_mem_cons.mpr ⟨⟨by decide, by decide⟩, List.forall_mem_singleton.mpr ⟨by decide, by decide⟩⟩
  have decoded : decode (arrayBytes looseFrames) = .ok (looseFrames.map Frame.operation) :=
    decode_ok_iff.mpr ⟨looseFrames, complete, rfl, rfl⟩
  obtain ⟨-, frames, written, only, wires, length, again, canonical⟩ := decode_normalForm _ _ decoded
  obtain rfl := (only looseFrames).mp ⟨complete, rfl⟩
  refine ⟨_, written, decoded, wires, again, length, fun same => ?_⟩
  have marks := (canonical.mp same _ List.mem_cons_self).last
  exact absurd marks (by decide)

end DsiPanel
