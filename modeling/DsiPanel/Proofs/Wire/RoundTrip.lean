import DsiPanel.Proofs.Wire.Grammar

/-!
# Writing operations and decoding them again

An operation with a payload that the length field can give has a frame, and that frame is complete
whatever its other fields hold: the channel is cut to two bits before it is written. So a run of
written operations is a run of complete frames, and the grammar of command arrays gives back one
operation for each of them. Payloads that look like headers cannot mislead the decoder, because it
never looks for the start of a frame.

**The law** (`decode_written`): what comes back is what was written, but for the two things that a
frame cannot carry (`Operation.Returns`): the upper bits of the channel, and payload bytes past the
bound of the transaction.
-/

namespace DsiPanel

namespace Operation

/-- `back` is the operation as it comes back from its frame: on the channel of the two low bits, with
the payload that its transaction carries, and the same in all else. -/
structure Returns (op back : Operation) : Prop where
  opcode : back.opcode = op.opcode
  last : back.last = op.last
  channel : back.channel = op.channel % 4
  ack : back.ack = op.ack
  wait : back.wait = op.wait
  payload : Kept op.opcode op.payload back.payload

/-- The payload stays within the bound of the transaction, if there is one. -/
def FitsLimit (op : Operation) : Prop :=
  ∀ t : Transaction, t.opcode = op.opcode → ∀ max, t.limit = .atMost max → op.payload.length ≤ max

/-- The frame in which the operation is written. -/
def frame (op : Operation) : Frame where
  opcode := op.opcode
  last := markByte op.last
  channel := op.channel &&& channelMask
  ack := markByte op.ack
  wait := op.wait
  payload := op.payload

theorem wire?_eq_some {op : Operation} (h : op.payload.length ≤ maxPayload) :
    op.wire? = some op.frame.bytes := if_pos h

theorem wire?_eq_none_iff {op : Operation} : op.wire? = none ↔ maxPayload < op.payload.length := by
  unfold wire?
  split
  next fits => simp only [reduceCtorEq, false_iff, Nat.not_lt, fits]
  next long => exact iff_of_true rfl (Nat.lt_of_not_le long)

/-- The frame is complete, also where the operation names a channel past the third. -/
theorem frame_complete {op : Operation} (h : op.payload.length ≤ maxPayload) :
    op.frame.Complete := ⟨and_channelMask_le op.channel, Nat.lt_succ_of_le h⟩

theorem markByte_ne_zero_iff (mark : Bool) : markByte mark ≠ 0 ↔ mark = true := by
  cases mark <;> decide

/-- The frame of an operation stands for the operation as it comes back. -/
theorem frame_denotes_iff {op back : Operation} : op.frame.Denotes back ↔ op.Returns back := by
  constructor
  · rintro ⟨opcode, last, channel, ack, wait, payload⟩
    refine ⟨opcode, ?_, channel.trans (and_channelMask op.channel), ?_, wait, payload⟩
    · exact Bool.eq_iff_iff.mpr (last.trans (markByte_ne_zero_iff op.last))
    · exact Bool.eq_iff_iff.mpr (ack.trans (markByte_ne_zero_iff op.ack))
  · rintro ⟨opcode, last, channel, ack, wait, payload⟩
    refine ⟨opcode, ?_, channel.trans (and_channelMask op.channel).symm, ?_, wait, payload⟩
    · exact (Bool.eq_iff_iff.mp last).trans (markByte_ne_zero_iff op.last).symm
    · exact (Bool.eq_iff_iff.mp ack).trans (markByte_ne_zero_iff op.ack).symm

/-- A payload within its bound is kept whole. -/
theorem kept_of_fitsLimit {op : Operation} (h : op.FitsLimit) {kept : Bytes}
    (hkept : Kept op.opcode op.payload kept) : kept = op.payload := by
  by_cases free : ∀ t : Transaction, t.opcode = op.opcode → t.limit = .unbounded
  · exact hkept.whole free
  · push Not at free
    obtain ⟨t, ht, bound⟩ := free
    cases limit : t.limit with
    | atMost max =>
      rw [hkept.bounded t ht max limit]
      exact List.take_of_length_le (h t ht max limit)
    | unbounded => exact absurd limit bound

/-- An operation that its frame can carry comes back as it was. -/
theorem Returns.eq {op back : Operation} (h : op.Returns back) (channel : op.channel ≤ 3)
    (limit : op.FitsLimit) : back = op := by
  have same : back.channel = op.channel := by
    rw [h.channel, ← and_channelMask, and_channelMask_of_le channel]
  have whole : back.payload = op.payload := kept_of_fitsLimit limit h.payload
  obtain ⟨opcode, last, -, ack, wait, -⟩ := h
  cases back
  cases op
  rw [Operation.mk.injEq]
  exact ⟨opcode, last, same, ack, wait, whole⟩

end Operation

/-- Operations as they come back, one by one. -/
theorem forall₂_returns {operations back : List Operation}
    (h : List.Forall₂ Operation.Returns operations back)
    (fits : ∀ op ∈ operations, op.channel ≤ 3 ∧ op.FitsLimit) : back = operations := by
  induction h with
  | nil => rfl
  | cons head _ ih =>
    have ⟨⟨channel, limit⟩, rest⟩ := List.forall_mem_cons.mp fits
    rw [head.eq channel limit, ih rest]

/-- An operation can be written exactly if its payload has at most 65535 bytes. The frames of such
operations one after another decode to the same operations in the same order, each as it comes back
from its frame; operations on the four channels with payloads within their bounds come back
exactly. -/
theorem decode_written (operations : List Operation) :
    (∀ op : Operation, op.wire? = none ↔ 65535 < op.payload.length) ∧
    ((∀ op ∈ operations, op.payload.length ≤ 65535) →
      ∃ written back, List.Forall₂ (fun op bytes => op.wire? = some bytes) operations written ∧
        decode written.flatten = .ok back ∧
        List.Forall₂ Operation.Returns operations back ∧
        ((∀ op ∈ operations, op.channel ≤ 3 ∧ op.FitsLimit) → back = operations)) := by
  refine ⟨fun op => Operation.wire?_eq_none_iff, fun short => ?_⟩
  let frames := operations.map Operation.frame
  have complete : ∀ f ∈ frames, f.Complete := by
    intro f hf
    obtain ⟨op, hop, rfl⟩ := List.mem_map.mp hf
    exact Operation.frame_complete (short op hop)
  have returns : List.Forall₂ Operation.Returns operations (frames.map Frame.operation) := by
    have denotes := (forall₂_denotes_iff complete).mpr rfl
    rw [List.forall₂_map_left_iff] at denotes
    exact denotes.imp fun op back => Operation.frame_denotes_iff.mp
  refine ⟨frames.map Frame.bytes, frames.map Frame.operation, ?_, ?_, returns, forall₂_returns returns⟩
  · rw [List.forall₂_map_right_iff, List.forall₂_map_right_iff, List.forall₂_same]
    exact fun op hop => Operation.wire?_eq_some (short op hop)
  · refine decodeFrom_ok_iff.mpr ⟨frames, complete, ?_, rfl⟩
    rw [Nat.zero_min, List.drop_zero]
    rfl

/-- A short write on channel 7 with a byte too many. -/
def overlongWrite : Operation := { opcode := 0x05, channel := 7, payload := [0x11, 0x22] }

/-- A long write whose payload looks like a header. -/
def headerLikeWrite : Operation := { opcode := 0x39, payload := [0x05, 1, 0, 0, 0, 0, 1] }

/-- Both writes come back, the short one on channel 3 with one byte; the long one alone comes back as it
was. -/
theorem decode_written_long :
    (∃ written back, List.Forall₂ (fun op bytes => Operation.wire? op = some bytes)
        [overlongWrite, headerLikeWrite] written ∧
      decode written.flatten = .ok back ∧
      List.Forall₂ Operation.Returns [overlongWrite, headerLikeWrite] back) ∧
    ∃ bytes, headerLikeWrite.wire? = some bytes ∧ decode bytes = .ok [headerLikeWrite] := by
  obtain ⟨written, back, wires, decoded, returns, -⟩ :=
    (decode_written [overlongWrite, headerLikeWrite]).2 (by decide)
  refine ⟨⟨written, back, wires, decoded, returns⟩, ?_⟩
  have limit : headerLikeWrite.FitsLimit := by
    intro t ht max bound
    have known := (Transaction.ofOpcode?_eq_some_iff _ t).mpr ht
    cases known
    contradiction
  obtain ⟨written, back, wires, decoded, -, exact⟩ := (decode_written [headerLikeWrite]).2 (by decide)
  have same := exact (List.forall_mem_singleton.mpr ⟨by decide, limit⟩)
  rw [same] at decoded
  obtain ⟨bytes, _, wire, none, rfl⟩ := List.forall₂_cons_left_iff.mp wires
  rw [List.forall₂_nil_left_iff.mp none, List.flatten_singleton] at decoded
  exact ⟨bytes, wire, decoded⟩

end DsiPanel
