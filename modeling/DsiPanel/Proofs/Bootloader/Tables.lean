import DsiPanel.Bootloader.Table
import DsiPanel.Proofs.Bootloader.Packets
import DsiPanel.Proofs.Traversal
import DsiPanel.Proofs.Wire.NormalForm

/-!
# Tables of decoded arrays

The decoder and the packets have a notion of a short transaction each. The decoder cuts a payload at the
bound of its transaction, where there is one; a packet is short by its opcode, and then holds two bytes.
This module says where the two disagree.

**The law** (`table_of_decoded`): the operations of an array have no table only where one
of them has an unknown opcode or is short with more than two bytes (`Operation.Unpackable`), and then the
first such operation is told. No payload of an array is too long for a long packet, since the length field
of a frame and the count of a packet have 16 bits both. A payload that is too long for a short packet is
one of the three bytes that the decoder leaves to a generic short write, or the transaction is one whose
payload the decoder does not cut at all (`Transaction.limit_of_short`).
-/

namespace DsiPanel

/-! ## Tables and packets -/

/-- A table fails with the error of the first operation that has no packet. -/
theorem CommandSequence.table_error_iff {panel : String} {s : CommandSequence} {error : SynthesisError} :
    s.table panel = .error error ↔
      ∃ (index : Nat) (op : Operation), s.operations[index]? = some op ∧ op.packet index = .error error ∧
        ∀ j < index, ∀ x, s.operations[j]? = some x → ∃ packet, x.packet j = .ok packet := by
  have stage : s.table panel = .error error ↔ s.tableEntries panel = .error error := bind_pure_eq_error_iff
  rw [stage, CommandSequence.tableEntries, mapM_zipIdx_error_iff]
  simp only [bind_pure_eq_error_iff, exists_bind_pure_ok_iff]

/-- Every operation of a sequence that has a table has a packet. -/
theorem CommandSequence.exists_packet_of_table {panel table : String} {s : CommandSequence}
    (made : s.table panel = .ok table) {op : Operation} (mem : op ∈ s.operations) :
    ∃ index packet, op.packet index = .ok packet := by
  obtain ⟨entries, all, -⟩ := bind_eq_ok_iff.mp made
  obtain ⟨index, here⟩ := List.mem_iff_getElem?.mp mem
  obtain ⟨entry, -, own⟩ := (mapM_zipIdx_ok all).2 index op here
  exact ⟨index, exists_bind_pure_ok_iff.mp ⟨entry, own⟩⟩

/-! ## Operations of an array -/

/-- The opcode has no transaction, or the transaction is short and the payload longer than the two bytes
of a short packet. -/
def Operation.Unpackable (op : Operation) : Prop :=
  (∀ t : Transaction, t.opcode ≠ op.opcode) ∨
    ∃ t : Transaction, t.opcode = op.opcode ∧ t.isLong = false ∧ 2 < op.payload.length

/-- The decoder leaves payloads to operations that frames can hold and transactions carry. -/
theorem fits_of_mem_decode {data : Bytes} {operations : List Operation}
    (decoded : decode data = .ok operations) {op : Operation} (mem : op ∈ operations) :
    op.payload.length ≤ maxPayload ∧ op.FitsLimit := by
  obtain ⟨frames, complete, -, rfl⟩ := decode_ok_iff.mp decoded
  obtain ⟨f, hf, rfl⟩ := List.mem_map.mp mem
  exact ⟨(complete f hf).operation_payload_le, f.operation_fitsLimit⟩

/-- Where the length field can give the payload, it is only the short packets that it may not fit. -/
theorem Operation.exists_packet_error_iff {op : Operation} (fits : op.payload.length ≤ maxPayload)
    (index : Nat) : (∃ error, op.packet index = .error error) ↔ op.Unpackable := by
  constructor
  · rintro ⟨error, failed⟩
    cases Operation.packet_error_iff.mp failed with
    | unknown opcode => exact .inl opcode
    | tooLong t opcode long length => exact absurd fits (Nat.not_le_of_lt length)
    | overflow t opcode short length => exact .inr ⟨t, opcode, short, length⟩
  · rintro (unknown | ⟨t, opcode, short, length⟩)
    · exact ⟨_, Operation.packet_error_iff.mpr (.unknown unknown)⟩
    · exact ⟨_, Operation.packet_error_iff.mpr (.overflow t opcode short length)⟩

theorem Operation.exists_packet_iff {op : Operation} (fits : op.payload.length ≤ maxPayload) (index : Nat) :
    (∃ packet, op.packet index = .ok packet) ↔ ¬ op.Unpackable := by
  rw [← Operation.exists_packet_error_iff fits index]
  cases op.packet index with
  | ok packet => exact ⟨fun _ ⟨_, failed⟩ => (nomatch failed), fun _ => ⟨packet, rfl⟩⟩
  | error error => exact ⟨fun ⟨_, made⟩ => (nomatch made), fun h => absurd ⟨error, rfl⟩ h⟩

/-- Where the decoder bounds the payload of a short transaction, the bound is that of a short packet, but
for one generic write. -/
theorem Transaction.limit_of_short {t : Transaction} (short : t.isLong = false) :
    t.limit = .unbounded ∨
      ∃ max, t.limit = .atMost max ∧ (max ≤ 2 ∨ t = .genericShortWrite2Param ∧ max = 3) := by
  revert short
  cases t <;> first | exact fun _ => .inl rfl | exact fun _ => .inr ⟨_, rfl, by decide⟩

/-- A decoded payload that no short packet holds has the three bytes of a generic write, or was not cut. -/
theorem Operation.FitsLimit.of_overflow {op : Operation} (h : op.FitsLimit) {t : Transaction}
    (opcode : t.opcode = op.opcode) (short : t.isLong = false) (length : 2 < op.payload.length) :
    t = .genericShortWrite2Param ∧ op.payload.length = 3 ∨ t.limit = .unbounded := by
  rcases Transaction.limit_of_short short with free | ⟨max, limit, small | ⟨rfl, rfl⟩⟩
  · exact .inr free
  · have bound := h t opcode max limit
    omega
  · have bound := h _ opcode 3 limit
    exact .inl ⟨rfl, by omega⟩

/-! ## The law -/

/-- The operation at `index` is the first one for which there is no packet. -/
structure FirstUnpackable (operations : List Operation) (index : Nat) (op : Operation) : Prop where
  here : operations[index]? = some op
  unpackable : op.Unpackable
  before : ∀ j < index, ∀ x, operations[j]? = some x → ¬ x.Unpackable

section Fitting

variable {s : CommandSequence} (fits : ∀ op ∈ s.operations, op.payload.length ≤ maxPayload)

include fits

/-- Where all payloads can be counted, the first operation without a packet is told. -/
theorem CommandSequence.table_error_iff_first {panel : String} {error : SynthesisError} :
    s.table panel = .error error ↔
      ∃ index op, FirstUnpackable s.operations index op ∧ op.packet index = .error error := by
  have own {i : Nat} {op : Operation} (here : s.operations[i]? = some op) :=
    fits op (List.mem_of_getElem? here)
  rw [CommandSequence.table_error_iff]
  constructor
  · rintro ⟨index, op, here, failed, before⟩
    have unpackable := (Operation.exists_packet_error_iff (own here) index).mp ⟨error, failed⟩
    exact ⟨index, op, ⟨here, unpackable, fun j below x hx =>
      (Operation.exists_packet_iff (own hx) j).mp (before j below x hx)⟩, failed⟩
  · rintro ⟨index, op, ⟨here, -, before⟩, failed⟩
    exact ⟨index, op, here, failed, fun j below x hx =>
      (Operation.exists_packet_iff (own hx) j).mpr (before j below x hx)⟩

theorem CommandSequence.exists_table_error_iff {panel : String} :
    (∃ error, s.table panel = .error error) ↔ ∃ op ∈ s.operations, op.Unpackable := by
  constructor
  · rintro ⟨error, failed⟩
    obtain ⟨index, op, first, -⟩ := (CommandSequence.table_error_iff_first fits).mp failed
    exact ⟨op, List.mem_of_getElem? first.here, first.unpackable⟩
  · rintro ⟨op, mem, unpackable⟩
    cases made : s.table panel with
    | error error => exact ⟨error, rfl⟩
    | ok table =>
      obtain ⟨index, packet, own⟩ := CommandSequence.exists_packet_of_table made mem
      exact absurd unpackable ((Operation.exists_packet_iff (fits op mem) index).mp ⟨packet, own⟩)

end Fitting

/-- Which decoded arrays have no table, whatever the names. There is none exactly if an operation has an
unknown opcode or is short with more than two bytes, and the error is that of the packet of the first such
operation. It never is that of a payload too long for a long packet, and that of one too long for a short
packet only for a generic write with exactly three bytes or a transaction without a bound. -/
theorem table_of_decoded (data : Bytes) (operations : List Operation)
    (decoded : decode data = .ok operations) (panel name : String) (mode : SignalingMode) :
    ((∃ error, CommandSequence.table panel { name, mode, operations } = .error error) ↔
      ∃ op ∈ operations, op.Unpackable) ∧
    (∀ error, CommandSequence.table panel { name, mode, operations } = .error error ↔
      ∃ index op, FirstUnpackable operations index op ∧ op.packet index = .error error) ∧
    (∀ index length,
      CommandSequence.table panel { name, mode, operations } ≠ .error (.payloadTooLong index length)) ∧
    ∀ index length,
      CommandSequence.table panel { name, mode, operations } = .error (.shortOverflow index length) →
        ∃ (op : Operation) (t : Transaction), operations[index]? = some op ∧ t.opcode = op.opcode ∧
          op.payload.length = length ∧
          (t = .genericShortWrite2Param ∧ length = 3 ∨ t.isLong = false ∧ t.limit = .unbounded) := by
  have fits (op : Operation) (mem : op ∈ operations) := fits_of_mem_decode decoded mem
  have counted (op : Operation) (mem : op ∈ operations) := (fits op mem).1
  refine ⟨CommandSequence.exists_table_error_iff counted,
    fun error => CommandSequence.table_error_iff_first counted, fun index length failed => ?_,
    fun index length failed => ?_⟩
  · obtain ⟨_, op, here, failed, -⟩ := CommandSequence.table_error_iff.mp failed
    cases Operation.packet_error_iff.mp failed with
    | tooLong t opcode long exceeds =>
      exact absurd (counted op (List.mem_of_getElem? here)) (Nat.not_le_of_lt exceeds)
  · obtain ⟨_, op, here, failed, -⟩ := CommandSequence.table_error_iff.mp failed
    cases Operation.packet_error_iff.mp failed with
    | overflow t opcode short exceeds =>
      refine ⟨op, t, here, opcode, rfl, ?_⟩
      have cut := (fits op (List.mem_of_getElem? here)).2.of_overflow opcode short exceeds
      exact cut.imp id fun free => ⟨short, free⟩

/-- A long write, then a generic short write with four bytes, of which the decoder leaves three, and an
unknown opcode. -/
def overfullArray : Bytes :=
  [0x39, 0, 0, 0, 0, 0, 1, 0x11] ++ [0x23, 0, 0, 0, 0, 0, 4, 1, 2, 3, 4] ++ [0xff, 1, 0, 0, 0, 0, 0]

/-- The generic write is told, since it stands before the unknown opcode, and it is told with three bytes. -/
theorem table_of_decoded_overfull :
    ∃ operations, decode overfullArray = .ok operations ∧
      CommandSequence.table "p" { name := "on", mode := .lowPower, operations } =
        .error (.shortOverflow 1 3) ∧
      ∃ (op : Operation) (t : Transaction), operations[1]? = some op ∧ t.opcode = op.opcode ∧
        op.payload.length = 3 := by
  have decoded : decode overfullArray = .ok [{ opcode := 0x39, payload := [0x11] },
      { opcode := 0x23, payload := [1, 2, 3] }, { opcode := 0xff, last := true }] := by cbv
  obtain ⟨-, errors, -, overflow⟩ := table_of_decoded _ _ decoded "p" "on" .lowPower
  have first : FirstUnpackable [{ opcode := 0x39, payload := [0x11] },
      { opcode := 0x23, payload := [1, 2, 3] }, { opcode := 0xff, last := true }] 1
      { opcode := 0x23, payload := [1, 2, 3] } := by
    refine ⟨rfl, .inr ⟨.genericShortWrite2Param, rfl, rfl, by decide⟩, fun j below op own => ?_⟩
    obtain rfl := Nat.lt_one_iff.mp below
    cases own
    exact (Operation.exists_packet_iff (by decide) 0).mp ⟨_, rfl⟩
  have told := (errors (.shortOverflow 1 3)).mpr ⟨1, _, first, rfl⟩
  obtain ⟨op, t, here, opcode, length, -⟩ := overflow 1 3 told
  exact ⟨_, decoded, told, op, t, here, opcode, length⟩

end DsiPanel
