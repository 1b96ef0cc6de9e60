import DsiPanel.Note.Trace
import DsiPanel.Proofs.Kernel.Failures
import DsiPanel.Proofs.Note.Reports

/-!
# Warnings of generated text

A statement can say less than the data of its operation in four ways: the opcode has no transaction, the
transaction is left out, a DCS write has no byte, or its bytes are not what the command that they name takes
(`Warns`). A reader of the text is to know of each such statement.

**The law** (`CommandSequence.notes_reported`): of the operations that a run comes to, which are all or those up
to the first that a driver cannot send (`Reached`), each with such a statement has one warning, and no other has
any. The strategy of each that has a transaction is told, and a last note is given exactly if there is text.

The warnings of one operation are the one that is due, or none: of the four ways no two are open to the same
operation (`Transaction.warnings_reports`). A run goes on after an operation exactly if this one has text, and
gives what its operations give (`operationNotes_reports`).
-/

namespace DsiPanel

/-! ## What is due -/

/-- The warning that is due for an operation at its place. -/
inductive Warns (conservative : Bool) : Operation × Nat → Note → Prop
  | unknownOpcode {op : Operation} {index : Nat} (unknown : ∀ t : Transaction, t.opcode ≠ op.opcode) :
      Warns conservative (op, index) (.unknownOpcode index op.opcode op.payload)
  | ignored {op : Operation} {index : Nat} {t : Transaction} (opcode : t.opcode = op.opcode)
      (strategy : t.strategy = .ignore) : Warns conservative (op, index) (.ignored t)
  | emptyPayload {op : Operation} {index : Nat} {t : Transaction} (opcode : t.opcode = op.opcode)
      (strategy : t.strategy = .commandWrite) (empty : op.payload = []) :
      Warns conservative (op, index) (.emptyPayload t)
  | mismatch {op : Operation} {index : Nat} {t : Transaction} {found : Mismatch} (opcode : t.opcode = op.opcode)
      (strategy : t.strategy = .commandWrite) (told : (resolve conservative op.payload).mismatch? = some found) :
      Warns conservative (op, index) (.mismatch found)

/-- The note of the strategy by which an operation at its place is turned into text, if it has a transaction. -/
inductive Announces : Operation × Nat → Note → Prop
  | strategy {op : Operation} {index : Nat} {t : Transaction} (opcode : t.opcode = op.opcode) :
      Announces (op, index) (.strategy index t)

theorem Warns.level {conservative : Bool} {entry : Operation × Nat} {note : Note}
    (h : Warns conservative entry note) : note.level = .warn := by
  cases h <;> rfl

section Operation

variable {conservative : Bool} {op : Operation} {index : Nat} {t : Transaction} {note : Note}

theorem warns_iff_of_unknown (unknown : ∀ t : Transaction, t.opcode ≠ op.opcode) :
    Warns conservative (op, index) note ↔ note = .unknownOpcode index op.opcode op.payload := by
  constructor
  · intro h
    cases h with
    | unknownOpcode => rfl
    | ignored opcode | emptyPayload opcode | mismatch opcode => exact absurd opcode (unknown _)
  · rintro rfl
    exact .unknownOpcode unknown

theorem warns_iff_of_known (own : t.opcode = op.opcode) :
    Warns conservative (op, index) note ↔
      (t.strategy = .ignore ∧ note = .ignored t) ∨
        t.strategy = .commandWrite ∧
          (op.payload = [] ∧ note = .emptyPayload t ∨
            ∃ found, (resolve conservative op.payload).mismatch? = some found ∧ note = .mismatch found) := by
  have only {u : Transaction} (opcode : u.opcode = op.opcode) : u = t :=
    Transaction.opcode_injective (opcode.trans own.symm)
  constructor
  · intro h
    cases h with
    | unknownOpcode unknown => exact absurd own (unknown t)
    | ignored opcode strategy =>
      obtain rfl := only opcode
      exact .inl ⟨strategy, rfl⟩
    | emptyPayload opcode strategy empty =>
      obtain rfl := only opcode
      exact .inr ⟨strategy, .inl ⟨empty, rfl⟩⟩
    | mismatch opcode strategy told =>
      obtain rfl := only opcode
      exact .inr ⟨strategy, .inr ⟨_, told, rfl⟩⟩
  · rintro (⟨strategy, rfl⟩ | ⟨strategy, ⟨empty, rfl⟩ | ⟨found, told, rfl⟩⟩)
    · exact .ignored own strategy
    · exact .emptyPayload own strategy empty
    · exact .mismatch own strategy told

theorem announces_iff_of_known (own : t.opcode = op.opcode) :
    Announces (op, index) note ↔ note = .strategy index t := by
  constructor
  · intro h
    cases h with
    | strategy opcode => rw [Transaction.opcode_injective (opcode.trans own.symm)]
  · rintro rfl
    exact .strategy own

/-! ## One operation -/

/-- The warnings of a transaction are the one that is due for an operation of it, or none. -/
theorem Transaction.warnings_reports (own : t.opcode = op.opcode) (conservative : Bool) (index : Nat) :
    Reports (Warns conservative) [(op, index)] (t.warnings conservative op.payload) := by
  have due (note : Note) : Warns conservative (op, index) note ↔ _ := warns_iff_of_known own
  unfold Transaction.warnings
  cases strategy : t.strategy with
  | ignore => exact .told (fun note => by simp [due, strategy]) .nil
  | commandWrite =>
    by_cases empty : op.payload = []
    · -- Nothing is found of a payload without a byte, so that it is empty is told alone.
      rw [if_pos (List.isEmpty_iff.mpr empty)]
      exact .told (fun note => by simp [due, strategy, empty, resolve, Resolution.mismatch?]) .nil
    · rw [if_neg (mt List.isEmpty_iff.mp empty), Resolution.notes]
      cases told : (resolve conservative op.payload).mismatch? with
      | some found => exact .told (fun note => by simp [due, strategy, empty, told]) .nil
      | none => exact .silent (fun note => by simp [due, strategy, empty, told]) .nil
  | genericWrite | peripheralControl | compressionMode | unsupported =>
    exact .silent (fun note => by simp [due, strategy]) .nil

/-- What is told of an operation: its strategy, if it has a transaction, and the warning that is due. -/
theorem Operation.notes_reports (conservative : Bool) (index : Nat) (op : Operation) :
    Reports (Warns conservative) [(op, index)] (notesAt .warn (op.notes conservative index)) ∧
      Reports Announces [(op, index)] (notesAt .debug (op.notes conservative index)) := by
  unfold Operation.notes
  cases known : Transaction.ofOpcode? op.opcode with
  | none =>
    have unknown := (Transaction.ofOpcode?_eq_none_iff op.opcode).mp known
    refine ⟨.told (fun note => warns_iff_of_unknown unknown) .nil, .silent (fun note told => ?_) .nil⟩
    cases told with
    | strategy opcode => exact unknown _ opcode
  | some t =>
    have own := (Transaction.ofOpcode?_eq_some_iff op.opcode t).mp known
    have due := Transaction.warnings_reports own conservative index
    have level : ∀ note ∈ t.warnings conservative op.payload, note.level = .warn := by
      intro note mem
      obtain ⟨entry, -, warns⟩ := due.exists_mem note mem
      exact warns.level
    constructor
    · show Reports _ _ (notesAt .warn (t.warnings conservative op.payload))
      rw [notesAt_eq_self level]
      exact due
    · show Reports _ _ (.strategy index t :: notesAt .debug (t.warnings conservative op.payload))
      rw [notesAt_eq_nil (by decide) level]
      exact .told (fun note => announces_iff_of_known own) .nil

theorem Operation.isSupported_iff : op.isSupported = true ↔ op.Supported := by
  unfold Operation.isSupported
  cases known : Transaction.ofOpcode? op.opcode with
  | none =>
    have unknown := (Transaction.ofOpcode?_eq_none_iff op.opcode).mp known
    exact iff_of_true rfl fun t own => absurd own (unknown t)
  | some t =>
    have own := (Transaction.ofOpcode?_eq_some_iff op.opcode t).mp known
    rw [bne_iff_ne]
    refine ⟨fun sent u opcode => ?_, fun supported => supported t own⟩
    rw [Transaction.opcode_injective (opcode.trans own.symm)]
    exact sent

end Operation

/-! ## A run -/

/-- The operations that a run comes to, with their places: all, if a driver can send all, and otherwise those up
to the first that it cannot send, with this one. -/
inductive Reached (operations : List Operation) : List (Operation × Nat) → Prop
  | all (supported : ∀ op ∈ operations, op.Supported) : Reached operations operations.zipIdx
  | upTo {index : Nat} {t : Transaction} (first : FirstUnsupported operations index t) :
      Reached operations (operations.zipIdx.take (index + 1))

/-- A run comes to the operations before the first without text and to this one. -/
theorem reached_findIdx (operations : List Operation) :
    Reached operations (operations.zipIdx.take (operations.findIdx (!·.isSupported) + 1)) := by
  have fails {op : Operation} : (!op.isSupported) = true ↔ ¬ op.Supported := by
    rw [Bool.not_eq_true', Bool.eq_false_iff]
    exact not_congr Operation.isSupported_iff
  by_cases supported : ∀ op ∈ operations, op.Supported
  · have past : operations.findIdx (!·.isSupported) = operations.length :=
      List.findIdx_eq_length.mpr fun op mem => Bool.eq_false_iff.mpr (mt fails.mp (not_not_intro (supported op mem)))
    rw [past, List.take_of_length_le (List.length_zipIdx.trans_le (Nat.le_succ _))]
    exact .all supported
  · push Not at supported
    obtain ⟨op, mem, unsupported⟩ := supported
    have inside : operations.findIdx (!·.isSupported) < operations.length :=
      List.findIdx_lt_length.mpr ⟨op, mem, fails.mpr unsupported⟩
    have here := fails.mp (List.findIdx_getElem (w := inside))
    unfold Operation.Supported at here
    push Not at here
    obtain ⟨t, opcode, strategy⟩ := here
    refine .upTo ⟨⟨_, List.getElem?_eq_getElem inside, opcode⟩, strategy, fun j below other own => ?_⟩
    obtain ⟨place, rfl⟩ := List.getElem?_eq_some_iff.mp own
    have before : (!operations[j].isSupported) = false := List.not_of_lt_findIdx below
    exact not_not.mp fun unsent => Bool.eq_false_iff.mp before (fails.mpr unsent)

/-- A run tells what is told of each operation up to the first without text, in their order. -/
theorem operationNotes_reports (conservative : Bool) (index : Nat) (operations : List Operation) :
    let reached := (operations.zipIdx index).take (operations.findIdx (!·.isSupported) + 1)
    Reports (Warns conservative) reached (notesAt .warn (operationNotes conservative index operations)) ∧
      Reports Announces reached (notesAt .debug (operationNotes conservative index operations)) := by
  induction operations generalizing index with
  | nil => exact ⟨.nil, .nil⟩
  | cons op rest ih =>
    obtain ⟨warns, announces⟩ := op.notes_reports conservative index
    obtain ⟨laterWarns, laterAnnounces⟩ := ih (index + 1)
    rw [operationNotes, List.zipIdx_cons, List.findIdx_cons]
    cases op.isSupported with
    | true =>
      simp only [Bool.not_true, cond_false, List.take_succ_cons, if_true, notesAt_append]
      exact ⟨warns.append laterWarns, announces.append laterAnnounces⟩
    | false =>
      simp only [Bool.not_false, cond_true, List.take_succ_cons, List.take_zero, Bool.false_eq_true, if_false,
        List.append_nil]
      exact ⟨warns, announces⟩

/-- **What is told of turning a sequence into text.** The warnings are those that are due for the operations that
the run comes to, one each and in order. Of each of these operations that has a transaction the strategy is told,
also of one that cannot be sent. A last note is given exactly if there is text. -/
theorem CommandSequence.notes_reported (settings : Settings) (s : CommandSequence) :
    ∃ reached told final, Reached s.operations reached ∧ s.notes settings = told ++ final ∧
      Reports (Warns settings.conservative) reached (notesAt .warn (s.notes settings)) ∧
      Reports Announces reached (notesAt .debug told) ∧
      ((∃ fragment, s.synthesize settings = .ok fragment ∧
          final = [.synthesized s.name s.operations.length fragment.features]) ∨
        (∃ error, s.synthesize settings = .error error) ∧ final = []) := by
  obtain ⟨warns, announces⟩ := operationNotes_reports settings.conservative 0 s.operations
  refine ⟨_, operationNotes settings.conservative 0 s.operations, _, reached_findIdx s.operations, rfl, ?_,
    announces, ?_⟩
  · rw [CommandSequence.notes, notesAt_append]
    cases s.synthesize settings with
    | error => exact (List.append_nil _).symm ▸ warns
    | ok => exact (List.append_nil _).symm ▸ warns
  · cases made : s.synthesize settings with
    | error error => exact .inr ⟨⟨error, rfl⟩, rfl⟩
    | ok fragment => exact .inl ⟨fragment, rfl, rfl⟩

end DsiPanel
