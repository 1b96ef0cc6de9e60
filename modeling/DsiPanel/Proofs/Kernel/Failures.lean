import DsiPanel.Proofs.Kernel.Fragments
import DsiPanel.Proofs.Wire.Concatenation

/-!
# Which arrays have no driver text

Text is made of an array in two stages, and each of them can fail in its own way. The array may not
decode; or an operation of it may be one that a driver cannot send, which its opcode alone decides
(`Operation.Supported`).

**The law** (`synthesizeRaw_failure`): the first stage goes before the second over the whole array, so
a frame that is cut off at the end is told even where an operation before it has no text. Otherwise
the first unsupported operation is told (`FirstUnsupported`), and where there is none there is text.
No setting is asked on the way. So nothing about a payload is ever an error here: an unknown opcode,
a wrong count of arguments and arguments without literals all have their statements.
-/

namespace DsiPanel

/-! ## One operation -/

/-- The opcode is not that of a transaction which a driver cannot send. -/
def Operation.Supported (op : Operation) : Prop :=
  ∀ t : Transaction, t.opcode = op.opcode → t.strategy ≠ .unsupported

theorem Transaction.action?_eq_none_iff {conservative : Bool} {payload : Bytes} {t : Transaction} :
    t.action? conservative payload = none ↔ t.strategy = .unsupported := by
  unfold Transaction.action?
  cases t.strategy <;> simp

/-- An operation has no action exactly if its transaction is unsupported, whatever its payload. -/
theorem Operation.action_error_iff {conservative : Bool} {index : Nat} {op : Operation}
    {error : SynthesisError} :
    op.action conservative index = .error error ↔
      ∃ t : Transaction, t.opcode = op.opcode ∧ t.strategy = .unsupported ∧
        error = .unsupported index t := by
  unfold Operation.action
  cases known : Transaction.ofOpcode? op.opcode with
  | none =>
    have unknown := (Transaction.ofOpcode?_eq_none_iff op.opcode).mp known
    exact ⟨fun h => (nomatch h), fun ⟨t, own, _⟩ => absurd own (unknown t)⟩
  | some t =>
    have own := (Transaction.ofOpcode?_eq_some_iff op.opcode t).mp known
    constructor
    · intro h
      cases made : t.action? conservative op.payload with
      | none =>
        simp only [made] at h
        cases h
        exact ⟨t, own, Transaction.action?_eq_none_iff.mp made, rfl⟩
      | some action =>
        simp only [made] at h
        contradiction
    · rintro ⟨u, hu, unsupported, rfl⟩
      obtain rfl := Transaction.opcode_injective (hu.trans own.symm)
      simp only [Transaction.action?_eq_none_iff.mpr unsupported]

theorem Operation.statement_error_iff {settings : Settings} {index : Nat} {op : Operation}
    {error : SynthesisError} :
    op.statement settings index = .error error ↔
      ∃ t : Transaction, t.opcode = op.opcode ∧ t.strategy = .unsupported ∧
        error = .unsupported index t :=
  bind_pure_eq_error_iff.trans Operation.action_error_iff

theorem Operation.exists_statement_iff {settings : Settings} {index : Nat} {op : Operation} :
    (∃ statement, op.statement settings index = .ok statement) ↔ op.Supported := by
  constructor
  · rintro ⟨statement, made⟩ t own unsupported
    have failed : op.statement settings index = .error (.unsupported index t) :=
      Operation.statement_error_iff.mpr ⟨t, own, unsupported, rfl⟩
    exact absurd (made.symm.trans failed) (nomatch ·)
  · intro supported
    cases made : op.statement settings index with
    | ok statement => exact ⟨statement, rfl⟩
    | error error =>
      obtain ⟨t, own, unsupported, -⟩ := Operation.statement_error_iff.mp made
      exact absurd unsupported (supported t own)

/-! ## A sequence -/

/-- The operation at `index` is the first one that a driver cannot send, and `t` is its transaction. -/
structure FirstUnsupported (operations : List Operation) (index : Nat) (t : Transaction) : Prop where
  here : ∃ op, operations[index]? = some op ∧ t.opcode = op.opcode
  strategy : t.strategy = .unsupported
  before : ∀ j < index, ∀ op, operations[j]? = some op → op.Supported

theorem CommandSequence.synthesize_error_iff {settings : Settings} {s : CommandSequence}
    {error : SynthesisError} :
    s.synthesize settings = .error error ↔
      ∃ index t, error = .unsupported index t ∧ FirstUnsupported s.operations index t := by
  have stage : s.synthesize settings = .error error ↔ s.statements settings = .error error :=
    bind_pure_eq_error_iff
  rw [stage, CommandSequence.statements, mapM_zipIdx_error_iff]
  constructor
  · rintro ⟨index, op, own, failed, before⟩
    obtain ⟨t, opcode, unsupported, rfl⟩ := Operation.statement_error_iff.mp failed
    exact ⟨index, t, rfl, ⟨op, own, opcode⟩, unsupported, fun j below x hx =>
      Operation.exists_statement_iff.mp (before j below x hx)⟩
  · rintro ⟨index, t, rfl, ⟨op, own, opcode⟩, unsupported, before⟩
    exact ⟨index, op, own, Operation.statement_error_iff.mpr ⟨t, opcode, unsupported, rfl⟩,
      fun j below x hx => Operation.exists_statement_iff.mpr (before j below x hx)⟩

theorem CommandSequence.exists_fragment_iff {settings : Settings} {s : CommandSequence} :
    (∃ fragment, s.synthesize settings = .ok fragment) ↔ ∀ op ∈ s.operations, op.Supported := by
  constructor
  · rintro ⟨fragment, made⟩
    obtain ⟨statements, all, -⟩ := CommandSequence.synthesize_ok_iff.mp made
    refine forall_right_of_forall₂ (CommandSequence.forall₂_statements all).flip ?_
    rintro statement op ⟨index, own⟩
    exact Operation.exists_statement_iff.mp ⟨statement, own⟩
  · intro supported
    cases made : s.synthesize settings with
    | ok fragment => exact ⟨fragment, rfl⟩
    | error error =>
      obtain ⟨index, t, -, ⟨op, own, opcode⟩, unsupported, -⟩ :=
        CommandSequence.synthesize_error_iff.mp made
      exact absurd unsupported (supported op (List.mem_of_getElem? own) t opcode)

/-! ## An array -/

/-- Text is made of an array through its operations, once these are known. -/
theorem synthesizeRaw_of_ok {segments : List Bytes} {operations : List Operation}
    (h : decode segments.flatten = .ok operations) (settings : Settings) (name : String)
    (mode : SignalingMode) :
    synthesizeRaw settings name mode segments =
      CommandSequence.synthesize settings { name, mode, operations } := by
  rw [synthesizeRaw, CommandSequence.decode_eq, h]
  rfl

theorem synthesizeRaw_of_error {segments : List Bytes} {cause : DecodeError}
    (h : decode segments.flatten = .error cause) (settings : Settings) (name : String)
    (mode : SignalingMode) :
    synthesizeRaw settings name mode segments = .error (.decode cause) := by
  rw [synthesizeRaw, CommandSequence.decode_eq, h]
  rfl

/-- The two stages of an array, each with its error. -/
theorem synthesizeRaw_error_iff {settings : Settings} {name : String} {mode : SignalingMode}
    {segments : List Bytes} {error : SynthesisError} :
    synthesizeRaw settings name mode segments = .error error ↔
      (∃ cause, decode segments.flatten = .error cause ∧ error = .decode cause) ∨
        ∃ operations index t, decode segments.flatten = .ok operations ∧
          FirstUnsupported operations index t ∧ error = .unsupported index t := by
  cases decoded : decode segments.flatten with
  | error cause =>
    rw [synthesizeRaw_of_error decoded]
    constructor
    · intro h
      cases h
      exact .inl ⟨cause, rfl, rfl⟩
    · rintro (⟨_, same, rfl⟩ | ⟨_, _, _, same, _⟩)
      · cases same
        rfl
      · contradiction
  | ok operations =>
    rw [synthesizeRaw_of_ok decoded, CommandSequence.synthesize_error_iff]
    constructor
    · rintro ⟨index, t, rfl, first⟩
      exact .inr ⟨operations, index, t, rfl, first, rfl⟩
    · rintro (⟨_, same, _⟩ | ⟨_, index, t, same, first, rfl⟩)
      · contradiction
      · cases same
        exact ⟨index, t, rfl, first⟩

theorem synthesizeRaw_ok_iff {settings : Settings} {name : String} {mode : SignalingMode}
    {segments : List Bytes} :
    (∃ fragment, synthesizeRaw settings name mode segments = .ok fragment) ↔
      ∃ operations, decode segments.flatten = .ok operations ∧ ∀ op ∈ operations, op.Supported := by
  cases decoded : decode segments.flatten with
  | error cause =>
    rw [synthesizeRaw_of_error decoded]
    exact ⟨fun ⟨_, h⟩ => (nomatch h), fun ⟨_, h, _⟩ => (nomatch h)⟩
  | ok operations =>
    rw [synthesizeRaw_of_ok decoded, CommandSequence.exists_fragment_iff]
    constructor
    · intro supported
      exact ⟨operations, rfl, supported⟩
    · rintro ⟨_, same, supported⟩
      cases same
      exact supported

/-! ## The law -/

/-- Which arrays have no text, and why. An error of the decoder goes before all others and tells
bytes that are cut off or a bad channel; an unsupported transaction is told of an array that decodes,
with the first operation that is of one. There is no other error, and text is made of all other
arrays. The settings decide neither whether there is text nor which error there is. -/
theorem synthesizeRaw_failure (settings : Settings) (name : String) (mode : SignalingMode)
    (segments : List Bytes) :
    (∀ cause, synthesizeRaw settings name mode segments = .error (.decode cause) ↔
      decode segments.flatten = .error cause) ∧
    (∀ cause, decode segments.flatten = .error cause →
      (∃ index offset need available, cause = .truncated index offset need available) ∨
        ∃ index offset value, cause = .invalidChannel index offset value) ∧
    (∀ index t, synthesizeRaw settings name mode segments = .error (.unsupported index t) ↔
      ∃ operations, decode segments.flatten = .ok operations ∧ FirstUnsupported operations index t) ∧
    (∀ error, synthesizeRaw settings name mode segments = .error error →
      (∃ cause, error = .decode cause) ∨ ∃ index t, error = .unsupported index t) ∧
    ((∃ fragment, synthesizeRaw settings name mode segments = .ok fragment) ↔
      ∃ operations, decode segments.flatten = .ok operations ∧ ∀ op ∈ operations, op.Supported) ∧
    ∀ other : Settings,
      ((∃ fragment, synthesizeRaw other name mode segments = .ok fragment) ↔
        ∃ fragment, synthesizeRaw settings name mode segments = .ok fragment) ∧
      ∀ error, synthesizeRaw other name mode segments = .error error ↔
        synthesizeRaw settings name mode segments = .error error := by
  refine ⟨fun cause => ?_, fun cause failed => ?_, fun index t => ?_, fun error failed => ?_,
    synthesizeRaw_ok_iff, fun other => ⟨?_, fun error => ?_⟩⟩
  · rw [synthesizeRaw_error_iff]
    simp
  · obtain ⟨frames, rest, -, -, fault⟩ := decode_error_iff.mp failed
    rcases fault.eq_truncated_or_channel with ⟨need, available, told⟩ | ⟨value, told⟩
    · exact .inl ⟨_, _, need, available, told⟩
    · exact .inr ⟨_, _, value, told⟩
  · rw [synthesizeRaw_error_iff]
    simp
  · rcases synthesizeRaw_error_iff.mp failed with ⟨cause, -, told⟩ | ⟨-, index, t, -, -, told⟩
    · exact .inl ⟨cause, told⟩
    · exact .inr ⟨index, t, told⟩
  · rw [synthesizeRaw_ok_iff, synthesizeRaw_ok_iff]
  · rw [synthesizeRaw_error_iff, synthesizeRaw_error_iff]

/-- An unsupported operation that is followed by a frame which is cut off, and one that follows an
opcode without a transaction. -/
theorem synthesizeRaw_failure_order :
    synthesizeRaw .standard "on" .lowPower [[0x3e, 1, 0, 0, 0, 0, 0, 0x05], [1]] =
      .error (.decode (.truncated 1 7 7 2)) ∧
    (∃ index offset need available,
      DecodeError.truncated 1 7 7 2 = .truncated index offset need available) ∧
    synthesizeRaw .standard "on" .lowPower [[0xff, 1, 0, 0, 0, 0, 0], [0x3e, 1, 0, 0, 0, 0, 0]] =
      .error (.unsupported 1 .packedPixelStream24) ∧
    ∃ index t, SynthesisError.unsupported 1 .packedPixelStream24 = .unsupported index t := by
  have cut : decode [0x3e, 1, 0, 0, 0, 0, 0, 0x05, 1] = .error (.truncated 1 7 7 2) := by cbv
  have whole : decode [0xff, 1, 0, 0, 0, 0, 0, 0x3e, 1, 0, 0, 0, 0, 0] =
      .ok [{ opcode := 0xff, last := true }, { opcode := 0x3e, last := true }] := by cbv
  have first : FirstUnsupported [{ opcode := 0xff, last := true }, { opcode := 0x3e, last := true }] 1
      .packedPixelStream24 := by
    refine ⟨⟨_, rfl, rfl⟩, rfl, fun j below op own => ?_⟩
    obtain rfl := Nat.lt_one_iff.mp below
    cases own
    intro t known
    cases t <;> exact absurd known (by decide)
  obtain ⟨decoding, causes, -, -, -, -⟩ := synthesizeRaw_failure .standard "on" .lowPower
    [[0x3e, 1, 0, 0, 0, 0, 0, 0x05], [1]]
  obtain ⟨-, -, unsupported, errors, -, -⟩ := synthesizeRaw_failure .standard "on" .lowPower
    [[0xff, 1, 0, 0, 0, 0, 0], [0x3e, 1, 0, 0, 0, 0, 0]]
  have told := (unsupported 1 .packedPixelStream24).mpr ⟨_, whole, first⟩
  refine ⟨(decoding _).mpr cut, ?_, told, ?_⟩
  · rcases causes _ cut with cutOff | ⟨_, _, _, channel⟩
    · exact cutOff
    · cases channel
  · rcases errors _ told with ⟨_, decoding⟩ | named
    · cases decoding
    · exact named

end DsiPanel
