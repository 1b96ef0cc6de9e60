import DsiPanel.Proofs.Kernel.Failures
import DsiPanel.Proofs.Kernel.Traces
import DsiPanel.Proofs.Kernel.Writes

/-!
# What conservative matching holds back

Conservative matching lets four commands through and no other. It is one of several tests between a
payload and its command, and the tests after it may fail as well, so what it changes is told by what the
payload resolves to without it (`resolve_conservative_iff`): a write is held back exactly if it would
have resolved to another command.

**The law** (`CommandSequence.synthesize_conservative`): an operation that is held back is written byte
by byte (`WrittenRaw`), all others have the same statement, and errors are the same. So conservative
matching takes features away and adds none.
-/

namespace DsiPanel

/-! ## Resolution -/

/-- A payload resolves conservatively to the commands that are let through, and to them as it does
otherwise. -/
theorem resolve_conservative_iff {payload : Bytes} {command : DcsCommand} {literals : List String} :
    resolve true payload = .matched command literals ↔
      resolve false payload = .matched command literals ∧ command ∈ DcsCommand.conservative := by
  have through : command.isConservative = true ↔ command ∈ DcsCommand.conservative := List.contains_iff_mem
  rw [resolve_eq_matched_iff, resolve_eq_matched_iff, ← through]
  constructor
  · rintro ⟨arguments, payload, free, fits, decoded⟩
    exact ⟨⟨arguments, payload, fun held => (nomatch held), fits, decoded⟩, free rfl⟩
  · rintro ⟨⟨arguments, payload, -, fits, decoded⟩, free⟩
    exact ⟨arguments, payload, fun _ => free, fits, decoded⟩

/-- What is done for a payload that resolves to a command does not depend on how it was matched. -/
theorem commandAction_of_matched {conservative : Bool} {payload : Bytes} {command : DcsCommand}
    {literals : List String} (h : resolve conservative payload = .matched command literals) (t : Transaction) :
    commandAction conservative t payload =
      match command.helper? with
      | some function => .call { function, arguments := literals, subject := command.name }
      | none => .writeCommand command payload.tail := by
  cases found : command.helper? with
  | some function => simp only [commandAction, h, found]
  | none => simp only [commandAction, h, found]

/-- Nor does what is done for one that resolves to none. -/
theorem commandAction_of_unmatched {conservative : Bool} {payload : Bytes}
    (h : ∀ command literals, resolve conservative payload ≠ .matched command literals) (t : Transaction) :
    commandAction conservative t payload =
      if payload.isEmpty then emptyWrite WriteFamily.dcs.bareFunction t else .writeBytes .dcs payload := by
  unfold commandAction
  split
  next resolved => exact absurd resolved (h _ _)
  next => rfl

/-- A payload of a command that conservative matching does not let through. -/
def HeldBackPayload (payload : Bytes) : Prop :=
  ∃ command literals, resolve false payload = .matched command literals ∧ command ∉ DcsCommand.conservative

/-- A payload that is held back is written byte by byte. -/
theorem commandAction_of_heldBack {payload : Bytes} (h : HeldBackPayload payload) (t : Transaction) :
    commandAction true t payload = .writeBytes .dcs payload ∧
      commandAction false t payload ≠ .writeBytes .dcs payload := by
  obtain ⟨command, literals, matched, held⟩ := h
  -- A payload resolves to one command at most, so it cannot resolve to another one that is let through.
  have unmatched : ∀ command literals, resolve true payload ≠ .matched command literals := by
    intro other others resolved
    obtain ⟨same, through⟩ := resolve_conservative_iff.mp resolved
    cases matched.symm.trans same
    exact held through
  obtain ⟨arguments, rfl, -⟩ := resolve_eq_matched_iff.mp matched
  constructor
  · rw [commandAction_of_unmatched unmatched]
    rfl
  · rw [commandAction_of_matched matched]
    cases command.helper? with
    | some function => exact fun same => (nomatch same)
    | none => exact fun same => (nomatch same)

/-- Any other payload is written alike. -/
theorem commandAction_of_not_heldBack {payload : Bytes} (h : ¬ HeldBackPayload payload) (t : Transaction) :
    commandAction true t payload = commandAction false t payload := by
  by_cases matched : ∃ command literals, resolve false payload = .matched command literals
  · obtain ⟨command, literals, matched⟩ := matched
    have through : command ∈ DcsCommand.conservative := by
      by_contra held
      exact h ⟨command, literals, matched, held⟩
    rw [commandAction_of_matched matched, commandAction_of_matched (resolve_conservative_iff.mpr ⟨matched, through⟩)]
  · have free : ∀ command literals, resolve false payload ≠ .matched command literals :=
      fun command literals resolved => matched ⟨command, literals, resolved⟩
    have held : ∀ command literals, resolve true payload ≠ .matched command literals :=
      fun command literals resolved => free command literals (resolve_conservative_iff.mp resolved).1
    rw [commandAction_of_unmatched free, commandAction_of_unmatched held]

/-! ## Operations -/

/-- A DCS write of a command that conservative matching does not let through. -/
def Operation.HeldBack (op : Operation) : Prop := op.family? = some .dcs ∧ HeldBackPayload op.payload

/-- For a DCS write the payload is resolved. -/
theorem Operation.action_dcs {op : Operation} (h : op.family? = some .dcs) :
    ∃ t, ∀ conservative index, op.action conservative index = .ok (commandAction conservative t op.payload) := by
  obtain ⟨t, known, strategy⟩ := Operation.family?_eq_some_iff.mp h
  refine ⟨t, fun conservative index => ?_⟩
  unfold Operation.action Transaction.action?
  rw [known]
  simp only [strategy, WriteFamily.strategy]

/-- For any other operation matching is not asked for. -/
theorem Operation.action_of_not_dcs {op : Operation} (h : op.family? ≠ some .dcs) (index : Nat) :
    op.action true index = op.action false index := by
  unfold Operation.action
  cases known : Transaction.ofOpcode? op.opcode with
  | none => rfl
  | some t =>
    have other : t.strategy ≠ .commandWrite :=
      fun strategy => h (Operation.family?_eq_some_iff.mpr ⟨t, known, strategy⟩)
    have same : t.action? true op.payload = t.action? false op.payload := by
      unfold Transaction.action?
      cases strategy : t.strategy with
      | commandWrite => exact absurd strategy other
      | _ => rfl
    simp only [same]

theorem Operation.action_of_not_heldBack {op : Operation} (h : ¬ op.HeldBack) (index : Nat) :
    op.action true index = op.action false index := by
  by_cases dcs : op.family? = some .dcs
  · obtain ⟨t, action⟩ := Operation.action_dcs dcs
    rw [action, action, commandAction_of_not_heldBack fun held => h ⟨dcs, held⟩]
  · exact Operation.action_of_not_dcs dcs index

/-! ## Statements -/

/-- The settings with conservative matching on or off. -/
def Settings.matching (settings : Settings) (conservative : Bool) : Settings :=
  { settings with conservative := conservative }

/-- The statement `raw` writes the payload of the operation byte by byte, where `own` does something
else, and it sleeps as `own` does. -/
structure WrittenRaw (op : Operation) (own raw : Statement) : Prop where
  action : raw.action = .writeBytes .dcs op.payload
  other : own.action ≠ raw.action
  delay : raw.delay = own.delay
  /-- All bytes are written in order as literals, and after them the same sleep. -/
  text : ∀ width, ∃ sleep, own.text width = own.action.text width ++ sleep ∧
    raw.text width = (argumentFrame "\tmipi_dsi_dcs_write_seq(").render (some 2) width
      ("dsi" :: op.payload.map byteLiteral) ++ sleep
  block : raw.opensBlock = false
  features : ∀ feature, raw.features.contains feature = true → feature = .delay

theorem writtenRaw {op : Operation} {own raw : Statement} (action : raw.action = .writeBytes .dcs op.payload)
    (other : own.action ≠ raw.action) (delay : raw.delay = own.delay) : WrittenRaw op own raw where
  action := action
  other := other
  delay := delay
  text := by
    have head : toString "\t" ++ toString WriteFamily.dcs.function ++ toString "(" =
        "\tmipi_dsi_dcs_write_seq(" := by
      decide
    intro width
    have line : raw.action.text width = (argumentFrame "\tmipi_dsi_dcs_write_seq(").render (some 2) width
        ("dsi" :: op.payload.map byteLiteral) := by
      rw [action, ← head]
      rfl
    rw [← line]
    unfold Statement.text
    rw [delay]
    cases own.delay with
    | none => exact ⟨"", String.append_empty.symm, String.append_empty.symm⟩
    | some ms => exact ⟨"\n" ++ delayLine ms, String.append_assoc, String.append_assoc⟩
  block := by
    rw [Statement.opensBlock, action]
    rfl
  features := by
    intro feature needed
    rw [Statement.features, action] at needed
    cases feature with
    | delay => rfl
    | _ => cases needed

/-- The raw write needs no feature that the other statement does not need. -/
theorem WrittenRaw.features_le {op : Operation} {own raw : Statement} (h : WrittenRaw op own raw)
    {feature : Feature} (needed : raw.features.contains feature = true) : own.features.contains feature = true := by
  obtain rfl := h.features feature needed
  rw [Statement.contains_delay] at needed ⊢
  rw [← h.delay]
  exact needed

/-- What conservative matching makes of a statement: a raw write if the operation is held back, and the
same statement otherwise. -/
structure HeldAs (op : Operation) (own kept : Statement) : Prop where
  same : ¬ op.HeldBack → kept = own
  raw : op.HeldBack → WrittenRaw op own kept

theorem HeldAs.features_le {op : Operation} {own kept : Statement} (h : HeldAs op own kept)
    {feature : Feature} (needed : kept.features.contains feature = true) :
    own.features.contains feature = true := by
  by_cases held : op.HeldBack
  · exact (h.raw held).features_le needed
  · exact h.same held ▸ needed

section Matching

variable (settings : Settings)

theorem Operation.heldAs {op : Operation} {index : Nat} {own kept : Statement}
    (free : op.statement (settings.matching false) index = .ok own)
    (conservative : op.statement (settings.matching true) index = .ok kept) : HeldAs op own kept := by
  obtain ⟨ownAction, ownDelay⟩ := Operation.statement_ok_iff.mp free
  obtain ⟨keptAction, keptDelay⟩ := Operation.statement_ok_iff.mp conservative
  have delay : kept.delay = own.delay := keptDelay.trans ownDelay.symm
  constructor
  · intro other
    have action : kept.action = own.action := by
      have same := Operation.action_of_not_heldBack other index
      exact Except.ok.inj (keptAction.symm.trans (same.trans ownAction))
    obtain ⟨_, _⟩ := kept
    obtain ⟨_, _⟩ := own
    rw [Statement.mk.injEq]
    exact ⟨action, delay⟩
  · rintro ⟨dcs, held⟩
    obtain ⟨t, action⟩ := Operation.action_dcs dcs
    obtain ⟨bytes, named⟩ := commandAction_of_heldBack held t
    have keeps : kept.action = .writeBytes .dcs op.payload :=
      (Except.ok.inj (keptAction.symm.trans (action true index))).trans bytes
    have owns : own.action = commandAction false t op.payload :=
      Except.ok.inj (ownAction.symm.trans (action false index))
    refine writtenRaw keeps ?_ delay
    rw [owns, keeps]
    exact named

/-- Whether an operation has a statement is no question of matching. -/
theorem Operation.statement_matching (op : Operation) (index : Nat) :
    (∃ error, op.statement (settings.matching false) index = .error error ∧
      op.statement (settings.matching true) index = .error error) ∨
    ∃ own kept, op.statement (settings.matching false) index = .ok own ∧
      op.statement (settings.matching true) index = .ok kept ∧ HeldAs op own kept := by
  cases free : op.statement (settings.matching false) index with
  | error error =>
    have failed : op.statement (settings.matching true) index = .error error :=
      Operation.statement_error_iff.mpr (Operation.statement_error_iff.mp free)
    exact .inl ⟨error, rfl, failed⟩
  | ok own =>
    obtain ⟨kept, conservative⟩ :=
      Operation.exists_statement_iff.mpr (Operation.exists_statement_iff.mp ⟨own, free⟩)
    exact .inr ⟨own, kept, rfl, conservative, Operation.heldAs settings free conservative⟩

end Matching

/-! ## Sequences -/

/-- A sequence has the features of the statements of its operations. -/
theorem CommandSequence.contains_features_iff {settings : Settings} {s : CommandSequence} {f : Fragment}
    (made : s.synthesize settings = .ok f) (feature : Feature) :
    f.features.contains feature = true ↔
      ∃ entry ∈ s.operations.zipIdx, ∃ statement, entry.1.statement settings entry.2 = .ok statement ∧
        statement.features.contains feature = true := by
  obtain ⟨statements, all, rfl⟩ := CommandSequence.synthesize_ok_iff.mp made
  rw [contains_fragment_iff]
  refine exists_mem_iff_of_forall₂ (CommandSequence.statements_ok_iff.mp all) fun entry b c first second => ?_
  exact Except.ok.inj (first.symm.trans second)

/-- What conservative matching changes. An operation has the same error with it and without it, or
statements with both. They are the same but for a DCS write whose payload resolves to a command other
than the four that are let through: that is written byte by byte, with the same sleep, without a block
and with no feature but the delay. So the features of a sequence become fewer or stay the same. -/
theorem CommandSequence.synthesize_conservative (settings : Settings) :
    (∀ (op : Operation) (index : Nat),
      (∃ error, op.statement (settings.matching false) index = .error error ∧
        op.statement (settings.matching true) index = .error error) ∨
      ∃ own kept, op.statement (settings.matching false) index = .ok own ∧
        op.statement (settings.matching true) index = .ok kept ∧
        (¬ op.HeldBack → kept = own) ∧ (op.HeldBack → WrittenRaw op own kept)) ∧
    ∀ s : CommandSequence,
      (∃ error, s.synthesize (settings.matching false) = .error error ∧
        s.synthesize (settings.matching true) = .error error) ∨
      ∃ f g, s.synthesize (settings.matching false) = .ok f ∧ s.synthesize (settings.matching true) = .ok g ∧
        ∀ feature, g.features.contains feature = true → f.features.contains feature = true := by
  constructor
  · intro op index
    refine (Operation.statement_matching settings op index).imp id ?_
    rintro ⟨own, kept, free, conservative, held⟩
    exact ⟨own, kept, free, conservative, held.same, held.raw⟩
  · intro s
    cases free : s.synthesize (settings.matching false) with
    | error error =>
      have failed : s.synthesize (settings.matching true) = .error error :=
        CommandSequence.synthesize_error_iff.mpr (CommandSequence.synthesize_error_iff.mp free)
      exact .inl ⟨error, rfl, failed⟩
    | ok f =>
      obtain ⟨g, conservative⟩ :=
        CommandSequence.exists_fragment_iff.mpr (CommandSequence.exists_fragment_iff.mp ⟨f, free⟩)
      refine .inr ⟨f, g, rfl, conservative, fun feature needed => ?_⟩
      rw [CommandSequence.contains_features_iff conservative] at needed
      rw [CommandSequence.contains_features_iff free]
      obtain ⟨entry, mem, kept, held, needed⟩ := needed
      obtain ⟨own, owned⟩ := Operation.exists_statement_iff.mpr (Operation.exists_statement_iff.mp ⟨kept, held⟩)
      exact ⟨entry, mem, own, owned, (Operation.heldAs settings owned held).features_le needed⟩

/-- A named command with a wait is written byte by byte and keeps its sleep, and a command that is let
through has the same statement. -/
theorem CommandSequence.synthesize_conservative_control :
    (∃ own kept, Operation.statement (Settings.standard.matching false) 0
        { opcode := 0x39, wait := 5, payload := [0x53, 0x24] } = .ok own ∧
      Operation.statement (Settings.standard.matching true) 0
        { opcode := 0x39, wait := 5, payload := [0x53, 0x24] } = .ok kept ∧
      own.action = .writeCommand .writeControlDisplay [0x24] ∧ kept.action = .writeBytes .dcs [0x53, 0x24] ∧
      kept.delay = some 5 ∧ ∀ feature, kept.features.contains feature = true → feature = .delay) ∧
    Operation.statement (Settings.standard.matching true) 0 { opcode := 0x05, payload := [0x11] } =
      Operation.statement (Settings.standard.matching false) 0 { opcode := 0x05, payload := [0x11] } := by
  obtain ⟨operations, -⟩ := CommandSequence.synthesize_conservative .standard
  have named : Operation.HeldBack { opcode := 0x39, wait := 5, payload := [0x53, 0x24] } :=
    ⟨by decide, .writeControlDisplay, ["0x24"], by decide, by decide⟩
  have through : ¬ Operation.HeldBack { opcode := 0x05, payload := [0x11] } := by
    rintro ⟨-, command, literals, resolved, held⟩
    have exits : resolve false [0x11] = .matched .exitSleepMode [] := by decide
    cases resolved.symm.trans exits
    exact held (by decide)
  constructor
  · rcases operations { opcode := 0x39, wait := 5, payload := [0x53, 0x24] } 0 with
      ⟨error, failed, -⟩ | ⟨own, kept, free, conservative, -, raw⟩
    · cases failed
    · have written := raw named
      refine ⟨own, kept, free, conservative, ?_, written.action, ?_, written.features⟩
      · cases free
        rfl
      · cases conservative
        rfl
  · rcases operations { opcode := 0x05, payload := [0x11] } 0 with
      ⟨error, failed, -⟩ | ⟨own, kept, free, conservative, same, -⟩
    · cases failed
    · rw [free, conservative, same through]

end DsiPanel
