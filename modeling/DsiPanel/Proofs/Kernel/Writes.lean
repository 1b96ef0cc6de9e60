import DsiPanel.Proofs.Dcs.Arguments
import DsiPanel.Proofs.Kernel.Reading
import Mathlib.Data.List.Nodup

/-!
# Text determines the writes

Two sequences of writes with the same text send the same bytes in the same order, through functions
of the same family, and sleep alike between them (`CommandSequence.text_determines`). The text does
not tell the transaction, since a short and a long write with the same bytes are written alike.

A fragment already determines the invocation of each statement, so what is left is to read a write
off its invocation (`WriteForm.determines`). Raw bytes never look like a named command, a helper
belongs to one command, and the literals of a command determine its bytes. The exception is a
brightness: one byte, and two bytes with the upper one zero, are the same integer. Conservative
matching leaves that command to raw bytes, and then there is no exception.
-/

namespace DsiPanel

/-! ## Writes -/

/-- The way in which text is made from the transactions of a family. -/
def WriteFamily.strategy : WriteFamily → Strategy
  | generic => .genericWrite
  | dcs => .commandWrite

/-- The family of the write that an operation is, if it is one. -/
def Operation.family? (op : Operation) : Option WriteFamily :=
  match (Transaction.ofOpcode? op.opcode).map Transaction.strategy with
  | some .genericWrite => some .generic
  | some .commandWrite => some .dcs
  | _ => none

theorem Operation.family?_eq_some_iff {op : Operation} {family : WriteFamily} :
    op.family? = some family ↔
      ∃ t, Transaction.ofOpcode? op.opcode = some t ∧ t.strategy = family.strategy := by
  unfold Operation.family?
  cases Transaction.ofOpcode? op.opcode with
  | none => simp
  | some t =>
    simp only [Option.map_some, Option.some.injEq, exists_eq_left']
    cases t.strategy <;> cases family <;> simp [WriteFamily.strategy]

/-- Every write has an action, of one of the four forms. -/
theorem Operation.action_writeForm {op : Operation} {family : WriteFamily} (h : op.family? = some family)
    (conservative : Bool) (index : Nat) :
    ∃ (t : Transaction) (action : Action), op.action conservative index = .ok action ∧
      t.strategy = family.strategy ∧ WriteForm conservative t family op.payload action := by
  obtain ⟨t, known, strategy⟩ := Operation.family?_eq_some_iff.mp h
  unfold Operation.action Transaction.action?
  rw [known]
  cases family with
  | generic =>
    simp only [strategy, WriteFamily.strategy]
    exact ⟨t, _, rfl, strategy, genericAction_spec conservative t op.payload⟩
  | dcs =>
    simp only [strategy, WriteFamily.strategy]
    exact ⟨t, _, rfl, strategy, commandAction_spec conservative t op.payload⟩

theorem WriteForm.invocation {conservative : Bool} {t : Transaction} {family : WriteFamily}
    {payload : Bytes} {action : Action} (h : WriteForm conservative t family payload action) :
    ∃ i, action.invocation? = some i := by
  cases h <;> exact ⟨_, rfl⟩

/-! ## What the functions and names tell -/

/-- A helper performs one command only. -/
theorem DcsCommand.helper?_injOn {c d : DcsCommand} {function : String} (hc : c.helper? = some function)
    (hd : d.helper? = some function) : c = d := by
  have distinct : (DcsCommand.all.filterMap (·.helper?)).Nodup := by decide
  rw [List.Nodup, List.pairwise_filterMap] at distinct
  have symmetric : Std.Symm fun c d : DcsCommand =>
      ∀ f, c.helper? = some f → ∀ g, d.helper? = some g → f ≠ g :=
    ⟨fun _ _ h f hf g hg => (h g hg f hf).symm⟩
  by_contra ne
  exact distinct.forall c.mem_all d.mem_all ne function hc function hd rfl

theorem DcsCommand.identifier_injective : Function.Injective DcsCommand.identifier := by
  have distinct : (DcsCommand.all.map DcsCommand.name).Nodup := by decide
  intro c d h
  exact List.inj_on_of_nodup_map distinct c.mem_all d.mem_all ((String.append_right_inj _).mp h)

/-- No helper stands for a write without any byte. -/
theorem DcsCommand.helper?_ne_bareFunction (c : DcsCommand) (family : WriteFamily) :
    c.helper? ≠ some family.bareFunction := by
  have apart : ∀ c ∈ DcsCommand.all, c.helper? ≠ some "mipi_dsi_generic_write" ∧
      c.helper? ≠ some "mipi_dsi_dcs_write_buffer" := by
    decide
  cases family with
  | generic => exact (apart c c.mem_all).1
  | dcs => exact (apart c c.mem_all).2

/-- No byte is written like the name of a command. -/
theorem byteLiterals_ne_identifier (payload : Bytes) (c : DcsCommand) (literals : List String) :
    byteLiterals payload ≠ c.identifier :: literals := by
  intro h
  cases payload with
  | nil => exact List.cons_ne_nil _ _ h.symm
  | cons b rest =>
    have first : byteLiteral b = c.identifier := (List.cons.inj h).1
    have letter : 'M' ∈ c.identifier.toList := by
      rw [DcsCommand.identifier, String.toList_append]
      exact List.mem_append_left _ (by decide)
    rw [← first] at letter
    exact absurd (mem_hexLiteral letter) (by decide)

theorem WriteFamily.function_injective : Function.Injective fun f : WriteFamily => f.function.toList := by
  intro f g
  cases f <;> cases g <;> decide

theorem WriteFamily.bareFunction_injective :
    Function.Injective fun f : WriteFamily => f.bareFunction.toList := by
  intro f g
  cases f <;> cases g <;> decide

/-! ## What invocations tell -/

theorem arguments_inj {xs ys : List String}
    (h : ("dsi" :: xs).map String.toList = ("dsi" :: ys).map String.toList) : xs = ys :=
  List.map_injective_iff.mpr (fun _ _ => String.toList_inj.mp) (List.cons.inj h).2

theorem writeInvocation_inj {f g : WriteFamily} {xs ys : List String}
    (h : writeInvocation f xs = writeInvocation g ys) : f = g ∧ xs = ys := by
  obtain ⟨-, function, arguments⟩ := Invocation.mk.inj h
  exact ⟨WriteFamily.function_injective function, arguments_inj arguments⟩

theorem Call.invocation_inj {c d : Call} (h : c.invocation = d.invocation) :
    c.function = d.function ∧ c.arguments = d.arguments := by
  obtain ⟨-, function, arguments⟩ := Invocation.mk.inj h
  exact ⟨String.toList_inj.mp function, arguments_inj arguments⟩

/-- A write that is checked is told from one that is not. -/
theorem writeInvocation_ne_call (f : WriteFamily) (literals : List String) (c : Call) :
    writeInvocation f literals ≠ c.invocation := by
  intro h
  obtain ⟨report, -, -⟩ := Invocation.mk.inj h
  contradiction

/-- The payloads set the same brightness, one in one byte and one in two. -/
def SameBrightness (a b : Bytes) : Prop :=
  ∃ x, a = [0x51, x] ∧ b = [0x51, x, 0] ∨ a = [0x51, x, 0] ∧ b = [0x51, x]

/-- A write can be read off its invocation, but for the width of a brightness. -/
theorem WriteForm.determines {conservative : Bool} {t t' : Transaction} {family family' : WriteFamily}
    {payload payload' : Bytes} {action action' : Action}
    (h : WriteForm conservative t family payload action)
    (h' : WriteForm conservative t' family' payload' action')
    (same : action.invocation? = action'.invocation?) :
    family = family' ∧ (payload = payload' ∨
      conservative = false ∧ family = .dcs ∧ SameBrightness payload payload') := by
  have same : ∀ i ∈ action.invocation?, ∀ j ∈ action'.invocation?, i = j := by
    intro i hi j hj
    exact Option.some.inj (hi.symm.trans (same.trans hj))
  -- A call is checked and a write is not, so a form is only ever met with one of its own kind.
  cases h with
  | raw =>
    cases h' with
    | raw =>
      obtain ⟨families, literals⟩ := writeInvocation_inj (same _ rfl _ rfl)
      exact ⟨families, .inl (byteLiterals_injective literals)⟩
    | missing => exact absurd (same _ rfl _ rfl) (writeInvocation_ne_call _ _ _)
    | named command arguments =>
      obtain ⟨-, literals⟩ := writeInvocation_inj (same _ rfl _ rfl)
      exact absurd literals (byteLiterals_ne_identifier _ _ _)
    | helper => exact absurd (same _ rfl _ rfl) (writeInvocation_ne_call _ _ _)
  | missing =>
    cases h' with
    | raw => exact absurd (same _ rfl _ rfl).symm (writeInvocation_ne_call _ _ _)
    | missing =>
      obtain ⟨function, -⟩ := Call.invocation_inj (same _ rfl _ rfl)
      exact ⟨WriteFamily.bareFunction_injective (congrArg String.toList function), .inl rfl⟩
    | named => exact absurd (same _ rfl _ rfl).symm (writeInvocation_ne_call _ _ _)
    | helper _ _ _ found =>
      obtain ⟨function, -⟩ := Call.invocation_inj (same _ rfl _ rfl)
      exact absurd (found.trans (congrArg some function.symm)) (DcsCommand.helper?_ne_bareFunction _ _)
  | named command arguments =>
    cases h' with
    | raw =>
      obtain ⟨-, literals⟩ := writeInvocation_inj (same _ rfl _ rfl)
      exact absurd literals.symm (byteLiterals_ne_identifier _ _ _)
    | missing => exact absurd (same _ rfl _ rfl) (writeInvocation_ne_call _ _ _)
    | named command' arguments' =>
      obtain ⟨-, literals⟩ := writeInvocation_inj (same _ rfl _ rfl)
      obtain ⟨name, bytes⟩ := List.cons.inj literals
      rw [DcsCommand.identifier_injective name, byteLiterals_injective bytes]
      exact ⟨rfl, .inl rfl⟩
    | helper => exact absurd (same _ rfl _ rfl) (writeInvocation_ne_call _ _ _)
  | helper through fits decoded found =>
    cases h' with
    | raw => exact absurd (same _ rfl _ rfl).symm (writeInvocation_ne_call _ _ _)
    | missing =>
      obtain ⟨function, -⟩ := Call.invocation_inj (same _ rfl _ rfl)
      exact absurd (found.trans (congrArg some function)) (DcsCommand.helper?_ne_bareFunction _ _)
    | named => exact absurd (same _ rfl _ rfl).symm (writeInvocation_ne_call _ _ _)
    | helper _ fits' decoded' found' =>
      obtain ⟨rfl, rfl⟩ := Call.invocation_inj (same _ rfl _ rfl)
      obtain rfl := DcsCommand.helper?_injOn found found'
      refine ⟨rfl, (decode_determines fits fits' decoded decoded').imp (congrArg _) ?_⟩
      rintro ⟨rfl, x, brightness⟩
      refine ⟨?_, rfl, x, ?_⟩
      -- Conservative matching would not have let the command through.
      · exact Bool.eq_false_iff.mpr fun held => absurd (through held) (by decide)
      · exact brightness.imp (And.imp (congrArg _) (congrArg _)) (And.imp (congrArg _) (congrArg _))

/-- The call that sets a brightness given in one byte. -/
def brightnessCall (x : UInt8) : Call where
  function := "mipi_dsi_dcs_set_display_brightness"
  arguments := integerLiterals 2 .little [x]
  subject := DcsCommand.setDisplayBrightness.name

/-- One byte and two bytes with an upper one of zero set a brightness by the same call. -/
theorem commandAction_brightness (t : Transaction) (x : UInt8) :
    commandAction false t [0x51, x] = .call (brightnessCall x) ∧
      commandAction false t [0x51, x, 0] = .call (brightnessCall x) := by
  have matched (arguments : Bytes)
      (fits : DcsCommand.setDisplayBrightness.arity.accepts arguments.length = true) :
      resolve false (0x51 :: arguments) =
        .matched .setDisplayBrightness (integerLiterals 2 .little arguments) :=
    resolve_eq_matched_iff.mpr ⟨arguments, rfl, fun held => (nomatch held), fits, rfl⟩
  have one := matched [x] rfl
  have two := matched [x, 0] rfl
  rw [← brightness_literals] at two
  unfold commandAction
  rw [one, two]
  exact ⟨rfl, rfl⟩

/-! ## The law -/

/-- Two operations send the same bytes through the same family and sleep alike; without conservative
matching they may set the same brightness in one byte and in two. -/
structure SameWrite (settings : Settings) (a b : Operation) : Prop where
  family : a.family? = b.family?
  delay : effectiveDelay? settings.ignoreWait a.wait = effectiveDelay? settings.ignoreWait b.wait
  payload : a.payload = b.payload ∨
    settings.conservative = false ∧ a.family? = some .dcs ∧ SameBrightness a.payload b.payload

/-- The statement is that of the operation, a write. -/
structure WrittenAs (settings : Settings) (op : Operation) (statement : Statement) : Prop where
  delay : statement.delay = effectiveDelay? settings.ignoreWait op.wait
  form : ∃ family t, op.family? = some family ∧ t.strategy = WriteFamily.strategy family ∧
    WriteForm settings.conservative t family op.payload statement.action

theorem Operation.exists_writtenAs {op : Operation} (h : op.family?.isSome) (settings : Settings)
    (index : Nat) :
    ∃ statement, op.statement settings index = .ok statement ∧ WrittenAs settings op statement := by
  obtain ⟨family, hf⟩ := Option.isSome_iff_exists.mp h
  obtain ⟨t, action, made, strategy, form⟩ := op.action_writeForm hf settings.conservative index
  refine ⟨⟨action, effectiveDelay? settings.ignoreWait op.wait⟩, ?_, rfl, family, t, hf, strategy, form⟩
  exact Operation.statement_ok_iff.mpr ⟨made, rfl⟩

theorem WrittenAs.sends {settings : Settings} {op : Operation} {statement : Statement}
    (h : WrittenAs settings op statement) : statement.Sends := by
  obtain ⟨-, family, t, -, strategy, form⟩ := h
  refine ⟨form.plain ?_, form.invocation⟩
  rw [strategy]
  cases family <;> decide

/-- Writes whose statements invoke the same and sleep alike are the same writes. -/
theorem WrittenAs.sameWrite {settings : Settings} {a b : Operation} {sa sb : Statement}
    (ha : WrittenAs settings a sa) (hb : WrittenAs settings b sb) (alike : sa.Alike sb) :
    SameWrite settings a b := by
  obtain ⟨da, family, t, fa, -, form⟩ := ha
  obtain ⟨db, family', t', fb, -, form'⟩ := hb
  obtain ⟨rfl, payload⟩ := form.determines form' alike.1
  refine ⟨fa.trans fb.symm, da.symm.trans (alike.2.trans db), payload.imp id ?_⟩
  rintro ⟨free, rfl, brightness⟩
  exact ⟨free, fa, brightness⟩

/-- A sequence of writes has a statement for each of them. -/
theorem CommandSequence.exists_statements (settings : Settings) {s : CommandSequence}
    (h : ∀ op ∈ s.operations, op.family?.isSome) :
    ∃ statements, s.statements settings = .ok statements ∧
      List.Forall₂ (WrittenAs settings) s.operations statements := by
  have each : ∀ entry ∈ s.operations.zipIdx, ∃ statement,
      entry.1.statement settings entry.2 = .ok statement ∧ WrittenAs settings entry.1 statement :=
    fun entry mem =>
      Operation.exists_writtenAs (h entry.1 (List.fst_mem_of_mem_zipIdx mem)) settings entry.2
  obtain ⟨statements, all⟩ := exists_forall₂ each
  refine ⟨statements, CommandSequence.statements_ok_iff.mpr (all.imp fun _ _ => And.left), ?_⟩
  have written := all.imp fun _ _ => And.right
  rw [← List.forall₂_map_left_iff (f := Prod.fst), List.zipIdx_map_fst] at written
  exact written

/-- Sequences of writes have text, whatever the settings, and sequences with the same text send the
same: as many operations, and one by one the same family, sleep and payload. The one exception is
real: without conservative matching a brightness of one byte and the same in two bytes are one call. -/
theorem CommandSequence.text_determines (settings : Settings) :
    (∀ s t : CommandSequence, (∀ op ∈ s.operations, op.family?.isSome) →
      (∀ op ∈ t.operations, op.family?.isSome) →
        ∃ f g, s.synthesize settings = .ok f ∧ t.synthesize settings = .ok g ∧
          (f.text = g.text → List.Forall₂ (SameWrite settings) s.operations t.operations)) ∧
    (settings.conservative = false → ∀ a b : Operation, a.family? = some .dcs → b.family? = some .dcs →
      ∀ x, a.payload = [0x51, x] → b.payload = [0x51, x, 0] →
        ∃ call, ∀ i j, a.action settings.conservative i = .ok (.call call) ∧
          b.action settings.conservative j = .ok (.call call)) := by
  constructor
  · intro s t hs ht
    obtain ⟨ss, madeS, writtenS⟩ := CommandSequence.exists_statements settings hs
    obtain ⟨ts, madeT, writtenT⟩ := CommandSequence.exists_statements settings ht
    refine ⟨_, _, CommandSequence.synthesize_ok_iff.mpr ⟨ss, madeS, rfl⟩,
      CommandSequence.synthesize_ok_iff.mpr ⟨ts, madeT, rfl⟩, fun same => ?_⟩
    have sendsS := forall_right_of_forall₂ writtenS fun _ _ => WrittenAs.sends
    have sendsT := forall_right_of_forall₂ writtenT fun _ _ => WrittenAs.sends
    have alike := fragment_determines sendsS sendsT same
    exact forall₂_through writtenS alike writtenT fun ha hab hb => ha.sameWrite hb hab
  · intro free a b fa fb x pa pb
    obtain ⟨ta, knownA, strategyA⟩ := Operation.family?_eq_some_iff.mp fa
    obtain ⟨tb, knownB, strategyB⟩ := Operation.family?_eq_some_iff.mp fb
    refine ⟨brightnessCall x, fun i j => ?_⟩
    unfold Operation.action Transaction.action?
    rw [free, knownA, knownB, pa, pb]
    simp only [strategyA, strategyB, WriteFamily.strategy]
    rw [(commandAction_brightness ta x).1, (commandAction_brightness tb x).2]
    exact ⟨rfl, rfl⟩

/-- A short write that sets a brightness in one byte. -/
def shortBrightness : Operation := { opcode := 0x15, payload := [0x51, 7] }

/-- A long write that sets the same brightness in two bytes. -/
def longBrightness : Operation := { opcode := 0x39, payload := [0x51, 7, 0] }

/-- The short and the long write have the same text, by the same call. -/
theorem CommandSequence.text_determines_brightness :
    (∃ f g, CommandSequence.synthesize {} ⟨"on", .lowPower, [shortBrightness]⟩ = .ok f ∧
      CommandSequence.synthesize {} ⟨"on", .highSpeed, [longBrightness]⟩ = .ok g ∧ f.text = g.text ∧
      List.Forall₂ (SameWrite {}) [shortBrightness] [longBrightness]) ∧
    ∃ call, ∀ i j, shortBrightness.action false i = .ok (.call call) ∧
      longBrightness.action false j = .ok (.call call) := by
  have equal : CommandSequence.synthesize {} ⟨"on", .lowPower, [shortBrightness]⟩ =
      CommandSequence.synthesize {} ⟨"on", .highSpeed, [longBrightness]⟩ := by
    decide +kernel
  obtain ⟨determines, exception⟩ := CommandSequence.text_determines {}
  obtain ⟨f, g, hf, hg, same⟩ := determines ⟨"on", .lowPower, [shortBrightness]⟩
    ⟨"on", .highSpeed, [longBrightness]⟩ (by decide) (by decide)
  have text : f.text = g.text := by
    rw [Except.ok.inj (hf.symm.trans (equal.trans hg))]
  exact ⟨⟨f, g, hf, hg, text, same text⟩,
    exception rfl shortBrightness longBrightness (by decide) (by decide) 7 rfl rfl⟩

end DsiPanel
