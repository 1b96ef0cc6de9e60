import DsiPanel.CommandLine.Run
import DsiPanel.Proofs.Traversal

/-!
# The stages of a run

A run takes its settings, a dump, the bytes and the mode, decodes the sequence and makes the text, one after
another. Here the order is forgotten: a run has a text exactly if every stage has a result
(`Options.fragment_ok_iff`), and it has none exactly if some stage fails (`Options.exists_fragment_error_iff`).
Which failure is then told does depend on the order.

The settings are first loaded and then adjusted by the options, which cannot fail
(`Options.settings_ok_iff`).
-/

namespace DsiPanel

section Failures

variable {ε α : Type} {failure : ε → Failure} {x : Except ε α}

theorem orFail_ok_iff {a : α} : orFail failure x = .ok a ↔ x = .ok a := by
  cases x <;> simp only [orFail, reduceCtorEq, Except.ok.injEq]

theorem exists_orFail_error_iff : (∃ f, orFail failure x = .error f) ↔ ∃ e, x = .error e := by
  cases x <;> simp only [orFail, reduceCtorEq, Except.error.injEq, exists_eq', exists_false]

end Failures

/-- A sequence of one segment has the operations of its bytes. -/
theorem decode_segment_ok_iff {name : String} {mode : SignalingMode} {bytes : Bytes} {s : CommandSequence} :
    CommandSequence.decode name mode [bytes] = .ok s ↔
      ∃ operations, decode bytes = .ok operations ∧ { name, mode, operations } = s := by
  simp only [CommandSequence.decode, List.flatten_singleton, bind_eq_ok_iff, pure, Except.pure,
    Except.ok.injEq]

theorem decode_segment_error_iff {name : String} {mode : SignalingMode} {bytes : Bytes} {error : DecodeError} :
    CommandSequence.decode name mode [bytes] = .error error ↔ decode bytes = .error error := by
  rw [CommandSequence.decode, List.flatten_singleton, bind_pure_eq_error_iff]

namespace Options

/-! ## Settings -/

/-- The settings as they are loaded: from the file that is named, else from the usual file and the
variables. -/
def loadedSettings (o : Options) (around : Surroundings) : Except SettingsError Settings :=
  match o.config with
  | some path => Settings.ofFile around path
  | none => Settings.load around

/-- What the options make of settings: a wait that is given replaces the wait, and the flag can only be
raised. -/
structure Adjusts (o : Options) (loaded s : Settings) : Prop where
  ignoreWait : s.ignoreWait = o.ignoreWait.getD loaded.ignoreWait
  conservative : s.conservative = (o.conservative || loaded.conservative)
  wrapWidth : s.wrapWidth = loaded.wrapWidth

variable {o : Options} {around : Surroundings}

theorem adjusts_iff {loaded s : Settings} :
    o.Adjusts loaded s ↔
      { loaded with
        ignoreWait := o.ignoreWait.getD loaded.ignoreWait
        conservative := o.conservative || loaded.conservative } = s := by
  constructor
  · rintro ⟨wait, flag, width⟩
    rw [← wait, ← flag, ← width]
  · rintro rfl
    exact ⟨rfl, rfl, rfl⟩

theorem settings_ok_iff {s : Settings} :
    o.settings around = .ok s ↔ ∃ loaded, o.loadedSettings around = .ok loaded ∧ o.Adjusts loaded s := by
  unfold settings loadedSettings
  simp only [adjusts_iff]
  cases o.config <;>
    simp only [bind_eq_ok_iff, orFail_ok_iff, pure, Except.pure, Except.ok.injEq]

theorem exists_settings_error_iff :
    (∃ f, o.settings around = .error f) ↔ ∃ e, o.loadedSettings around = .error e := by
  unfold settings loadedSettings
  cases o.config <;> simp only [bind_pure_eq_error_iff, exists_orFail_error_iff]

theorem dumpBytes_ok_iff {bytes : Bytes} :
    o.dumpBytes around = .ok bytes ↔ ∃ dump, o.dumpText around = .ok dump ∧ readDump dump = .ok bytes := by
  simp only [dumpBytes, bind_eq_ok_iff, orFail_ok_iff]

/-! ## All stages -/

/-- What the stages of a run give. -/
structure StageResults where
  settings : Settings
  dump : String
  bytes : Bytes
  mode : SignalingMode
  operations : List Operation
  fragment : Fragment

/-- The sequence that is shown. -/
def StageResults.sequence (r : StageResults) (o : Options) : CommandSequence :=
  { name := o.sequenceName, mode := r.mode, operations := r.operations }

/-- Every stage succeeds, with these results. -/
structure Makes (o : Options) (around : Surroundings) (r : StageResults) : Prop where
  settings : o.settings around = .ok r.settings
  dump : o.dumpText around = .ok r.dump
  bytes : readDump r.dump = .ok r.bytes
  mode : o.mode = .ok r.mode
  operations : decode r.bytes = .ok r.operations
  fragment : (r.sequence o).synthesize r.settings = .ok r.fragment

/-- Some stage fails: what it needs of the others is there, and it has no result. -/
inductive StageFails (o : Options) (around : Surroundings) : Prop
  | settings (error : SettingsError) (failed : o.loadedSettings around = .error error)
  | dump (failure : Failure) (failed : o.dumpText around = .error failure)
  | digits (dump : String) (fault : HexFault) (given : o.dumpText around = .ok dump)
      (failed : readDump dump = .error fault)
  | mode (error : DecodeError) (failed : o.mode = .error error)
  | decoding (dump : String) (bytes : Bytes) (error : DecodeError) (given : o.dumpText around = .ok dump)
      (digits : readDump dump = .ok bytes) (failed : decode bytes = .error error)
  | synthesis (dump : String) (bytes : Bytes) (operations : List Operation) (mode : SignalingMode)
      (settings : Settings) (error : SynthesisError) (given : o.dumpText around = .ok dump)
      (digits : readDump dump = .ok bytes) (decoded : decode bytes = .ok operations)
      (named : o.mode = .ok mode) (taken : o.settings around = .ok settings)
      (failed : CommandSequence.synthesize settings { name := o.sequenceName, mode, operations } = .error error)

/-- The text of a run is that of its stages. -/
theorem fragment_ok_iff {sequence : CommandSequence} {fragment : Fragment} :
    o.fragment around = .ok (sequence, fragment) ↔
      ∃ r, o.Makes around r ∧ r.sequence o = sequence ∧ r.fragment = fragment := by
  unfold Options.fragment
  simp only [dumpBytes_ok_iff, bind_eq_ok_iff, orFail_ok_iff, decode_segment_ok_iff]
  constructor
  · rintro ⟨settings, taken, bytes, ⟨dump, given, digits⟩, mode, named, _, ⟨operations, decoded, rfl⟩, _, made,
      same⟩
    cases same
    exact ⟨⟨settings, dump, bytes, mode, operations, fragment⟩,
      ⟨taken, given, digits, named, decoded, made⟩, rfl, rfl⟩
  · rintro ⟨r, h, rfl, rfl⟩
    exact ⟨_, h.settings, _, ⟨_, h.dump, h.bytes⟩, _, h.mode, _, ⟨_, h.operations, rfl⟩, _, h.fragment, rfl⟩

/-- Where every stage has a result none fails. -/
theorem Makes.not_stageFails {r : StageResults} (h : o.Makes around r) : ¬ o.StageFails around := by
  intro fails
  cases fails with
  | settings error failed =>
    obtain ⟨f, other⟩ := exists_settings_error_iff.mpr ⟨error, failed⟩
    exact absurd (h.settings.symm.trans other) (nomatch ·)
  | dump failure failed => exact absurd (h.dump.symm.trans failed) (nomatch ·)
  | digits dump fault given failed =>
    cases h.dump.symm.trans given
    exact absurd (h.bytes.symm.trans failed) (nomatch ·)
  | mode error failed => exact absurd (h.mode.symm.trans failed) (nomatch ·)
  | decoding dump bytes error given digits failed =>
    cases h.dump.symm.trans given
    cases h.bytes.symm.trans digits
    exact absurd (h.operations.symm.trans failed) (nomatch ·)
  | synthesis dump bytes operations mode settings error given digits decoded named taken failed =>
    cases h.dump.symm.trans given
    cases h.bytes.symm.trans digits
    cases h.operations.symm.trans decoded
    cases h.mode.symm.trans named
    cases h.settings.symm.trans taken
    exact absurd (h.fragment.symm.trans failed) (nomatch ·)

/-- There is no text exactly if a stage fails. -/
theorem exists_fragment_error_iff : (∃ f, o.fragment around = .error f) ↔ o.StageFails around := by
  constructor
  · rintro ⟨f, failed⟩
    unfold Options.fragment at failed
    -- The failure is that of the first stage without a result; those before it have one.
    rcases bind_eq_error_iff.mp failed with failed | ⟨settings, taken, failed⟩
    · obtain ⟨e, failed⟩ := exists_settings_error_iff.mp ⟨f, failed⟩
      exact .settings e failed
    rcases bind_eq_error_iff.mp failed with failed | ⟨bytes, read, failed⟩
    · rcases bind_eq_error_iff.mp failed with failed | ⟨dump, given, failed⟩
      · exact .dump f failed
      · obtain ⟨fault, failed⟩ := exists_orFail_error_iff.mp ⟨f, failed⟩
        exact .digits dump fault given failed
    obtain ⟨dump, given, digits⟩ := dumpBytes_ok_iff.mp read
    rcases bind_eq_error_iff.mp failed with failed | ⟨mode, named, failed⟩
    · obtain ⟨e, failed⟩ := exists_orFail_error_iff.mp ⟨f, failed⟩
      exact .mode e failed
    rw [orFail_ok_iff] at named
    rcases bind_eq_error_iff.mp failed with failed | ⟨sequence, decoded, failed⟩
    · obtain ⟨e, failed⟩ := exists_orFail_error_iff.mp ⟨f, failed⟩
      exact .decoding dump bytes e given digits (decode_segment_error_iff.mp failed)
    obtain ⟨operations, whole, rfl⟩ := decode_segment_ok_iff.mp (orFail_ok_iff.mp decoded)
    obtain ⟨e, failed⟩ := exists_orFail_error_iff.mp ⟨f, bind_pure_eq_error_iff.mp failed⟩
    exact .synthesis dump bytes operations mode settings e given digits whole named taken failed
  · intro fails
    cases made : o.fragment around with
    | error f => exact ⟨f, rfl⟩
    | ok shown =>
      obtain ⟨r, h, -⟩ := fragment_ok_iff.mp made
      exact absurd fails h.not_stageFails

/-- Where no stage fails all have a result. -/
theorem exists_makes (whole : ¬ o.StageFails around) : ∃ r, o.Makes around r := by
  cases made : o.fragment around with
  | error f => exact absurd (exists_fragment_error_iff.mp ⟨f, made⟩) whole
  | ok shown =>
    obtain ⟨r, h, -⟩ := fragment_ok_iff.mp made
    exact ⟨r, h⟩

end Options

end DsiPanel
