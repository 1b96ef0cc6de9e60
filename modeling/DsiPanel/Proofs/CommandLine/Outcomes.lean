import DsiPanel.Proofs.CommandLine.Log
import DsiPanel.Proofs.CommandLine.Settings
import DsiPanel.Proofs.CommandLine.Words
import DsiPanel.Proofs.Sequence.ModeProperty

/-!
# The outcome of a run

What a run writes and how it ends, whichever way the dump comes in. Only the table comes after something was
already written, so only it can leave a text behind and fail (`Options.Closing`).

**The law** (`runWords_outcome`): where a stage fails nothing but the log is written and the code is one; else
the text of the sequence comes right after the log, the same whether a table is asked for or not, and the code
says whether there is a table where one is asked for. A dump from a file is as good as one on the command line,
and a mode is only ever told by its name.

Log and text share one output, so that nothing is written by a run that fails, and that the text stands at the
very beginning, holds where the log is silent. By itself it is not: it tells the count of the bytes and the
operations. What is told about failures is not asked here.
-/

namespace DsiPanel

namespace Options

/-- What a run writes after its text, and its code: the table if one is asked for and can be made, else
nothing. -/
inductive Closing (o : Options) (sequence : CommandSequence) : String → Nat → Prop
  | plain (unasked : o.panel = none) : Closing o sequence "" 0
  | table (panel table : String) (asked : o.panel = some panel) (made : sequence.table panel = .ok table) :
      Closing o sequence ("\n" ++ table ++ "\n") 0
  | failed (panel : String) (error : SynthesisError) (asked : o.panel = some panel)
      (failed : sequence.table panel = .error error) : Closing o sequence "" 1

theorem Closing.exitCode_eq_zero_iff {o : Options} {sequence : CommandSequence} {rest : String} {code : Nat}
    (h : o.Closing sequence rest code) :
    code = 0 ↔ o.panel = none ∨ ∃ panel table, o.panel = some panel ∧ sequence.table panel = .ok table := by
  cases h with
  | plain unasked => exact iff_of_true rfl (.inl unasked)
  | table panel table asked made => exact iff_of_true rfl (.inr ⟨panel, table, asked, made⟩)
  | failed panel error asked failed =>
    refine iff_of_false (nomatch ·) ?_
    rintro (unasked | ⟨other, table, own, made⟩)
    · exact absurd (asked.symm.trans unasked) (nomatch ·)
    · cases asked.symm.trans own
      exact absurd (made.symm.trans failed) (nomatch ·)

variable {o : Options} {around : Surroundings}

theorem run_of_stageFails (fails : o.StageFails around) :
    (o.run around).output = around.logged (o.notes around) ∧ (o.run around).exitCode = 1 := by
  obtain ⟨f, failed⟩ := exists_fragment_error_iff.mpr fails
  rw [run, failed]
  exact ⟨rfl, rfl⟩

/-- A run whose stages succeed writes its log, the text of the sequence and then the table. -/
theorem run_of_makes {r : StageResults} (h : o.Makes around r) :
    ∃ rest, o.Closing (r.sequence o) rest (o.run around).exitCode ∧
      (o.run around).output =
        around.logged (o.notes around) ++ showFragment (r.sequence o) r.fragment ++ rest := by
  have text := fragment_ok_iff.mpr ⟨r, h, rfl, rfl⟩
  cases asked : o.panel with
  | none =>
    simp only [run, text, asked]
    exact ⟨"", .plain asked, String.append_empty.symm⟩
  | some panel =>
    cases ends : (r.sequence o).table panel with
    | ok table =>
      simp only [run, text, asked, ends, String.append_assoc]
      exact ⟨_, .table panel table asked ends, by rw [String.append_assoc]⟩
    | error e =>
      simp only [run, text, asked, ends]
      exact ⟨"", .failed panel e asked ends, String.append_empty.symm⟩

/-- Where no table is asked for the text is all there is, after the log. -/
theorem run_unasked {r : StageResults} (h : o.Makes around r) :
    run { o with panel := none } around =
      { exitCode := 0
        output := around.logged (o.notes around) ++ showFragment (r.sequence o) r.fragment
        errors := "" } := by
  -- No stage asks for the panel, and nothing is told of it.
  have text : fragment { o with panel := none } around = .ok (r.sequence o, r.fragment) := by
    show o.fragment around = _
    exact fragment_ok_iff.mpr ⟨r, h, rfl, rfl⟩
  have told : notes { o with panel := none } around = o.notes around := rfl
  simp only [run, text, told]

section File

variable {path content : String} (named : o.file = some path)
  (readable : textOf (around.read path) = .ok content)

include named readable

theorem dumpText_of_file : o.dumpText around = .ok content := by
  simp only [dumpText, named, readable, orFail]

theorem dumpBytes_of_file : dumpBytes { o with file := none, dump := some content } around = o.dumpBytes around := by
  rw [dumpBytes, dumpBytes, dumpText_of_file named readable]
  rfl

/-- A dump from a file is as good as one on the command line. -/
theorem run_of_file : run { o with file := none, dump := some content } around = o.run around := by
  have text : fragment { o with file := none, dump := some content } around = o.fragment around := by
    rw [fragment, fragment, dumpBytes_of_file named readable]
    rfl
  have told : notes { o with file := none, dump := some content } around = o.notes around := by
    rw [notes, notes, dumpBytes_of_file named readable]
    rfl
  rw [run, run, text, told]

end File

/-- The text of the option for the mode, where one is given, is that of the property. -/
theorem mode_of_state {state : String} (given : o.state = some state) :
    o.mode = SignalingMode.ofProperty (encodeUtf8 state ++ [0]) := by
  rw [mode, modeProperty, modeText, given, Option.getD_some]

section State

variable {state : String} (given : o.state = some state) (plain : '\x00' ∉ state.toList)

include given plain

theorem mode_eq_highSpeed_iff : o.mode = .ok .highSpeed ↔ state = "dsi_hs_mode" := by
  rw [mode_of_state given, SignalingMode.ofProperty_terminated_ok_iff plain]
  simp [SignalingMode.vendorName, eq_comm]

theorem mode_eq_lowPower_iff : o.mode = .ok .lowPower ↔ state = "dsi_lp_mode" ∨ state = "" := by
  rw [mode_of_state given, SignalingMode.ofProperty_terminated_ok_iff plain]
  simp [SignalingMode.vendorName, eq_comm]

theorem mode_of_unknown (unknown : state ∉ ["dsi_hs_mode", "dsi_lp_mode", ""]) :
    o.mode = .error (.unknownMode state) := by
  rw [mode_of_state given, SignalingMode.ofProperty_terminated_error_iff plain]
  simp only [List.mem_cons, List.not_mem_nil, or_false, not_or] at unknown
  obtain ⟨notHigh, notLow, shown⟩ := unknown
  refine ⟨shown, fun named => ?_, rfl⟩
  cases named with
  | lowPower => exact Ne.symm notLow
  | highSpeed => exact Ne.symm notHigh

end State

end Options

/-- A file with one operation, which turns the display on from sleep, and a log with numbered lines that is
turned off by its variable. -/
def quietSurroundings : Surroundings where
  lookup name := [("RUST_LOG", "off")].lookup name
  read path := ((([("on.hex", "05 01 00 00 78 00 01 11")] : List (String × String)).lookup path).map
    encodeUtf8).elim (.error .notFound) .ok
  log :=
    { reads? := fun directives => if directives = "off" then some fun _ => false else none
      line := fun index note => s!"{index} {note.level.name} {note.message}\n" }

end DsiPanel
