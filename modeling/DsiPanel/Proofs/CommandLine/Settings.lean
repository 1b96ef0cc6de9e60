import Mathlib
import DsiPanel.Proofs.CommandLine.Stages
import DsiPanel.Proofs.Settings.Layers

/-!
# The settings of a run

A run has its settings from one of two places. Either the command line names a file, and then no variable but
that of the log has a say in anything the run does (`Options.run_of_config`); or they are loaded from the usual
file and the variables, layer by layer. The options come last in both cases.

**The law** (`settings_layered`) puts the two together with what is known of loading.
-/

namespace DsiPanel

namespace Options

variable {o : Options} {around : Surroundings} {path : String}

theorem settings_of_config (named : o.config = some path) (lookup : String → Option String) :
    o.settings { around with lookup } = o.settings around := by
  rw [settings, settings, named]
  rfl

/-- Where the command line names the file of settings, what is told on the way asks no variable either. -/
theorem notes_of_config (named : o.config = some path) (lookup : String → Option String) :
    o.notes { around with lookup } = o.notes around := by
  rw [notes, notes, settings_of_config named, named]
  rfl

/-- Where the command line names the file of settings, the whole run asks no variable but that of the log. -/
theorem run_of_config (named : o.config = some path) {lookup : String → Option String}
    (same : lookup Surroundings.logVariable = around.lookup Surroundings.logVariable) :
    o.run { around with lookup } = o.run around := by
  have shown : o.fragment { around with lookup } = o.fragment around := by
    rw [fragment, fragment, settings_of_config named]
    rfl
  have told : Surroundings.logged { around with lookup } (o.notes { around with lookup }) =
      around.logged (o.notes around) := by
    rw [notes_of_config named]
    exact congrArg (around.log.text · (o.notes around)) same
  rw [run, run, shown, told]

/-- The text of a run is made with its settings. -/
theorem exists_settings_of_fragment {sequence : CommandSequence} {fragment : Fragment}
    (made : o.fragment around = .ok (sequence, fragment)) :
    ∃ s, o.settings around = .ok s ∧ sequence.synthesize s = .ok fragment := by
  obtain ⟨r, h, rfl, rfl⟩ := fragment_ok_iff.mp made
  exact ⟨r.settings, h.settings, h.fragment⟩

end Options

/-- The layers of settings. Loading succeeds exactly with a width of at least one and with each field as its
variable says, else as the file says, else as is standard; the file is the one that a variable names, and
only it and the variables are asked. A file that is there and cannot be read, is broken or sets the width to
zero is told, whatever the variables are; where nothing is known to be there, reading is not tried. In a run the
settings are those that are loaded, or those of the file that the command line names, on which no variable
bears, nor on anything else of that run but what it logs; the options then replace the wait and raise the
flag, and nothing else; and the text of the run is made with the outcome. -/
theorem settings_layered (around : Surroundings) :
    Settings.path around = (around.lookup "DSIGEN_CONFIG").getD "dsigen.toml" ∧
    (∀ s, Settings.load around = .ok s ↔
      1 ≤ s.wrapWidth ∧ ∃ entries, FileGives around (Settings.path around) entries ∧ Usable entries ∧
        ∀ field, SettingsField.Layered around.lookup entries field (field.valueIn s)) ∧
    (∀ other : Surroundings,
      (∀ name ∈ ["DSIGEN_CONFIG", "DSIGEN_IGNORE_WAIT", "DSIGEN_CONSERVATIVE_DCS", "DSIGEN_WRAP_WIDTH"],
        other.lookup name = around.lookup name) →
      other.isThere (Settings.path around) = around.isThere (Settings.path around) →
      other.read (Settings.path around) = around.read (Settings.path around) →
        Settings.load other = Settings.load around) ∧
    (∀ path error, Settings.ofFile around path = .error error ↔ FileFault path (around.read path) error) ∧
    (∀ error, around.isThere (Settings.path around) = true →
      Settings.ofFile around (Settings.path around) = .error error → Settings.load around = .error error) ∧
    ∀ o : Options,
      (o.config = none → ∀ s, o.settings around = .ok s ↔
        ∃ loaded, Settings.load around = .ok loaded ∧ o.Adjusts loaded s) ∧
      (∀ path, o.config = some path →
        (∀ s, o.settings around = .ok s ↔
          ∃ loaded, Settings.ofFile around path = .ok loaded ∧ o.Adjusts loaded s) ∧
        ∀ lookup, o.settings { around with lookup } = o.settings around ∧
          (lookup "RUST_LOG" = around.lookup "RUST_LOG" → o.run { around with lookup } = o.run around)) ∧
      ∀ sequence fragment, o.fragment around = .ok (sequence, fragment) →
        ∃ s, o.settings around = .ok s ∧ sequence.synthesize s = .ok fragment := by
  refine ⟨rfl, fun s => ?_, fun other => Settings.load_congr, fun path error => Settings.ofFile_error_iff,
    fun error => Settings.load_of_broken, fun o => ⟨fun unnamed s => ?_, fun path named => ⟨fun s => ?_,
      fun lookup => ⟨Options.settings_of_config named lookup, Options.run_of_config named⟩⟩,
    fun sequence fragment => Options.exists_settings_of_fragment⟩⟩
  · rw [Nat.one_le_iff_ne_zero]
    exact Settings.load_ok_iff
  · rw [Options.settings_ok_iff, Options.loadedSettings, unnamed]
  · rw [Options.settings_ok_iff, Options.loadedSettings, named]

/-- The variables and the files that are given, and nothing else. -/
def surroundingsOf (vars files : List (String × String)) : Surroundings where
  lookup name := vars.lookup name
  read path := ((files.lookup path).map encodeUtf8).elim (.error .notFound) .ok

/-- A file with a wait and a width, and one that sets the width to zero. -/
def waitFiles : List (String × String) :=
  [("dsigen.toml", "ignore_wait = 3\nwrap_width = 100"), ("zero.toml", "wrap_width = 0")]

/-- A directory on the way to every file is closed, so that nothing is known to be there. -/
def closedSurroundings (vars : List (String × String)) : Surroundings where
  lookup name := vars.lookup name
  read _ := .error (.other "Permission denied (os error 13)")
  isThere _ := false

/-- The wait is that of the variable, the flag is standard and the width is that of the file. With the other
file there are no settings, although a variable would replace the width. A file that cannot even be found is no
fault, and all but the width is standard. And where the command line names the usual file, the variable for the
wait is not asked. -/
theorem settings_layered_three :
    Settings.load (surroundingsOf [("DSIGEN_IGNORE_WAIT", " 7 ")] waitFiles) =
      .ok { ignoreWait := 7, wrapWidth := 100 } ∧
    Settings.load (surroundingsOf [("DSIGEN_CONFIG", "zero.toml"), ("DSIGEN_WRAP_WIDTH", "80")] waitFiles) =
      .error (.invalid .wrapWidth "0") ∧
    Settings.load (closedSurroundings [("DSIGEN_WRAP_WIDTH", "100")]) = .ok { wrapWidth := 100 } ∧
    ∀ vars, Options.settings { config := some "dsigen.toml", conservative := true }
        (surroundingsOf vars waitFiles) =
      .ok { ignoreWait := 3, conservative := true, wrapWidth := 100 } := by
  have text : textOf (.ok (encodeUtf8 "ignore_wait = 3\nwrap_width = 100")) =
      .ok "ignore_wait = 3\nwrap_width = 100" := by cbv
  have parsed : Toml.read? "ignore_wait = 3\nwrap_width = 100" =
      some [("ignore_wait", .integer 3), ("wrap_width", .integer 100)] := by cbv
  have zeroText : textOf (.ok (encodeUtf8 "wrap_width = 0")) = .ok "wrap_width = 0" := by cbv
  have zeroParsed : Toml.read? "wrap_width = 0" = some [("wrap_width", .integer 0)] := by cbv
  refine ⟨?_, ?_, ?_, fun vars => ?_⟩
  · obtain ⟨-, loads, -⟩ := settings_layered (surroundingsOf [("DSIGEN_IGNORE_WAIT", " 7 ")] waitFiles)
    have said : Settings.ofEntries? [("ignore_wait", .integer 3), ("wrap_width", .integer 100)] =
        some { ignoreWait := 3, wrapWidth := 100 } := rfl
    have usable := usable_iff.mpr ⟨_, said, by decide⟩
    refine (loads _).mpr ⟨by decide, _, .present _ _ (by decide) text parsed, usable, fun field => ?_⟩
    have file := Settings.ofEntries?_eq_some_iff.mp said field
    refine (SettingsField.layered_iff file).mpr ⟨fun said own => ?_, fun unset => ?_⟩
    · cases field <;> cases own
      cbv
    · cases field <;> first | rfl | cases unset
  · obtain ⟨-, -, -, files, broken, -⟩ := settings_layered
      (surroundingsOf [("DSIGEN_CONFIG", "zero.toml"), ("DSIGEN_WRAP_WIDTH", "80")] waitFiles)
    have typed : WellTyped [("wrap_width", .integer 0)] := Settings.exists_ofEntries?_iff.mp ⟨_, rfl⟩
    exact broken _ (by decide) ((files _ _).mpr (.zeroWidth _ _ zeroText zeroParsed typed rfl))
  · obtain ⟨-, loads, -⟩ := settings_layered (closedSurroundings [("DSIGEN_WRAP_WIDTH", "100")])
    have usable : Usable [] := usable_iff.mpr ⟨.standard, rfl, by decide⟩
    refine (loads _).mpr ⟨by decide, [], .absent rfl, usable, fun field => ?_⟩
    have file := Settings.ofEntries?_eq_some_iff.mp (rfl : Settings.ofEntries? [] = some .standard) field
    refine (SettingsField.layered_iff file).mpr ⟨fun said own => ?_, fun unset => ?_⟩
    · cases field <;> cases own
      cbv
    · cases field <;> first | rfl | cases unset
  · obtain ⟨-, -, -, -, -, run⟩ := settings_layered (surroundingsOf vars waitFiles)
    obtain ⟨-, named, -⟩ := run { config := some "dsigen.toml", conservative := true }
    obtain ⟨made, -⟩ := named "dsigen.toml" rfl
    refine (made _).mpr ⟨{ ignoreWait := 3, wrapWidth := 100 }, ?_, ⟨rfl, rfl, rfl⟩⟩
    exact Settings.ofFile_ok_iff.mpr ⟨_, text, Settings.ofDocument_ok_iff.mpr ⟨_, parsed, rfl, by decide⟩⟩

end DsiPanel
