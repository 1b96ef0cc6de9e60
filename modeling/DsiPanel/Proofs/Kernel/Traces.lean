import DsiPanel.Proofs.Kernel.Reading

/-!
# Features leave their traces in the text

The features of a fragment and its text are made apart from each other: the features are read off the
actions, the text is rendered for a width. They agree (`CommandSequence.features_traces`). A feature
is in the set exactly if one of its traces can be found in the text, so a driver that takes over the
text with the declarations of its features misses none and has none too many. In the same way a
statement opens a block exactly if its text holds an opening brace.

Most traces have a character that no other text has, and the absence of that mark is enough. Two
have not. A display name could also come from a tear mode, which is looked up in the list of names,
and a sleep could hide in the name of a checked function, which is looked up in the list of functions.
-/

namespace DsiPanel

/-- The texts by which a feature is found. -/
def Feature.traces : Feature → List String
  | returnValue => ["ret = "]
  | deviceHandle => ["dev_err(dev, "]
  | displayHeader => ["MIPI_DCS_"]
  | delay => ["msleep(", "usleep_range("]

/-- One of the feature's traces occurs in the text. -/
def Feature.Shows (f : Feature) (text : List Char) : Prop :=
  ∃ trace ∈ f.traces, trace.toList <:+: text

namespace Feature

instance (f : Feature) (text : List Char) : Decidable (f.Shows text) :=
  inferInstanceAs (Decidable (∃ trace ∈ f.traces, _))

/-- A character that every trace of the feature has. -/
def mark : Feature → Char
  | returnValue => '='
  | deviceHandle => 'v'
  | displayHeader => 'D'
  | delay => 'l'

theorem mark_mem_trace (f : Feature) : ∀ trace ∈ f.traces, f.mark ∈ trace.toList := by
  cases f <;> decide

/-- A text without a character that every trace has does not show the feature. -/
theorem not_shows {f : Feature} {text : List Char} {c : Char} (every : ∀ trace ∈ f.traces, c ∈ trace.toList)
    (clear : c ∉ text) : ¬ f.Shows text := by
  rintro ⟨trace, mem, occurs⟩
  exact clear (occurs.subset (every trace mem))

theorem not_shows_of_mark {f : Feature} {text : List Char} (clear : f.mark ∉ text) : ¬ f.Shows text :=
  not_shows f.mark_mem_trace clear

theorem Shows.mono {f : Feature} {part whole : List Char} (h : f.Shows part) (inside : part <:+: whole) :
    f.Shows whole := by
  obtain ⟨trace, mem, occurs⟩ := h
  exact ⟨trace, mem, occurs.trans inside⟩

/-- No trace is broken over two lines. -/
theorem trace_unbroken (f : Feature) : ∀ trace ∈ f.traces, trace.toList ≠ [] ∧ '\n' ∉ trace.toList := by
  cases f <;> decide

theorem shows_lines_iff {f : Feature} {before after : List Char} :
    f.Shows (before ++ '\n' :: after) ↔ f.Shows before ∨ f.Shows after := by
  unfold Shows
  rw [← exists_or]
  refine exists_congr fun trace => ?_
  rw [← and_or_left]
  refine and_congr_right fun mem => ?_
  obtain ⟨ne, clear⟩ := f.trace_unbroken trace mem
  exact infix_append_cons_iff ne clear

/-- The traces of the feature are without blanks and without the marks of an argument list. -/
def Compact (f : Feature) : Prop :=
  ∀ trace ∈ f.traces, trace.toList ≠ [] ∧ (∀ c ∈ trace.toList, isBlank c = false) ∧
    (∀ c ∈ ",".toList, c ∉ trace.toList) ∧ ∀ c ∈ ");".toList, c ∉ trace.toList

instance (f : Feature) : Decidable f.Compact := inferInstanceAs (Decidable (∀ trace ∈ f.traces, _))

/-- A compact feature shows in an argument list before the list or in an argument. -/
theorem Compact.shows_argumentList_iff {f : Feature} (h : f.Compact) (head : String) (force : Option Nat)
    (width : Nat) (items : List String) :
    f.Shows ((argumentFrame head).render force width ("dsi" :: items)).toList ↔
      f.Shows (head ++ "dsi").toList ∨ ∃ item ∈ items, f.Shows item.toList := by
  have occurs {trace : String} (mem : trace ∈ f.traces) :
      trace.toList <:+: ((argumentFrame head).render force width ("dsi" :: items)).toList ↔
        trace.toList <:+: (head ++ "dsi").toList ∨ ∃ item ∈ items, trace.toList <:+: item.toList := by
    obtain ⟨ne, blankless, separator, closing⟩ := h trace mem
    exact infix_render_iff (argumentFrame_separator head) ne blankless separator closing force width
      "dsi" items
  constructor
  · rintro ⟨trace, mem, inside⟩
    rcases (occurs mem).mp inside with opening | ⟨item, own, inside⟩
    · exact .inl ⟨trace, mem, opening⟩
    · exact .inr ⟨item, own, trace, mem, inside⟩
  · rintro (⟨trace, mem, opening⟩ | ⟨item, own, trace, mem, inside⟩)
    · exact ⟨trace, mem, (occurs mem).mpr (.inl opening)⟩
    · exact ⟨trace, mem, (occurs mem).mpr (.inr ⟨item, own, inside⟩)⟩

theorem displayHeader_compact : Compact .displayHeader := by decide

theorem delay_compact : Compact .delay := by decide

end Feature

/-! ## Characters of the texts -/

/-- The characters that tell the traces apart: the marks of the features and the brace. -/
def tellingChars : List Char := ['=', 'v', 'D', 'l', '\x7b']

theorem Feature.mark_mem_tellingChars (f : Feature) : f.mark ∈ tellingChars := by
  cases f <;> decide

/-- A telling character of an argument list stands before the list or in an argument. -/
theorem mem_argumentList_iff {c : Char} (h : c ∈ tellingChars) (head : String) (force : Option Nat)
    (width : Nat) (items : List String) :
    c ∈ ((argumentFrame head).render force width ("dsi" :: items)).toList ↔
      c ∈ head.toList ∨ ∃ item ∈ items, c ∈ item.toList := by
  have apart : ∀ c ∈ tellingChars,
      isBlank c = false ∧ c ∉ ",".toList ∧ c ∉ ");".toList ∧ c ∉ "dsi".toList := by
    decide
  obtain ⟨shown, separator, closing, handle⟩ := apart c h
  rw [mem_render_iff (argumentFrame_separator head) shown separator closing]
  show c ∈ (head ++ "dsi").toList ∨ _ ↔ _
  rw [String.toList_append, List.mem_append]
  simp only [handle, or_false]

/-- No literal has a telling character. -/
theorem not_mem_byteLiterals {c : Char} (h : c ∈ tellingChars) (bytes : Bytes) :
    ¬ ∃ item ∈ byteLiterals bytes, c ∈ item.toList := by
  have apart : ∀ c ∈ tellingChars, c ∉ hexAlphabet := by decide
  rintro ⟨item, mem, own⟩
  obtain ⟨b, _, rfl⟩ := List.mem_map.mp mem
  exact apart c h (mem_hexLiteral own)

/-- A write has a telling character only from its literals. -/
theorem mem_writeLine_iff {c : Char} (h : c ∈ tellingChars) (family : WriteFamily)
    (literals : List String) (width : Nat) :
    c ∈ (writeLine family literals width).toList ↔ ∃ literal ∈ literals, c ∈ literal.toList := by
  have apart : ∀ c ∈ tellingChars, ∀ family : WriteFamily,
      c ∉ (toString "\t" ++ toString family.function ++ toString "(").toList := by
    intro c hc family
    cases family <;> revert c <;> decide
  rw [writeLine, mem_argumentList_iff h]
  simp only [apart c h family, false_or]

/-- A sleep has no telling character but that of the delay. -/
theorem mem_delayLine {c : Char} (h : c ∈ tellingChars) {ms : Nat} (hc : c ∈ (delayLine ms).toList) :
    c = Feature.delay.mark := by
  have digits (n : Nat) : c ∉ (toString n).toList := by
    have apart : ∀ c ∈ tellingChars, c.isDigit = false := by decide
    intro mem
    have digit := isDigit_of_mem_toString mem
    rw [apart c h] at digit
    contradiction
  have apart : ∀ c ∈ tellingChars, c ∈ "\tmsleep(".toList ++ "\tusleep_range(".toList ++ ", ".toList ++
      ");".toList → c = Feature.delay.mark := by
    decide
  rw [delayLine_eq] at hc
  refine apart c h ?_
  split at hc
  · simp only [String.toList_append, List.mem_append, digits, or_false] at hc
    rcases hc with opening | closing
    · simp only [List.mem_append, opening, true_or]
    · simp only [List.mem_append, closing, or_true]
  · simp only [String.toList_append, List.mem_append, digits, or_false] at hc
    rcases hc with (opening | comma) | closing
    · simp only [List.mem_append, opening, true_or, or_true]
    · simp only [List.mem_append, comma, true_or, or_true]
    · simp only [List.mem_append, closing, or_true]

/-- The name of a command has a telling character only from its prefix. -/
theorem mem_identifier {c : Char} (h : c ∈ tellingChars) {command : DcsCommand}
    (hc : c ∈ command.identifier.toList) : c = Feature.displayHeader.mark := by
  have apart : ∀ c ∈ tellingChars, isWordChar c = true ∧ c.isLower = false →
      c = Feature.displayHeader.mark := by
    decide
  exact apart c h (DcsCommand.mem_identifier hc)

/-- A write of a named command has a telling character only from the prefix of the name. -/
theorem mem_writeCommand {c : Char} (h : c ∈ tellingChars) {command : DcsCommand} {arguments : Bytes}
    {width : Nat} (hc : c ∈ ((Action.writeCommand command arguments).text width).toList) :
    c = Feature.displayHeader.mark := by
  obtain ⟨literal, own, mem⟩ :=
    (mem_writeLine_iff h .dcs (command.identifier :: byteLiterals arguments) width).mp hc
  rcases List.mem_cons.mp own with rfl | own
  · exact mem_identifier h mem
  · exact absurd ⟨literal, own, mem⟩ (not_mem_byteLiterals h arguments)

theorem writeCommand_shows (command : DcsCommand) (arguments : Bytes) (width : Nat) :
    Feature.displayHeader.Shows ((Action.writeCommand command arguments).text width).toList := by
  have inside : "MIPI_DCS_".toList <:+: command.identifier.toList := by
    rw [DcsCommand.identifier, String.toList_append]
    exact (List.prefix_append _ _).isInfix
  have name : Feature.displayHeader.Shows command.identifier.toList :=
    ⟨"MIPI_DCS_", List.mem_singleton_self _, inside⟩
  exact (Feature.displayHeader_compact.shows_argumentList_iff _ _ width _).mpr
    (.inr ⟨command.identifier, List.mem_cons_self, name⟩)

/-- A comment has no telling character. -/
theorem not_mem_ignored {c : Char} (h : c ∈ tellingChars) {t : Transaction} (ignored : t.strategy = .ignore)
    (width : Nat) : c ∉ ((Action.ignored t).text width).toList := by
  have fixed : ∀ d ∈ "\t// WARNING: Ignoring weird ".toList, d ∉ tellingChars := by decide
  have spelled : ∃ cs, t.name = String.ofList cs ∧ ∀ c ∈ tellingChars, c ∉ cs := by
    cases t <;> first | exact absurd ignored (by decide) | exact ⟨_, rfl, by decide⟩
  have named : c ∉ t.name.toList := by
    obtain ⟨cs, name, clear⟩ := spelled
    rw [name, String.toList_ofList]
    exact clear c h
  show c ∉ ("\t// WARNING: Ignoring weird " ++ t.name).toList
  rw [String.toList_append, List.mem_append, not_or]
  exact ⟨fun mem => fixed c mem h, named⟩

theorem not_mem_unknown {c : Char} (h : c ∈ tellingChars) (opcode : UInt8) (width : Nat) :
    c ∉ ((Action.unknown opcode).text width).toList := by
  have apart : ∀ c ∈ tellingChars,
      c ∉ "\t// FIXME: unknown transaction type ".toList ∧ c ∉ hexAlphabet := by
    decide
  show c ∉ ("\t// FIXME: unknown transaction type " ++ byteLiteral opcode).toList
  rw [String.toList_append, List.mem_append, not_or]
  exact ⟨(apart c h).1, fun own => (apart c h).2 (mem_hexLiteral own)⟩

/-! ## Checked calls -/

/-- The head of a checked call. -/
def Call.head (c : Call) : String := "\tret = " ++ c.function ++ "("

theorem Call.line_eq (c : Call) (width : Nat) :
    c.line width = (argumentFrame c.head).render (some 1) width ("dsi" :: c.arguments) := rfl

theorem Action.text_call (c : Call) (width : Nat) :
    (Action.call c).text width = c.line width ++ "\n" ++ c.check := rfl

/-- A checked call shows the result and the device, and it opens a block. -/
theorem call_shows (c : Call) (width : Nat) :
    Feature.returnValue.Shows ((Action.call c).text width).toList ∧
      Feature.deviceHandle.Shows ((Action.call c).text width).toList ∧
      '\x7b' ∈ ((Action.call c).text width).toList := by
  have report : reportOpening.toList <:+: ((Action.call c).text width).toList := by
    refine ⟨(c.line width ++ "\n").toList, (inWords c.subject ++ reportClosing).toList, ?_⟩
    simp only [Action.text_call, Call.check_eq, String.toList_append, List.append_assoc]
  have result : "\tret = ".toList <:+: ((Action.call c).text width).toList := by
    obtain ⟨body, heq, -⟩ := render_spaced (argumentFrame c.head) (argumentFrame_separator c.head)
      (some 1) width (List.cons_ne_nil "dsi" c.arguments)
    have opening : (argumentFrame c.head).opening = "\tret = " ++ c.function ++ "(" := rfl
    refine ⟨[], (c.function ++ "(").toList ++ body ++ ("\n" ++ c.check).toList, ?_⟩
    simp only [Action.text_call, Call.line_eq, heq, opening, String.toList_append, List.append_assoc,
      List.nil_append]
  have shown : Feature.returnValue.Shows "\tret = ".toList ∧
      Feature.deviceHandle.Shows reportOpening.toList := by
    decide
  exact ⟨shown.1.mono result, shown.2.mono report, report.subset (by decide)⟩

/-- A feature shows in a checked call or in its report. -/
theorem shows_call_iff {f : Feature} (c : Call) (width : Nat) :
    f.Shows ((Action.call c).text width).toList ↔
      f.Shows (c.line width).toList ∨ f.Shows c.check.toList := by
  have lines : ((Action.call c).text width).toList =
      (c.line width).toList ++ '\n' :: c.check.toList := by
    simp only [Action.text_call, String.toList_append, List.append_assoc]
    rfl
  rw [lines, Feature.shows_lines_iff]

/-- A character of a report stands in its fixed parts, or is a blank or a small character. -/
theorem mem_check {c : Call} (plain : c.Plain) {char : Char} (h : char ∈ c.check.toList) :
    char ∈ reportOpening.toList ∨ char ∈ reportClosing.toList ∨ char = ' ' ∨
      isWordChar char = true ∧ char.isUpper = false := by
  simp only [Call.check_eq, String.toList_append, List.mem_append] at h
  rcases h with (opening | words) | closing
  · exact .inl opening
  · exact .inr (.inr (mem_inWords plain.subject words))
  · exact .inr (.inl closing)

/-- No checked call looks like the name of a command. -/
theorem call_not_shows_displayHeader {c : Call} (plain : c.Plain) (width : Nat) :
    ¬ Feature.displayHeader.Shows ((Action.call c).text width).toList := by
  have head : Feature.displayHeader.mark ∉ (c.head ++ "dsi").toList := by
    have fixed : Feature.displayHeader.mark ∉ "\tret = ".toList ∧
        Feature.displayHeader.mark ∉ "(".toList ∧ Feature.displayHeader.mark ∉ "dsi".toList := by
      decide
    intro mem
    simp only [Call.head, String.toList_append, List.mem_append, fixed, false_or, or_false] at mem
    exact absurd (mem_kernelFunctions plain.function mem).2 (by decide)
  have arguments : ¬ ∃ argument ∈ c.arguments, Feature.displayHeader.Shows argument.toList := by
    rintro ⟨argument, own, shows⟩
    -- A tear mode starts as a display name does, so its mark is no help here.
    cases plain.arguments argument own with
    | literal width value =>
      have clear : Feature.displayHeader.mark ∉ (hexLiteral width value).toList :=
        fun mem => absurd (mem_hexLiteral mem) (by decide)
      exact Feature.not_shows_of_mark clear shows
    | name h =>
      have none : ∀ name ∈ argumentNames, ¬ Feature.displayHeader.Shows name.toList := by decide
      exact none argument h shows
  have line : ¬ Feature.displayHeader.Shows (c.line width).toList := by
    rw [Call.line_eq, Feature.displayHeader_compact.shows_argumentList_iff, not_or]
    exact ⟨Feature.not_shows_of_mark head, arguments⟩
  have check : Feature.displayHeader.mark ∉ c.check.toList := by
    intro mem
    have apart : Feature.displayHeader.mark ∉ reportOpening.toList ∧
        Feature.displayHeader.mark ∉ reportClosing.toList := by
      decide
    rcases mem_check plain mem with opening | closing | blank | small
    · exact apart.1 opening
    · exact apart.2 closing
    · exact absurd blank (by decide)
    · exact absurd small.2 (by decide)
  rw [shows_call_iff, not_or]
  exact ⟨line, Feature.not_shows_of_mark check⟩

/-- Every trace of a delay ends with a parenthesis, so nothing counts that stands after the last one. -/
theorem shows_delay_append_iff {before after : List Char} (clear : '(' ∉ after) :
    Feature.delay.Shows (before ++ after) ↔ Feature.delay.Shows before := by
  have ends : ∀ trace ∈ Feature.delay.traces, ∃ init, trace.toList = init ++ ['('] := by
    intro trace mem
    simp only [Feature.traces, List.mem_cons, List.not_mem_nil, or_false] at mem
    rcases mem with rfl | rfl
    · exact ⟨"msleep".toList, by decide⟩
    · exact ⟨"usleep_range".toList, by decide⟩
  refine exists_congr fun trace => and_congr_right fun mem => ?_
  obtain ⟨init, heq⟩ := ends trace mem
  rw [heq]
  exact infix_append_iff_of_last clear

/-- No checked call looks like a sleep. -/
theorem call_not_shows_delay {c : Call} (plain : c.Plain) (width : Nat) :
    ¬ Feature.delay.Shows ((Action.call c).text width).toList := by
  have every : ∀ trace ∈ Feature.delay.traces, '(' ∈ trace.toList := by decide
  -- A sleep would have to start within the name of the function, for nothing else has its letters.
  have head : ¬ Feature.delay.Shows (c.head ++ "dsi").toList := by
    have started : ∀ trace ∈ Feature.delay.traces, ∃ start ∈ sleepPrefixes, start <+: trace.toList := by
      decide
    have letters : ∀ start ∈ sleepPrefixes, start ≠ [] ∧ (∀ c ∈ "\tret = ".toList, c ∉ start) ∧
        ∀ c ∈ "(".toList, c ∉ start := by
      decide
    have handle : '(' ∉ "dsi".toList := by decide
    rw [String.toList_append, shows_delay_append_iff handle, Call.head, String.toList_append,
      String.toList_append]
    rintro ⟨trace, own, occurs⟩
    obtain ⟨start, mem, inside⟩ := started trace own
    obtain ⟨ne, opening, closing⟩ := letters start mem
    have named := (infix_append_right_iff ne closing).mp (inside.isInfix.trans occurs)
    rw [infix_append_left_iff ne opening] at named
    exact kernelFunctions_not_sleep plain.function mem named
  have arguments : ¬ ∃ argument ∈ c.arguments, Feature.delay.Shows argument.toList := by
    rintro ⟨argument, own, shows⟩
    have clear : '(' ∉ argument.toList := (plain.arguments argument own).isWord.not_mem (by decide)
    exact Feature.not_shows every clear shows
  have line : ¬ Feature.delay.Shows (c.line width).toList := by
    rw [Call.line_eq, Feature.delay_compact.shows_argumentList_iff, not_or]
    exact ⟨head, arguments⟩
  have check : ¬ Feature.delay.Shows c.check.toList := by
    have opening : ¬ Feature.delay.Shows reportOpening.toList := by decide
    have words : '(' ∉ (inWords c.subject).toList := by
      intro mem
      rcases mem_inWords plain.subject mem with blank | small
      · exact absurd blank (by decide)
      · exact absurd small.1 (by decide)
    have closing : '(' ∉ reportClosing.toList := by decide
    rw [Call.check_eq, String.toList_append, String.toList_append, shows_delay_append_iff closing,
      shows_delay_append_iff words]
    exact opening
  rw [shows_call_iff, not_or]
  exact ⟨line, check⟩

/-! ## Actions and statements -/

/-- An action by itself does not sleep. -/
theorem Action.not_contains_delay (action : Action) : action.features.contains .delay = false := by
  cases action <;> rfl

theorem Statement.contains_delay (s : Statement) : s.features.contains .delay = s.delay.isSome := by
  rw [Statement.features, Features.contains_union, s.action.not_contains_delay, Bool.false_or]
  rfl

/-- An action shows the features that it needs, and no other. -/
theorem shows_action_iff {action : Action} (plain : action.Plain) (width : Nat) (f : Feature) :
    f.Shows (action.text width).toList ↔ action.features.contains f = true := by
  cases plain with
  | call hc =>
    obtain ⟨result, device, -⟩ := call_shows _ width
    cases f with
    | returnValue => exact iff_of_true result rfl
    | deviceHandle => exact iff_of_true device rfl
    | displayHeader => exact iff_of_false (call_not_shows_displayHeader hc width) Bool.false_ne_true
    | delay => exact iff_of_false (call_not_shows_delay hc width) Bool.false_ne_true
  | writeBytes family payload =>
    have clear : f.mark ∉ (writeLine family (byteLiterals payload) width).toList := by
      rw [mem_writeLine_iff f.mark_mem_tellingChars]
      exact not_mem_byteLiterals f.mark_mem_tellingChars payload
    exact iff_of_false (Feature.not_shows_of_mark clear) (Bool.eq_false_iff.mp (Features.contains_empty f))
  | writeCommand command arguments =>
    by_cases name : f = .displayHeader
    · subst name
      exact iff_of_true (writeCommand_shows command arguments width) rfl
    · have clear : f.mark ∉ ((Action.writeCommand command arguments).text width).toList := by
        intro mem
        have own := mem_writeCommand f.mark_mem_tellingChars mem
        revert name own
        cases f <;> decide
      have none : (Action.writeCommand command arguments).features.contains f ≠ true := by
        revert name
        cases f <;> simp [Action.features, Features.contains]
      exact iff_of_false (Feature.not_shows_of_mark clear) none
  | @ignored t h =>
    have clear := not_mem_ignored f.mark_mem_tellingChars h width
    exact iff_of_false (Feature.not_shows_of_mark clear) (Bool.eq_false_iff.mp (Features.contains_empty f))
  | unknown opcode =>
    have clear := not_mem_unknown f.mark_mem_tellingChars opcode width
    exact iff_of_false (Feature.not_shows_of_mark clear) (Bool.eq_false_iff.mp (Features.contains_empty f))

/-- An action opens a block exactly if its text has an opening brace. -/
theorem opensBlock_action_iff {action : Action} (plain : action.Plain) (width : Nat) :
    action.opensBlock = true ↔ '\x7b' ∈ (action.text width).toList := by
  have telling : '\x7b' ∈ tellingChars := by decide
  cases plain with
  | call _ => exact iff_of_true rfl (call_shows _ width).2.2
  | writeBytes family payload =>
    refine iff_of_false Bool.false_ne_true ?_
    show _ ∉ (writeLine family (byteLiterals payload) width).toList
    rw [mem_writeLine_iff telling]
    exact not_mem_byteLiterals telling payload
  | writeCommand command arguments =>
    refine iff_of_false Bool.false_ne_true fun mem => ?_
    exact absurd (mem_writeCommand telling mem) (by decide)
  | ignored h => exact iff_of_false Bool.false_ne_true (not_mem_ignored telling h width)
  | unknown opcode => exact iff_of_false Bool.false_ne_true (not_mem_unknown telling opcode width)

/-- A sleep shows the delay and no other feature. -/
theorem shows_delayLine_iff (ms : Nat) (f : Feature) : f.Shows (delayLine ms).toList ↔ f = .delay := by
  constructor
  · intro shows
    by_contra other
    refine Feature.not_shows_of_mark (fun mem => ?_) shows
    have own := mem_delayLine f.mark_mem_tellingChars mem
    revert other own
    cases f <;> decide
  · rintro rfl
    have coarse : Feature.delay.Shows "\tmsleep(".toList := by decide
    have fine : Feature.delay.Shows "\tusleep_range(".toList := by decide
    rw [delayLine_eq]
    split
    · refine coarse.mono ?_
      rw [String.append_assoc, String.toList_append]
      exact (List.prefix_append _ _).isInfix
    · refine fine.mono ?_
      simp only [String.append_assoc]
      rw [String.toList_append]
      exact (List.prefix_append _ _).isInfix

/-- A statement shows the features that it needs, and no other. -/
theorem shows_statement_iff {s : Statement} (plain : s.action.Plain) (width : Nat) (f : Feature) :
    f.Shows (s.text width).toList ↔ s.features.contains f = true := by
  have action := shows_action_iff plain width f
  unfold Statement.text Statement.features
  rw [Features.contains_union]
  cases s.delay with
  | none =>
    have none : Features.contains { delay := false } f = false := by cases f <;> rfl
    simp only [Option.isSome_none, none, Bool.or_false]
    exact action
  | some ms =>
    have own : Features.contains { delay := true } f = true ↔ f = .delay := by cases f <;> decide
    have lines : (s.action.text width ++ "\n" ++ delayLine ms).toList =
        (s.action.text width).toList ++ '\n' :: (delayLine ms).toList := by
      simp only [String.toList_append, List.append_assoc]
      rfl
    simp only [Option.isSome_some, Bool.or_eq_true, own, lines]
    rw [Feature.shows_lines_iff, action, shows_delayLine_iff]

/-- A statement opens a block exactly if its text has an opening brace. -/
theorem opensBlock_statement_iff {s : Statement} (plain : s.action.Plain) (width : Nat) :
    s.opensBlock = true ↔ '\x7b' ∈ (s.text width).toList := by
  have action := opensBlock_action_iff plain width
  unfold Statement.text Statement.opensBlock
  cases s.delay with
  | none => exact action
  | some ms =>
    have sleep : '\x7b' ∉ (delayLine ms).toList :=
      fun mem => absurd (mem_delayLine (by decide) mem) (by decide)
    have line : '\x7b' ∉ "\n".toList := by decide
    simp only [String.toList_append, List.mem_append, sleep, line, or_false]
    exact action

/-! ## The law -/

theorem contains_foldl (f : Feature) (statements : List Statement) (set : Features) :
    (statements.foldl (fun set s => set.union s.features) set).contains f = true ↔
      set.contains f = true ∨ ∃ s ∈ statements, s.features.contains f = true := by
  induction statements generalizing set with
  | nil => simp
  | cons s statements ih =>
    rw [List.foldl_cons, ih, Features.contains_union, Bool.or_eq_true, or_assoc]
    simp only [List.mem_cons, exists_eq_or_imp]

/-- A fragment has the features of its statements. -/
theorem contains_fragment_iff (f : Feature) (width : Nat) (statements : List Statement) :
    (Fragment.ofStatements width statements).features.contains f = true ↔
      ∃ s ∈ statements, s.features.contains f = true := by
  rw [Fragment.ofStatements, contains_foldl]
  simp only [Features.contains_empty, Bool.false_eq_true, false_or]

/-- A fragment shows what its statements show. -/
theorem shows_fragment_iff (f : Feature) (width : Nat) (statements : List Statement) :
    f.Shows (Fragment.ofStatements width statements).text.toList ↔
      ∃ s ∈ statements, f.Shows (s.text width).toList := by
  have occurs {trace : String} (mem : trace ∈ f.traces) :
      trace.toList <:+: (Fragment.ofStatements width statements).text.toList ↔
        ∃ s ∈ statements, trace.toList <:+: (s.text width).toList := by
    obtain ⟨ne, clear⟩ := f.trace_unbroken trace mem
    exact infix_fragment_iff ne clear width statements
  constructor
  · rintro ⟨trace, mem, inside⟩
    obtain ⟨s, own, inside⟩ := (occurs mem).mp inside
    exact ⟨s, own, trace, mem, inside⟩
  · rintro ⟨s, own, trace, mem, inside⟩
    exact ⟨trace, mem, (occurs mem).mpr ⟨s, own, inside⟩⟩

/-- Whatever the settings, the features of a sequence are those whose traces occur in its text, and a
statement opens a block exactly if its text has an opening brace. -/
theorem CommandSequence.features_traces (settings : Settings) :
    (∀ (s : CommandSequence) (fragment : Fragment), s.synthesize settings = .ok fragment →
      ∀ f : Feature, fragment.features.contains f = true ↔ f.Shows fragment.text.toList) ∧
    ∀ (op : Operation) (index : Nat) (statement : Statement),
      op.statement settings index = .ok statement →
      (statement.opensBlock = true ↔ '\x7b' ∈ (statement.text settings.wrapWidth).toList) := by
  have plain {op : Operation} {index : Nat} {statement : Statement}
      (made : op.statement settings index = .ok statement) : statement.action.Plain :=
    Operation.action_plain (Operation.statement_ok_iff.mp made).1
  constructor
  · intro s fragment h f
    obtain ⟨statements, made, rfl⟩ := CommandSequence.synthesize_ok_iff.mp h
    rw [contains_fragment_iff, shows_fragment_iff]
    refine exists_congr fun statement => and_congr_right fun mem => ?_
    obtain ⟨op, index, own⟩ := CommandSequence.of_mem_statements made mem
    exact (shows_statement_iff (plain own) settings.wrapWidth f).symm
  · intro op index statement made
    exact opensBlock_statement_iff (plain made) settings.wrapWidth

/-- A named command with a wait. -/
def writeAndWait : Operation := { opcode := 0x39, wait := 120, payload := [0x2c, 1] }

/-- A named command with a wait shows the display header and the delay and nothing else, also where no
width is left, and it opens no block. -/
theorem CommandSequence.features_traces_named :
    (∃ fragment, CommandSequence.synthesize { wrapWidth := 0 } ⟨"on", .lowPower, [writeAndWait]⟩ =
        .ok fragment ∧
      ∀ f : Feature, f.Shows fragment.text.toList ↔ f = .displayHeader ∨ f = .delay) ∧
    ∃ statement, writeAndWait.statement { wrapWidth := 0 } 3 = .ok statement ∧
      '\x7b' ∉ (statement.text 0).toList := by
  obtain ⟨features, blocks⟩ := CommandSequence.features_traces { wrapWidth := 0 }
  have own (index : Nat) : writeAndWait.statement { wrapWidth := 0 } index =
      .ok ⟨.writeCommand .writeMemoryStart [1], some 120⟩ := rfl
  have made : CommandSequence.synthesize { wrapWidth := 0 } ⟨"on", .lowPower, [writeAndWait]⟩ =
      .ok (Fragment.ofStatements 0 [⟨.writeCommand .writeMemoryStart [1], some 120⟩]) := rfl
  refine ⟨⟨_, made, fun f => ?_⟩, _, own 3, (blocks writeAndWait 3 _ (own 3)).not.mp Bool.false_ne_true⟩
  rw [← features _ _ made f]
  cases f <;> decide

end DsiPanel
