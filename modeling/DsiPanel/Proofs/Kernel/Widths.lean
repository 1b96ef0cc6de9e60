import DsiPanel.Proofs.Dcs.Arguments
import DsiPanel.Proofs.Kernel.Traces
import DsiPanel.Proofs.Kernel.Writes
import DsiPanel.Proofs.Text.LineWidth

/-!
# How wide the lines of a statement are

A width of 80 columns and more is kept by every line but one. An argument list is wrapped, and all of
its arguments fit behind the head of the call that they are made for (`Operation.call_narrow`), so
wrapping keeps the width whatever the count of arguments is. Comments and sleeps are short enough as
they are. The report of a checked call is never wrapped: its fixed text takes 54 columns and the name
of what is done takes the rest.

**The law** (`Operation.statement_lines`): names leave the report within 80 columns, but for the three
generic short writes, whose reports take 81. Such a write is a checked call only without a payload. So
at a width of 80 the width is kept exactly by the other operations, and from 81 on by all of them.
-/

namespace DsiPanel

/-! ## Names and literals -/

/-- A name in plain words is as wide as the name. -/
theorem textWidth_inWords {name : String} (h : IsWord name) :
    textWidth (inWords name) = textWidth name := by
  have clear : '\t' ∉ (inWords name).toList := by
    intro mem
    rcases mem_inWords h mem with blank | ⟨word, -⟩
    · exact absurd blank (by decide)
    · exact absurd word (by decide)
  rw [textWidth_of_not_mem clear, h.textWidth_eq, inWords, String.length_ofList, List.length_map,
    String.length_toList]

/-- The columns that the literals of a codec take at most. -/
def ArgumentCodec.literalWidth : ArgumentCodec → Nat
  | bytes => 4
  | integers width _ => 2 + 2 * width
  | tearMode => 30

/-- The integers of a codec have no more than eight bytes. -/
def ArgumentCodec.Short (codec : ArgumentCodec) : Prop :=
  ∀ width order, codec = .integers width order → width ≤ 8

theorem textWidth_le_of_mem_decode {codec : ArgumentCodec} (short : codec.Short) {arguments : Bytes}
    {literals : List String} (h : codec.decode arguments = .ok literals) :
    ∀ text ∈ literals, textWidth text ≤ codec.literalWidth := by
  intro text mem
  unfold ArgumentCodec.decode at h
  split at h
  next =>
    cases h
    obtain ⟨b, -, rfl⟩ := List.mem_map.mp mem
    exact Nat.le_of_eq (textWidth_byteLiteral b)
  next => contradiction
  next width order nonzero =>
    cases h
    have pos : 0 < width := Nat.pos_of_ne_zero nonzero
    have length := length_of_mem_integerLiterals pos (short width order rfl) mem
    obtain ⟨group, -, rfl⟩ := List.mem_map.mp mem
    rw [(hexLiteral_isWord _ _).textWidth_eq, length]
    exact Nat.le_refl _
  next => contradiction
  next =>
    split at h
    next mode _ =>
      cases h
      obtain rfl := List.mem_singleton.mp mem
      cases mode <;> exact textWidth_ofList_le (by decide)
    next => contradiction

theorem DcsCommand.codec_short (c : DcsCommand) : c.codec.Short := by
  intro width order own
  rcases c.codec_cases with codec | ⟨_, _, codec, -⟩ | ⟨codec, -⟩ | rfl
  · exact absurd (codec.symm.trans own) (nomatch ·)
  · cases codec.symm.trans own
    decide
  · exact absurd (codec.symm.trans own) (nomatch ·)
  · cases own
    decide

/-! ## Argument lists -/

/-- An argument list keeps the width if each argument alone fits behind the head. -/
theorem argumentList_line_le {head : String} {items : List String} {width : Nat} (ne : items ≠ [])
    (fits : ∀ item ∈ items, textWidth head + textWidth item + 2 ≤ width) {force : Option Nat}
    {line : String} (h : line ∈ textLines ((argumentFrame head).render force width items)) :
    textWidth line ≤ width := by
  have separator : textWidth "," = 1 := rfl
  have closing : textWidth ");" = 2 := rfl
  have plain : (argumentFrame head).PlainMarks :=
    ⟨(by decide : textWidth "," ≤ ",".utf8ByteSize), (by decide : textWidth ");" ≤ ");".utf8ByteSize)⟩
  refine width_le_of_mem_render (argumentFrame_separator head) plain ne (fun text marked => ?_) h
  obtain ⟨item, mem, mark⟩ := mem_marked marked
  have own := fits item mem
  show textWidth head + textWidth text ≤ width
  rcases mark with rfl | rfl
  · rw [textWidth_append]
    show textWidth head + (textWidth item + textWidth ",") ≤ width
    omega
  · rw [textWidth_append]
    show textWidth head + (textWidth item + textWidth ");") ≤ width
    omega

/-- A write keeps the width if its literals are no wider than the longest name of a command. -/
theorem writeLine_line_le {family : WriteFamily} {literals : List String} {width : Nat} (wide : 80 ≤ width)
    (short : ∀ literal ∈ literals, textWidth literal ≤ 32) {line : String}
    (h : line ∈ textLines (writeLine family literals width)) : textWidth line ≤ width := by
  have head : textWidth (toString "\t" ++ toString family.function ++ toString "(") ≤ 35 := by
    cases family <;> decide
  have handle : textWidth "dsi" = 3 := rfl
  refine argumentList_line_le (List.cons_ne_nil _ _) (List.forall_mem_cons.mpr ⟨by omega, ?_⟩) h
  intro literal mem
  have own := short literal mem
  omega

theorem textWidth_le_of_mem_byteLiterals {bytes : Bytes} {literal : String}
    (h : literal ∈ byteLiterals bytes) : textWidth literal ≤ 32 := by
  obtain ⟨b, -, rfl⟩ := List.mem_map.mp h
  rw [textWidth_byteLiteral]
  decide

theorem DcsCommand.textWidth_name_le (c : DcsCommand) : textWidth c.name ≤ 23 := by
  rw [c.name_isWord.textWidth_eq]
  exact c.length_name_le

theorem DcsCommand.textWidth_identifier_le (c : DcsCommand) : textWidth c.identifier ≤ 32 := by
  have mark : textWidth "MIPI_DCS_" = 9 := rfl
  have name := c.textWidth_name_le
  rw [DcsCommand.identifier, textWidth_append]
  omega

/-! ## Checked calls -/

/-- What stands on the line of a report before its words. -/
def reportLineOpening : String := "\t\tdev_err(dev, \"Failed to "

/-- What stands on the line of a report after its words. -/
def reportLineClosing : String := ": %d\\n\", ret);"

/-- The line of a checked call that reports a failure. -/
def Call.reportLine (c : Call) : String := reportLineOpening ++ inWords c.subject ++ reportLineClosing

theorem Call.textWidth_reportLine {c : Call} (h : IsWord c.subject) :
    textWidth c.reportLine = 54 + textWidth c.subject := by
  have opening : textWidth reportLineOpening = 40 := textWidth_ofList _
  have closing : textWidth reportLineClosing = 14 := textWidth_ofList _
  rw [reportLine, textWidth_append, textWidth_append, opening, closing, textWidth_inWords h]
  omega

/-- The block after a checked call has four lines. -/
theorem Call.textLines_check {c : Call} (h : IsWord c.subject) :
    textLines c.check = ["\tif (ret < 0) \x7b", c.reportLine, "\t\treturn ret;", "\t\x7d"] := by
  have opening : reportOpening = "\tif (ret < 0) \x7b" ++ "\n" ++ reportLineOpening := by
    simp only [reportOpening, reportLineOpening, String.reduceAppend]
  have closing : reportClosing = reportLineClosing ++ "\n" ++ ("\t\treturn ret;" ++ "\n" ++ "\t\x7d") := by
    simp only [reportClosing, reportLineClosing, String.reduceAppend]
  have cut : c.check =
      "\tif (ret < 0) \x7b" ++ "\n" ++ (c.reportLine ++ "\n" ++ ("\t\treturn ret;" ++ "\n" ++ "\t\x7d")) := by
    rw [Call.check_eq, opening, closing, reportLine]
    simp only [String.append_assoc]
  have clear : '\n' ∉ c.reportLine.toList := by
    have fixed : '\n' ∉ reportLineOpening.toList ∧ '\n' ∉ reportLineClosing.toList := by decide
    intro mem
    simp only [reportLine, String.toList_append, List.mem_append, fixed, false_or, or_false] at mem
    rcases mem_inWords h mem with blank | ⟨word, -⟩
    · exact absurd blank (by decide)
    · exact absurd word (by decide)
  rw [cut, textLines_append, textLines_append, textLines_append, textLines_of_not_mem clear]
  rfl

theorem Call.textWidth_head (c : Call) : textWidth c.head = 15 + textWidth c.function := by
  have opening : textWidth "\tret = " = 14 := rfl
  have closing : textWidth "(" = 1 := rfl
  rw [head, textWidth_append, textWidth_append, opening, closing]
  omega

/-- The handle and all arguments of the call fit behind its head. -/
def Call.Narrow (c : Call) : Prop :=
  ∀ text ∈ "dsi" :: c.arguments, textWidth c.head + textWidth text + 2 ≤ 80

/-- Only the report of a narrow call can be wider than 80 columns. -/
theorem Call.line_le {c : Call} (narrow : c.Narrow) (h : IsWord c.subject) {width : Nat} (wide : 80 ≤ width)
    {line : String} (mem : line ∈ textLines ((Action.call c).text width)) :
    textWidth line ≤ width ∨ line = c.reportLine := by
  rw [Action.text_call, textLines_append, Call.textLines_check h, List.mem_append] at mem
  rcases mem with list | check
  · refine .inl (argumentList_line_le (List.cons_ne_nil _ _) (fun text own => ?_) list)
    exact (narrow text own).trans wide
  · have others : ∀ text ∈ ["\tif (ret < 0) \x7b", "\t\treturn ret;", "\t\x7d"], textWidth text ≤ 80 := by
      decide
    rcases List.mem_cons.mp check with first | check
    · exact .inl ((others line (by simp [first])).trans wide)
    · rcases List.mem_cons.mp check with report | last
      · exact .inr report
      · exact .inl ((others line (List.mem_cons_of_mem _ last)).trans wide)

theorem Call.reportLine_mem {c : Call} (h : IsWord c.subject) (width : Nat) :
    c.reportLine ∈ textLines ((Action.call c).text width) := by
  rw [Action.text_call, textLines_append, Call.textLines_check h]
  exact List.mem_append_right _ (by simp)

/-- Short arguments fit behind the name of a function that is no helper. -/
theorem Call.narrow_of_short {c : Call} (function : textWidth c.function ≤ 28)
    (short : ∀ text ∈ c.arguments, textWidth text ≤ 5) : c.Narrow := by
  have head := c.textWidth_head
  have handle : textWidth "dsi" = 3 := rfl
  intro text mem
  rcases List.mem_cons.mp mem with rfl | own
  · omega
  · have width := short text own
    omega

/-- The literals of a command fit behind the name of its helper. -/
theorem Call.narrow_of_helper {command : DcsCommand} {function : String}
    (found : command.helper? = some function) {arguments : Bytes} {literals : List String}
    (decoded : command.codec.decode arguments = .ok literals) (subject : String) :
    Call.Narrow { function, arguments := literals, subject } := by
  have row : textWidth function ≤ 63 - max 3 command.codec.literalWidth := by
    cases command <;> cases found <;> exact textWidth_ofList_le (by decide)
  have literal : command.codec.literalWidth ≤ 30 := by
    cases command <;> decide
  have head : textWidth (Call.head { function, arguments := literals, subject }) = 15 + textWidth function :=
    Call.textWidth_head _
  have handle : textWidth "dsi" = 3 := rfl
  intro text mem
  rcases List.mem_cons.mp mem with rfl | own
  · omega
  · have width := textWidth_le_of_mem_decode command.codec_short decoded text own
    omega

/-! ## Calls made for an operation -/

/-- The transactions whose names are the longest of all that a report can name. -/
def shortGenericWrites : List Transaction :=
  [.genericShortWrite0Param, .genericShortWrite1Param, .genericShortWrite2Param]

/-- A generic short write without any byte. -/
def Operation.IsEmptyShortWrite (op : Operation) : Prop :=
  op.payload = [] ∧ ∃ t ∈ shortGenericWrites, t.opcode = op.opcode

/-- Text is made of the transaction, and that text is no comment. -/
def Transaction.IsSent (t : Transaction) : Prop := t.strategy ∉ [Strategy.ignore, Strategy.unsupported]

theorem Transaction.textWidth_name {t : Transaction} (sent : t.IsSent) :
    textWidth t.name ≤ 26 ∨ t ∈ shortGenericWrites ∧ textWidth t.name = 27 := by
  cases t <;> first
    | exact absurd (by decide) sent
    | exact .inl (textWidth_ofList_le (by decide))
    | exact .inr ⟨by decide, textWidth_ofList _⟩

/-- What is said of the width of a call that is made for a transaction: its list is narrow, and the
name of what is done is short, but for a generic short write without a payload. -/
structure Call.NarrowFor (t : Transaction) (payload : Bytes) (c : Call) : Prop where
  list : c.Narrow
  subject : textWidth c.subject ≤ 26 ∨ payload = [] ∧ t ∈ shortGenericWrites ∧ textWidth c.subject = 27

theorem WriteForm.call_narrow {conservative : Bool} {t : Transaction} {family : WriteFamily}
    {payload : Bytes} {c : Call} (sent : t.IsSent)
    (h : WriteForm conservative t family payload (.call c)) : c.NarrowFor t payload := by
  cases h with
  | missing =>
    have function : textWidth family.bareFunction ≤ 28 := by
      cases family <;> exact textWidth_ofList_le (by decide)
    have short : ∀ text ∈ ["NULL", "0"], textWidth text ≤ 5 := by decide
    exact ⟨Call.narrow_of_short function short, (Transaction.textWidth_name sent).imp id (And.intro rfl)⟩
  | @helper command _ _ _ _ _ decoded found =>
    exact ⟨Call.narrow_of_helper found decoded _, .inl (command.textWidth_name_le.trans (by decide))⟩

theorem peripheralAction_narrow {t : Transaction} (h : t.strategy = .peripheralControl) {payload : Bytes}
    {c : Call} (made : peripheralAction t = .call c) : c.NarrowFor t payload := by
  cases made
  have name : textWidth t.name ≤ 26 := by
    cases t <;> first
      | exact absurd h (by decide)
      | exact textWidth_ofList_le (by decide)
  refine ⟨Call.narrow_of_short ?_ (List.forall_mem_nil _), .inl name⟩
  show textWidth (if t = .turnOnPeripheral then _ else _) ≤ 28
  split <;> exact textWidth_ofList_le (by decide)

theorem compressionAction_narrow {t : Transaction} {payload : Bytes} {c : Call}
    (made : compressionAction payload = .call c) : c.NarrowFor t payload := by
  cases made
  have name : textWidth Transaction.compressionMode.name ≤ 26 := textWidth_ofList_le (by decide)
  have function : textWidth "mipi_dsi_compression_mode" ≤ 28 := textWidth_ofList_le (by decide)
  refine ⟨Call.narrow_of_short function (List.forall_mem_singleton.mpr ?_), .inl name⟩
  split <;> decide

/-- Every call that is made for a transaction is narrow. -/
theorem Transaction.call_narrow {conservative : Bool} {payload : Bytes} {t : Transaction} {c : Call}
    (h : t.action? conservative payload = some (.call c)) : c.NarrowFor t payload := by
  unfold Transaction.action? at h
  split at h
  next generic =>
    have sent : t.IsSent := by
      rw [Transaction.IsSent, generic]
      decide
    have form := genericAction_spec conservative t payload
    rw [Option.some.inj h] at form
    exact form.call_narrow sent
  next command =>
    have sent : t.IsSent := by
      rw [Transaction.IsSent, command]
      decide
    have form := commandAction_spec conservative t payload
    rw [Option.some.inj h] at form
    exact form.call_narrow sent
  next peripheral => exact peripheralAction_narrow peripheral (Option.some.inj h)
  next => exact compressionAction_narrow (Option.some.inj h)
  next => cases h
  next => cases h

/-- A call that is made for an operation is narrow, and what it is said to do is short, but for the
generic short writes without a payload. -/
theorem Operation.call_narrow {conservative : Bool} {index : Nat} {op : Operation} {c : Call}
    (h : op.action conservative index = .ok (.call c)) :
    c.Narrow ∧ (textWidth c.subject ≤ 26 ∨ op.IsEmptyShortWrite ∧ textWidth c.subject = 27) := by
  rcases Operation.action_ok_cases h with comment | ⟨t, own, found⟩
  · cases comment
  · obtain ⟨list, subject⟩ := Transaction.call_narrow found
    refine ⟨list, subject.imp id ?_⟩
    rintro ⟨missing, short, width⟩
    exact ⟨⟨missing, t, short, own⟩, width⟩

/-- A generic short write without any byte is a call that is said to do what its transaction is
named. -/
theorem Operation.action_emptyShortWrite {op : Operation} (h : op.IsEmptyShortWrite) (conservative : Bool)
    (index : Nat) : ∃ c, op.action conservative index = .ok (.call c) ∧ textWidth c.subject = 27 := by
  obtain ⟨missing, t, short, own⟩ := h
  have known := (Transaction.ofOpcode?_eq_some_iff op.opcode t).mpr own
  have facts : t.strategy = .genericWrite ∧ textWidth t.name = 27 := by
    simp only [shortGenericWrites, List.mem_cons, List.not_mem_nil, or_false] at short
    rcases short with rfl | rfl | rfl <;> exact ⟨rfl, textWidth_ofList _⟩
  obtain ⟨strategy, width⟩ := facts
  have made : t.action? conservative op.payload = some (emptyWrite "mipi_dsi_generic_write" t) := by
    unfold Transaction.action?
    rw [strategy, missing]
    rfl
  refine ⟨{ function := "mipi_dsi_generic_write", arguments := ["NULL", "0"], subject := t.name }, ?_, width⟩
  unfold Operation.action
  rw [known]
  simp only [made]
  rfl

/-! ## Statements -/

/-- Of an action, only the report of a call can be wider than 80 columns. -/
theorem Action.line_le {action : Action} (plain : action.Plain) (narrow : ∀ c, action = .call c → c.Narrow)
    {width : Nat} (wide : 80 ≤ width) {line : String} (h : line ∈ textLines (action.text width)) :
    textWidth line ≤ width ∨ ∃ c, action = .call c ∧ line = c.reportLine := by
  cases plain with
  | @call c own =>
    refine (Call.line_le (narrow c rfl) own.subject wide h).imp id ?_
    intro report
    exact ⟨c, rfl, report⟩
  | writeBytes family payload =>
    exact .inl (writeLine_line_le wide (fun _ mem => textWidth_le_of_mem_byteLiterals mem) h)
  | writeCommand command arguments =>
    refine .inl (writeLine_line_le wide (List.forall_mem_cons.mpr ⟨?_, ?_⟩) h)
    · exact command.textWidth_identifier_le
    · intro literal mem
      exact textWidth_le_of_mem_byteLiterals mem
  | @ignored t strategy =>
    have comment : textWidth "\t// WARNING: Ignoring weird " = 35 := textWidth_ofList _
    have name : textWidth t.name ≤ 30 := by
      cases t <;> first
        | exact absurd strategy (by decide)
        | exact textWidth_ofList_le (by decide)
    have whole : textWidth ("\t// WARNING: Ignoring weird " ++ t.name) ≤ 65 := by
      rw [textWidth_append, comment]
      exact Nat.add_le_add_left name 35
    exact .inl ((width_le_of_mem_textLines h).trans (whole.trans (by omega)))
  | unknown opcode =>
    have comment : textWidth "\t// FIXME: unknown transaction type " = 43 := textWidth_ofList _
    have whole : textWidth ("\t// FIXME: unknown transaction type " ++ byteLiteral opcode) = 47 := by
      rw [textWidth_append, textWidth_byteLiteral, comment]
    refine .inl ((width_le_of_mem_textLines h).trans ?_)
    show textWidth ("\t// FIXME: unknown transaction type " ++ byteLiteral opcode) ≤ width
    omega

theorem textWidth_toString_le {n count : Nat} (some : 0 < count) (h : n < 10 ^ count) :
    textWidth (toString n) ≤ count := by
  rw [(toString_isWord n).textWidth_eq, Nat.toString_eq_repr, ← String.length_toList, Nat.toList_repr]
  exact (Nat.length_toDigits_le_iff (by decide) some).mpr h

/-- A sleep of as many milliseconds as a byte can count. -/
theorem textWidth_delayLine_le {ms : Nat} (h : ms < 256) : textWidth (delayLine ms) ≤ 80 := by
  have closing : textWidth ");" = 2 := rfl
  rw [delayLine_eq]
  split
  next =>
    have opening : textWidth "\tmsleep(" = 15 := rfl
    have digits : textWidth (toString ms) ≤ 3 := textWidth_toString_le (by decide) (by omega)
    simp only [textWidth_append, opening, closing]
    omega
  next fine =>
    have few : ms < 20 := Nat.lt_of_not_le fine
    have opening : textWidth "\tusleep_range(" = 21 := rfl
    have comma : textWidth ", " = 2 := rfl
    have first : textWidth (toString (ms * 1000)) ≤ 5 := textWidth_toString_le (by decide) (by omega)
    have second : textWidth (toString (ms * 1000 + 1000)) ≤ 5 :=
      textWidth_toString_le (by decide) (by omega)
    simp only [textWidth_append, opening, comma, closing]
    omega

theorem effectiveDelay?_lt {ignoreWait : Nat} {wait : UInt8} {ms : Nat}
    (h : effectiveDelay? ignoreWait wait = some ms) : ms < 256 := by
  unfold effectiveDelay? at h
  split at h
  · contradiction
  · cases h
    exact wait.toNat_lt

/-- The lines of a statement are those of its action and of its sleep. -/
theorem Statement.mem_textLines_iff {s : Statement} {width : Nat} {line : String} :
    line ∈ textLines (s.text width) ↔
      line ∈ textLines (s.action.text width) ∨ ∃ ms ∈ s.delay, line ∈ textLines (delayLine ms) := by
  unfold Statement.text
  cases s.delay with
  | none => simp
  | some ms => simp [textLines_append]

/-- The words of a report are those of a name. -/
theorem Statement.subject_isWord {settings : Settings} {index : Nat} {op : Operation} {s : Statement}
    (made : op.statement settings index = .ok s) {c : Call} (call : s.action = .call c) :
    IsWord c.subject := by
  have plain := Operation.action_plain (Operation.statement_ok_iff.mp made).1
  rw [call] at plain
  cases plain with
  | call own => exact own.subject

section Lines

variable {settings : Settings} {index : Nat} {op : Operation} {statement : Statement}
  (made : op.statement settings index = .ok statement)

include made

/-- A line that passes the width is a report, for nothing else of a statement does. -/
theorem Operation.report_of_wide (wide : 80 ≤ settings.wrapWidth) {line : String}
    (mem : line ∈ textLines (statement.text settings.wrapWidth))
    (passes : settings.wrapWidth < textWidth line) :
    ∃ c, statement.action = .call c ∧ line = c.reportLine := by
  obtain ⟨action, delay⟩ := Operation.statement_ok_iff.mp made
  rcases Statement.mem_textLines_iff.mp mem with own | ⟨ms, sleeps, own⟩
  · have narrow : ∀ c, statement.action = .call c → c.Narrow := by
      intro c call
      exact (Operation.call_narrow (call ▸ action)).1
    rcases Action.line_le (Operation.action_plain action) narrow wide own with keeps | told
    · omega
    · exact told
  · have short := textWidth_delayLine_le (effectiveDelay?_lt (delay ▸ sleeps))
    have keeps := width_le_of_mem_textLines own
    omega

theorem Operation.emptyShortWrite_of_wide (wide : 80 ≤ settings.wrapWidth) {line : String}
    (mem : line ∈ textLines (statement.text settings.wrapWidth))
    (passes : settings.wrapWidth < textWidth line) : op.IsEmptyShortWrite ∧ textWidth line = 81 := by
  obtain ⟨c, call, rfl⟩ := Operation.report_of_wide made wide mem passes
  have width := Call.textWidth_reportLine (Statement.subject_isWord made call)
  have action := (Operation.statement_ok_iff.mp made).1
  rcases (Operation.call_narrow (call ▸ action)).2 with short | ⟨empty, long⟩
  · omega
  · exact ⟨empty, by omega⟩

/-- The report of an empty generic short write takes 81 columns at every width. -/
theorem Operation.exists_line_of_emptyShortWrite (empty : op.IsEmptyShortWrite) (width : Nat) :
    ∃ line ∈ textLines (statement.text width), textWidth line = 81 := by
  obtain ⟨c, own, long⟩ := Operation.action_emptyShortWrite empty settings.conservative index
  have action := (Operation.statement_ok_iff.mp made).1
  have call : statement.action = .call c := Except.ok.inj (action.symm.trans own)
  have word := Statement.subject_isWord made call
  have report : c.reportLine ∈ textLines (statement.action.text width) := by
    rw [call]
    exact Call.reportLine_mem word width
  refine ⟨c.reportLine, Statement.mem_textLines_iff.mpr (.inl report), ?_⟩
  rw [Call.textWidth_reportLine word, long]

end Lines

/-- Which lines of a statement keep a width of 80 columns or more. Some line does not exactly if the
width is 80 and the operation is a generic short write without a payload; and that line is the report
of its call, which takes 81 columns. -/
theorem Operation.statement_lines {settings : Settings} {index : Nat} {op : Operation}
    {statement : Statement} (made : op.statement settings index = .ok statement)
    (wide : 80 ≤ settings.wrapWidth) :
    ((∃ line ∈ textLines (statement.text settings.wrapWidth), settings.wrapWidth < textWidth line) ↔
      settings.wrapWidth = 80 ∧ op.IsEmptyShortWrite) ∧
    ∀ line ∈ textLines (statement.text settings.wrapWidth), settings.wrapWidth < textWidth line →
      textWidth line = 81 ∧ ∃ c, statement.action = .call c ∧ line = c.reportLine := by
  refine ⟨⟨?_, ?_⟩, ?_⟩
  · rintro ⟨line, mem, passes⟩
    obtain ⟨empty, width⟩ := Operation.emptyShortWrite_of_wide made wide mem passes
    exact ⟨by omega, empty⟩
  · rintro ⟨standard, empty⟩
    obtain ⟨line, mem, width⟩ :=
      Operation.exists_line_of_emptyShortWrite made empty settings.wrapWidth
    exact ⟨line, mem, by omega⟩
  · intro line mem passes
    have report := Operation.report_of_wide made wide mem passes
    exact ⟨(Operation.emptyShortWrite_of_wide made wide mem passes).2, report⟩

/-- The report of an empty generic short write passes the standard width by one column, and a width
of one column more holds all lines. -/
theorem emptyShortWrite_lines :
    (∃ statement, Operation.statement .standard 0 { opcode := 0x03 } = .ok statement ∧
      ∃ line ∈ textLines (statement.text 80), textWidth line = 81) ∧
    ∃ statement, Operation.statement { wrapWidth := 81 } 0 { opcode := 0x03 } = .ok statement ∧
      ∀ line ∈ textLines (statement.text 81), textWidth line ≤ 81 := by
  have made (settings : Settings) : Operation.statement settings 0 { opcode := 0x03 } =
      .ok { action := emptyWrite "mipi_dsi_generic_write" .genericShortWrite0Param, delay := none } := rfl
  have empty : Operation.IsEmptyShortWrite { opcode := 0x03 } :=
    ⟨rfl, .genericShortWrite0Param, List.mem_cons_self, rfl⟩
  constructor
  · obtain ⟨exceeded, told⟩ := Operation.statement_lines (made .standard) (Nat.le_refl 80)
    obtain ⟨line, mem, passes⟩ := exceeded.mpr ⟨rfl, empty⟩
    exact ⟨_, made .standard, line, mem, (told line mem passes).1⟩
  · obtain ⟨exceeded, -⟩ := Operation.statement_lines (made { wrapWidth := 81 }) (by decide)
    refine ⟨_, made { wrapWidth := 81 }, fun line mem => Nat.le_of_not_lt fun passes => ?_⟩
    have width : (81 : Nat) = 80 := (exceeded.mp ⟨line, mem, passes⟩).1
    omega

end DsiPanel
