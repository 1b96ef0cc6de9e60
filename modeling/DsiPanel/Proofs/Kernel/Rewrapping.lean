import DsiPanel.Proofs.Kernel.Paragraphs
import DsiPanel.Proofs.Text.WhiteSpace

/-!
# What the width changes

The width decides where the lines of a fragment are broken and nothing else. The words of a text, what
stands between its white space, can be given without a width (`Statement.words`): an invocation has
its function with the first argument for a word, and each further argument with its mark. They are the
words of the text at every width (`shownWords_fragment`), so no break falls into a literal or a name.

**The law** (`CommandSequence.synthesize_rewrapped`): at two widths a sequence has the same error, or it
has the same features and texts that differ in white space alone, with blank lines before the same
statements.
-/

namespace DsiPanel

/-! ## Words of invocations -/

/-- The arguments, each with the mark after it. -/
def markedArguments : List (List Char) → List (List Char)
  | [] => []
  | [argument] => [argument ++ [')', ';']]
  | argument :: next :: rest => (argument ++ [',']) :: markedArguments (next :: rest)

/-- The invocation in words: the function and its first argument are one, each further argument is
one. -/
def Invocation.words (i : Invocation) : List (List Char) :=
  (markedArguments i.arguments).modifyHead (i.function ++ '(' :: ·)

/-- The marked items of an argument list are its marked arguments. -/
theorem marked_argumentFrame (head : String) (items : List String) :
    ((argumentFrame head).marked items).map String.toList = markedArguments (items.map String.toList) := by
  induction items with
  | nil => rfl
  | cons item rest ih =>
    cases rest with
    | nil =>
      show [(item ++ ");").toList] = [item.toList ++ [')', ';']]
      rw [String.toList_append]
      rfl
    | cons next rest =>
      show (item ++ ",").toList :: _ = (item.toList ++ [',']) :: _
      rw [String.toList_append, ih]
      rfl

theorem isSpacing_of_isWordChar {c : Char} (h : isWordChar c = true) : isSpacing c = false :=
  isSpacing_of_shown (isBlank_of_isWordChar h)

/-- An argument with a mark is a word. -/
theorem isShownWord_of_mem_markedArguments {arguments : List (List Char)}
    (plain : ∀ a ∈ arguments, ∀ c ∈ a, isWordChar c = true) :
    ∀ word ∈ markedArguments arguments, IsShownWord word := by
  have marked {argument mark : List Char} (own : ∀ c ∈ argument, isWordChar c = true) (ne : mark ≠ [])
      (clear : ∀ c ∈ mark, isSpacing c = false) : IsShownWord (argument ++ mark) := by
    refine ⟨List.append_ne_nil_of_right_ne_nil argument ne, List.forall_mem_append.mpr ⟨?_, clear⟩⟩
    exact fun c mem => isSpacing_of_isWordChar (own c mem)
  induction arguments with
  | nil => exact List.forall_mem_nil _
  | cons argument rest ih =>
    obtain ⟨own, others⟩ := List.forall_mem_cons.mp plain
    cases rest with
    | nil => exact List.forall_mem_singleton.mpr (marked own (List.cons_ne_nil _ _) (by decide))
    | cons next rest =>
      exact List.forall_mem_cons.mpr ⟨marked own (List.cons_ne_nil _ _) (by decide), ih others⟩

theorem Invocation.Plain.isShownWord {i : Invocation} (h : i.Plain) : ∀ word ∈ i.words, IsShownWord word := by
  have arguments := isShownWord_of_mem_markedArguments h.arguments
  unfold Invocation.words
  cases cut : markedArguments i.arguments with
  | nil => exact List.forall_mem_nil _
  | cons first rest =>
    rw [cut] at arguments
    obtain ⟨own, others⟩ := List.forall_mem_cons.mp arguments
    have function : ∀ c ∈ i.function ++ ['('], isSpacing c = false :=
      List.forall_mem_append.mpr ⟨fun c mem => isSpacing_of_isWordChar (h.function c mem), by decide⟩
    refine List.forall_mem_cons.mpr ⟨⟨?_, ?_⟩, others⟩
    · exact List.append_ne_nil_of_right_ne_nil _ (List.cons_ne_nil _ _)
    · have whole := List.forall_mem_append.mpr ⟨function, own.2⟩
      rw [List.append_assoc] at whole
      exact whole

/-- White space before a text adds no word. -/
theorem shownWords_cons {c : Char} (spacing : isSpacing c = true) (cs : List Char) :
    shownWords (c :: cs) = shownWords cs := shownWords_append_cons spacing [] cs

/-- After what stands before its function, an argument list has the words of its invocation, at every
width. -/
theorem shownWords_argumentList {head : String} {i : Invocation} {lead : List Char}
    (opening : head.toList = lead ++ (i.function ++ ['('])) {before : List (List Char)}
    (leads : ∀ cs, shownWords (lead ++ cs) = before ++ shownWords cs) {items : List String}
    (arguments : i.arguments = items.map String.toList) (plain : i.Plain) (force : Option Nat) (width : Nat) :
    shownWords ((argumentFrame head).render force width items).toList = before ++ i.words := by
  have ne : items ≠ [] := by
    intro none
    rw [none] at arguments
    exact plain.nonempty arguments
  obtain ⟨body, whole, spaced⟩ :=
    render_spaced (argumentFrame head) (argumentFrame_separator head) force width ne
  have list : Spaced SpacingRun (markedArguments i.arguments) body := by
    rw [arguments, ← marked_argumentFrame head]
    exact spaced.mono fun _ gap => gap.spacingRun
  have words : Spaced SpacingRun i.words (i.function ++ ['('] ++ body) := by
    unfold Invocation.words
    cases cut : markedArguments i.arguments with
    | nil =>
      rw [cut] at list
      nomatch list
    | cons first rest =>
      rw [cut] at list
      have glued := list.glue (i.function ++ ['('])
      rw [List.append_assoc, List.singleton_append] at glued
      exact glued
  have frame : (argumentFrame head).opening.toList = lead ++ (i.function ++ ['(']) := opening
  rw [whole, frame, List.append_assoc, leads, words.shownWords_eq plain.isShownWord]

/-! ## Words of statements -/

/-- The words of an action. They do not depend on a width. -/
def Action.words : Action → List (List Char)
  | call c => ["ret".toList, "=".toList] ++ c.invocation.words ++ shownWords c.check.toList
  | writeBytes family payload => (writeInvocation family (byteLiterals payload)).words
  | writeCommand command arguments =>
    (writeInvocation .dcs (command.identifier :: byteLiterals arguments)).words
  | ignored transaction =>
    ["//", "WARNING:", "Ignoring", "weird"].map String.toList ++ [transaction.name.toList]
  | unknown opcode =>
    ["//", "FIXME:", "unknown", "transaction", "type"].map String.toList ++ [(byteLiteral opcode).toList]

/-- The words of a statement. They do not depend on a width. -/
def Statement.words (s : Statement) : List (List Char) :=
  s.action.words ++ s.delay.toList.flatMap fun ms => (sleepInvocation ms).words

theorem IsWord.isShownWord {text : String} (h : IsWord text) (ne : text ≠ "") : IsShownWord text.toList :=
  ⟨mt String.toList_eq_nil_iff.mp ne, fun c mem => isSpacing_of_isWordChar (h c mem)⟩

theorem shownWords_writeLine (family : WriteFamily) {literals : List String}
    (words : ∀ literal ∈ literals, IsWord literal) (width : Nat) :
    shownWords (writeLine family literals width).toList = (writeInvocation family literals).words := by
  have head : (toString "\t" ++ toString family.function ++ toString "(").toList =
      ['\t'] ++ ((writeInvocation family literals).function ++ ['(']) := by
    show ("\t" ++ family.function ++ "(").toList = _
    rw [String.toList_append, String.toList_append, List.append_assoc]
    rfl
  have leads (cs : List Char) : shownWords (['\t'] ++ cs) = [] ++ shownWords cs := shownWords_cons rfl cs
  exact shownWords_argumentList head leads rfl (writeInvocation_plain family words) _ _

theorem shownWords_call {c : Call} (plain : c.Plain) (width : Nat) :
    shownWords ((Action.call c).text width).toList = (Action.call c).words := by
  have head : c.head.toList = "\tret = ".toList ++ (c.invocation.function ++ ['(']) := by
    rw [Call.head, String.toList_append, String.toList_append, List.append_assoc]
    rfl
  have leads (cs : List Char) :
      shownWords ("\tret = ".toList ++ cs) = ["ret".toList, "=".toList] ++ shownWords cs := by
    have cut : "\tret = ".toList ++ cs = "\tret =".toList ++ ' ' :: cs := rfl
    rw [cut, shownWords_append_cons rfl]
    rfl
  have line := shownWords_argumentList head leads rfl (Call.invocation_plain plain) (some 1) width
  have text : ((Action.call c).text width).toList = (c.line width).toList ++ '\n' :: c.check.toList := by
    rw [Action.text_call, String.toList_append, String.toList_append, List.append_assoc]
    rfl
  rw [text, shownWords_append_cons rfl, Call.line_eq]
  exact congrArg (· ++ shownWords c.check.toList) line

/-- A comment that ends with a name or a literal has it for its last word. -/
theorem shownWords_comment (opening : String) {word : String} (h : IsShownWord word.toList) :
    shownWords (opening ++ " " ++ word).toList = shownWords opening.toList ++ [word.toList] := by
  have space : " ".toList = [' '] := rfl
  rw [String.toList_append, String.toList_append, space, List.append_assoc, List.singleton_append,
    shownWords_append_cons rfl, h.shownWords_eq]

theorem Transaction.name_ne_empty (t : Transaction) : t.name ≠ "" := by
  cases t <;> decide

theorem byteLiteral_ne_empty (b : UInt8) : byteLiteral b ≠ "" := by
  intro none
  have width := textWidth_byteLiteral b
  rw [none] at width
  contradiction

theorem shownWords_action {action : Action} (plain : action.Plain) (width : Nat) :
    shownWords (action.text width).toList = action.words := by
  cases plain with
  | call own => exact shownWords_call own width
  | writeBytes family payload => exact shownWords_writeLine family byteLiterals_isWord width
  | writeCommand command arguments =>
    have words : ∀ literal ∈ command.identifier :: byteLiterals arguments, IsWord literal :=
      List.forall_mem_cons.mpr ⟨command.identifier_isWord, byteLiterals_isWord⟩
    exact shownWords_writeLine .dcs words width
  | @ignored t ignored =>
    have sendable : t.strategy ≠ .unsupported := by
      rw [ignored]
      decide
    have name := (Transaction.name_isWord sendable).isShownWord t.name_ne_empty
    have opening : shownWords "\t// WARNING: Ignoring weird".toList =
        ["//", "WARNING:", "Ignoring", "weird"].map String.toList :=
      (congrArg shownWords String.toList_ofList).trans (by decide)
    have space : "\t// WARNING: Ignoring weird " = "\t// WARNING: Ignoring weird" ++ " " := by decide
    show shownWords ("\t// WARNING: Ignoring weird " ++ t.name).toList = _
    rw [space, shownWords_comment _ name, opening]
    rfl
  | unknown opcode =>
    have literal : IsShownWord (byteLiteral opcode).toList :=
      (hexLiteral_isWord 1 opcode.toNat).isShownWord (byteLiteral_ne_empty opcode)
    have opening : shownWords "\t// FIXME: unknown transaction type".toList =
        ["//", "FIXME:", "unknown", "transaction", "type"].map String.toList :=
      (congrArg shownWords String.toList_ofList).trans (by decide)
    have space : "\t// FIXME: unknown transaction type " =
        "\t// FIXME: unknown transaction type" ++ " " := by decide
    show shownWords ("\t// FIXME: unknown transaction type " ++ byteLiteral opcode).toList = _
    rw [space, shownWords_comment _ literal, opening]
    rfl

/-- A sleep is spaced out of the words of its invocation. -/
theorem delayLine_spaced (ms : Nat) :
    ∃ text, (delayLine ms).toList = '\t' :: text ∧ Spaced SpacingRun (sleepInvocation ms).words text := by
  have closing : ");".toList = [')', ';'] := rfl
  by_cases coarse : coarseSleepThreshold ≤ ms
  · have opening : "\tmsleep(".toList = '\t' :: ("msleep".toList ++ ['(']) := rfl
    have text : (delayLine ms).toList =
        '\t' :: ("msleep".toList ++ '(' :: ((toString ms).toList ++ [')', ';'])) := by
      rw [delayLine_eq, if_pos coarse, String.toList_append, String.toList_append, opening, closing]
      simp only [List.append_assoc, List.cons_append, List.nil_append]
    refine ⟨_, text, ?_⟩
    unfold sleepInvocation
    rw [if_pos coarse, if_pos coarse]
    exact .last _
  · have opening : "\tusleep_range(".toList = '\t' :: ("usleep_range".toList ++ ['(']) := rfl
    have comma : ", ".toList = [',', ' '] := rfl
    have text : (delayLine ms).toList =
        '\t' :: (("usleep_range".toList ++ '(' :: ((toString (ms * 1000)).toList ++ [','])) ++
          ([' '] ++ ((toString (ms * 1000 + 1000)).toList ++ [')', ';']))) := by
      rw [delayLine_eq, if_neg coarse]
      simp only [String.toList_append, opening, comma, closing, List.append_assoc, List.cons_append,
        List.nil_append]
    have space : SpacingRun [' '] := ⟨List.cons_ne_nil _ _, List.forall_mem_singleton.mpr rfl⟩
    refine ⟨_, text, ?_⟩
    unfold sleepInvocation
    rw [if_neg coarse, if_neg coarse]
    exact .next _ space (.last _)

theorem shownWords_delayLine (ms : Nat) : shownWords (delayLine ms).toList = (sleepInvocation ms).words := by
  obtain ⟨text, line, spaced⟩ := delayLine_spaced ms
  rw [line, shownWords_cons rfl, spaced.shownWords_eq (sleepInvocation_plain ms).isShownWord]

theorem shownWords_statement {s : Statement} (plain : s.action.Plain) (width : Nat) :
    shownWords (s.text width).toList = s.words := by
  have action := shownWords_action plain width
  unfold Statement.text Statement.words
  cases s.delay with
  | none =>
    rw [action]
    exact (List.append_nil _).symm
  | some ms =>
    have lines : (s.action.text width ++ "\n" ++ delayLine ms).toList =
        (s.action.text width).toList ++ '\n' :: (delayLine ms).toList := by
      rw [String.toList_append, String.toList_append, List.append_assoc]
      rfl
    simp only [lines, shownWords_append_cons (show isSpacing '\n' = true from rfl), action, shownWords_delayLine,
      Option.toList_some, List.flatMap_singleton]

/-- The words of a fragment are those of its statements, at every width. -/
theorem shownWords_fragment {statements : List Statement} (plain : ∀ s ∈ statements, s.action.Plain)
    (width : Nat) :
    shownWords (Fragment.ofStatements width statements).text.toList = statements.flatMap Statement.words := by
  rw [read_fragment rfl (shownWords_append_cons rfl) width statements]
  exact List.flatMap_congr fun s mem => shownWords_statement (plain s mem) width

/-! ## White space -/

theorem Action.respaced (action : Action) (v w : Nat) :
    Respaced (action.text v).toList (action.text w).toList := by
  cases action with
  | call c =>
    have line := render_respaced (argumentFrame c.head) (argumentFrame_separator c.head) (some 1) v w
      ("dsi" :: c.arguments)
    rw [Action.text_call, Action.text_call, String.toList_append, String.toList_append, String.toList_append,
      String.toList_append]
    exact (line.append (.refl _)).append (.refl _)
  | writeBytes family payload => exact render_respaced _ (argumentFrame_separator _) (some 2) v w _
  | writeCommand command arguments => exact render_respaced _ (argumentFrame_separator _) (some 2) v w _
  | ignored transaction => exact .refl _
  | unknown opcode => exact .refl _

theorem Statement.respaced (s : Statement) (v w : Nat) : Respaced (s.text v).toList (s.text w).toList := by
  have action := s.action.respaced v w
  unfold Statement.text
  cases s.delay with
  | none => exact action
  | some ms =>
    simp only [String.toList_append]
    exact (action.append (.refl _)).append (.refl _)

/-- Fragments of the same statements for two widths differ in white space alone. -/
theorem respaced_fragment (v w : Nat) (statements : List Statement) :
    Respaced (Fragment.ofStatements v statements).text.toList (Fragment.ofStatements w statements).text.toList := by
  rw [toList_fragment, toList_fragment]
  refine Respaced.flatMap fun paragraph _ => ?_
  have lines : Respaced (paragraph.flatMap fun s => (s.text v).toList ++ ['\n'])
      (paragraph.flatMap fun s => (s.text w).toList ++ ['\n']) :=
    Respaced.flatMap fun s _ => (s.respaced v w).append (.refl _)
  exact (Respaced.refl ['\n']).append lines

/-! ## The law -/

/-- The text is laid out for the width: blank lines cut it into the groups of statements, and its words
are those of the statements. -/
structure LaidOut (width : Nat) (groups : List (List Statement)) (text : String) : Prop where
  parts : textParts text = "" :: groups.map (groupText width)
  words : shownWords text.toList = groups.flatten.flatMap Statement.words

theorem laidOut_fragment {statements : List Statement} (plain : ∀ s ∈ statements, s.action.Plain) (width : Nat) :
    LaidOut width (paragraphs statements) (Fragment.ofStatements width statements).text where
  parts := textParts_fragment plain width
  words := by rw [shownWords_fragment plain width, paragraphs_flatten]

/-- The width is asked for by the text alone. -/
theorem CommandSequence.statements_width (settings : Settings) (width : Nat) (s : CommandSequence) :
    s.statements { settings with wrapWidth := width } = s.statements settings := rfl

/-- What the width of a line changes. A sequence fails at two widths with the same error, or it has at
both the same features and texts that are equal once each run of white space is one space. Blank lines
then stand before the same statements, and the words of both texts are those of the statements: no
break falls into a name or a literal, however narrow the text is. -/
theorem CommandSequence.synthesize_rewrapped (settings : Settings) (width : Nat) (s : CommandSequence) :
    (∃ error, s.synthesize settings = .error error ∧
      s.synthesize { settings with wrapWidth := width } = .error error) ∨
    ∃ f g, s.synthesize settings = .ok f ∧ s.synthesize { settings with wrapWidth := width } = .ok g ∧
      f.features = g.features ∧ collapsed f.text = collapsed g.text ∧
      ∃ statements groups,
        List.Forall₂ (fun entry statement => entry.1.statement settings entry.2 = .ok statement)
          s.operations.zipIdx statements ∧
        CutAtBlocks statements groups ∧
        LaidOut settings.wrapWidth groups f.text ∧ LaidOut width groups g.text := by
  cases all : s.statements settings with
  | error error =>
    refine .inl ⟨error, ?_, ?_⟩
    · rw [CommandSequence.synthesize, all]
      rfl
    · rw [CommandSequence.synthesize, CommandSequence.statements_width, all]
      rfl
  | ok statements =>
    have plain := CommandSequence.plain_of_mem_statements all
    have made := CommandSequence.synthesize_ok_iff.mpr ⟨statements, all, rfl⟩
    have again : s.statements { settings with wrapWidth := width } = .ok statements := all
    have remade := CommandSequence.synthesize_ok_iff.mpr ⟨statements, again, rfl⟩
    refine .inr ⟨_, _, made, remade, rfl, (respaced_fragment _ _ statements).collapsed_eq, statements,
      paragraphs statements, CommandSequence.statements_ok_iff.mp all, paragraphs_cutAtBlocks statements,
      laidOut_fragment plain settings.wrapWidth, laidOut_fragment plain width⟩

/-- Where no width is left, the writes around a block are broken at every place that allows it, and
nothing but white space changes. -/
theorem CommandSequence.synthesize_rewrapped_narrow :
    ∃ f g, CommandSequence.synthesize .standard ⟨"on", .lowPower, writesAroundBlock⟩ = .ok f ∧
      CommandSequence.synthesize { wrapWidth := 0 } ⟨"on", .lowPower, writesAroundBlock⟩ = .ok g ∧
      f.text ≠ g.text ∧ f.features = g.features ∧ collapsed f.text = collapsed g.text := by
  have differ : CommandSequence.synthesize .standard ⟨"on", .lowPower, writesAroundBlock⟩ ≠
      CommandSequence.synthesize { wrapWidth := 0 } ⟨"on", .lowPower, writesAroundBlock⟩ := by
    decide +kernel
  have all : CommandSequence.statements .standard ⟨"on", .lowPower, writesAroundBlock⟩ =
      .ok groupsAroundBlock.flatten := rfl
  have made := CommandSequence.synthesize_ok_iff.mpr ⟨_, all, rfl⟩
  rcases CommandSequence.synthesize_rewrapped .standard 0 ⟨"on", .lowPower, writesAroundBlock⟩ with
    ⟨error, failed, -⟩ | ⟨f, g, first, second, features, same, -⟩
  · exact absurd (made.symm.trans failed) (nomatch ·)
  · refine ⟨f, g, first, second, fun text => differ ?_, features, same⟩
    obtain ⟨textF, featuresF⟩ := f
    obtain ⟨textG, featuresG⟩ := g
    cases features
    cases text
    exact first.trans second.symm

end DsiPanel
