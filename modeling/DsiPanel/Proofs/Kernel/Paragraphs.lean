import DsiPanel.Proofs.Kernel.Widths
import DsiPanel.Proofs.Text.Paragraphs

/-!
# Paragraphs of a fragment

Blank lines show how a fragment is laid out, and they can be trusted in that. No statement has a
blank line, whatever it is made of and however narrow the text is (`Statement.solid`). So the blank
lines of a fragment are those before its paragraphs and no others, and cutting the text at them gives
the paragraphs back.

**The law** (`CommandSequence.synthesize_paragraphs`): the paragraphs are the statements of the
operations in order, cut before and after every statement that opens a block and nowhere else
(`CutAtBlocks`). Text that is not empty begins and ends with a line break, and no two blank lines
follow each other.
-/

namespace DsiPanel

/-! ## No statement has a blank line -/

/-- An argument list of names and literals has no blank line. -/
theorem solid_argumentList {head : String} (clear : '\n' ∉ head.toList) {items : List String}
    (ne : items ≠ []) (words : ∀ item ∈ items, IsWord item) (force : Option Nat) (width : Nat) :
    Solid ((argumentFrame head).render force width items) := by
  have separator : ∃ c ∈ (argumentFrame head).separator.toList, isBlank c = false :=
    ⟨',', show ',' ∈ ",".toList from List.mem_cons_self, rfl⟩
  have closing : ∃ c ∈ (argumentFrame head).closing.toList, isBlank c = false :=
    ⟨')', show ')' ∈ ");".toList from List.mem_cons_self, rfl⟩
  refine solid_render clear separator closing ne (fun text mem => ?_) force width
  obtain ⟨item, own, mark⟩ := mem_marked mem
  have word : '\n' ∉ item.toList := (words item own).not_mem rfl
  rcases mark with rfl | rfl
  · rw [String.toList_append, List.mem_append, not_or]
    exact ⟨word, show '\n' ∉ ",".toList by decide⟩
  · rw [String.toList_append, List.mem_append, not_or]
    exact ⟨word, show '\n' ∉ ");".toList by decide⟩

theorem solid_writeLine (family : WriteFamily) {literals : List String}
    (words : ∀ literal ∈ literals, IsWord literal) (width : Nat) :
    Solid (writeLine family literals width) := by
  have items : ∀ item ∈ "dsi" :: literals, IsWord item := List.forall_mem_cons.mpr ⟨by decide, words⟩
  have head : '\n' ∉ (toString "\t" ++ toString family.function ++ toString "(").toList := by
    cases family <;> decide
  exact solid_argumentList head (List.cons_ne_nil _ _) items (some 2) width

/-- On each of the four lines after a checked call something shows. -/
theorem Call.solid_check {c : Call} (h : IsWord c.subject) : Solid c.check := by
  intro line mem
  rw [Call.textLines_check h] at mem
  have fixed : ∀ line ∈ ["\tif (ret < 0) \x7b", "\t\treturn ret;", "\t\x7d"], isBlankLine line = false := by
    decide
  have report : isBlankLine c.reportLine = false := by
    apply isBlankLine_eq_false_iff.mpr
    refine ⟨'d', ?_, rfl⟩
    rw [Call.reportLine, String.toList_append, String.toList_append]
    exact List.mem_append_left _ (List.mem_append_left _ (by decide))
  rcases List.mem_cons.mp mem with rfl | mem
  · exact fixed _ List.mem_cons_self
  · rcases List.mem_cons.mp mem with rfl | mem
    · exact report
    · exact fixed line (List.mem_cons_of_mem _ mem)

theorem solid_call {c : Call} (plain : c.Plain) (width : Nat) : Solid ((Action.call c).text width) := by
  have items : ∀ item ∈ "dsi" :: c.arguments, IsWord item :=
    List.forall_mem_cons.mpr ⟨by decide, fun text mem => (plain.arguments text mem).isWord⟩
  have head : '\n' ∉ c.head.toList := by
    have fixed : '\n' ∉ "\tret = ".toList ∧ '\n' ∉ "(".toList := by decide
    intro mem
    simp only [Call.head, String.toList_append, List.mem_append, fixed, false_or, or_false] at mem
    exact absurd (mem_kernelFunctions plain.function mem).1 (by decide)
  rw [Action.text_call, solid_append_iff]
  exact ⟨solid_argumentList head (List.cons_ne_nil _ _) items (some 1) width, Call.solid_check plain.subject⟩

/-- A comment that ends with a name or a literal is one line. -/
theorem solid_comment {opening word : String} (clear : '\n' ∉ opening.toList)
    (shown : ∃ c ∈ opening.toList, isBlank c = false) (h : IsWord word) : Solid (opening ++ word) := by
  obtain ⟨c, own, shown⟩ := shown
  have line : '\n' ∉ (opening ++ word).toList := by
    rw [String.toList_append, List.mem_append, not_or]
    exact ⟨clear, h.not_mem rfl⟩
  have mem : c ∈ (opening ++ word).toList := by
    rw [String.toList_append]
    exact List.mem_append_left _ own
  exact solid_of_line line mem shown

theorem Action.solid {action : Action} (plain : action.Plain) (width : Nat) : Solid (action.text width) := by
  cases plain with
  | call own => exact solid_call own width
  | writeBytes family payload => exact solid_writeLine family byteLiterals_isWord width
  | writeCommand command arguments =>
    have words : ∀ literal ∈ command.identifier :: byteLiterals arguments, IsWord literal :=
      List.forall_mem_cons.mpr ⟨command.identifier_isWord, byteLiterals_isWord⟩
    exact solid_writeLine .dcs words width
  | @ignored t ignored =>
    have sendable : t.strategy ≠ .unsupported := by
      rw [ignored]
      decide
    have opening : '\n' ∉ "\t// WARNING: Ignoring weird ".toList := by decide
    exact solid_comment opening ⟨'/', by decide, rfl⟩ (Transaction.name_isWord sendable)
  | unknown opcode =>
    have opening : '\n' ∉ "\t// FIXME: unknown transaction type ".toList := by decide
    exact solid_comment opening ⟨'/', by decide, rfl⟩ (hexLiteral_isWord 1 opcode.toNat)

/-- A sleep is one line. -/
theorem not_mem_delayLine (ms : Nat) : '\n' ∉ (delayLine ms).toList := by
  have fixed : '\n' ∉ "\tmsleep(".toList ∧ '\n' ∉ "\tusleep_range(".toList ∧ '\n' ∉ ", ".toList ∧
      '\n' ∉ ");".toList := by
    decide
  have number (n : Nat) : '\n' ∉ (toString n).toList := (toString_isWord n).not_mem rfl
  rw [delayLine_eq]
  split
  · simp only [String.toList_append, List.mem_append, fixed, number, or_self, not_false_eq_true]
  · simp only [String.toList_append, List.mem_append, fixed, number, or_self, not_false_eq_true]

theorem solid_delayLine (ms : Nat) : Solid (delayLine ms) := by
  have tail : ';' ∈ (delayLine ms).toList := by
    have closing : ';' ∈ ");".toList := by decide
    rw [delayLine_eq]
    split
    · rw [String.toList_append]
      exact List.mem_append_right _ closing
    · rw [String.toList_append]
      exact List.mem_append_right _ closing
  exact solid_of_line (not_mem_delayLine ms) tail rfl

/-- No statement has a blank line. -/
theorem Statement.solid {s : Statement} (plain : s.action.Plain) (width : Nat) : Solid (s.text width) := by
  have action := Action.solid plain width
  unfold Statement.text
  cases s.delay with
  | none => exact action
  | some ms => exact solid_append_iff.mpr ⟨action, solid_delayLine ms⟩

/-! ## Groups of statements -/

/-- The groups are the statements in order, cut before and after each statement that opens a block and
nowhere else. -/
structure CutAtBlocks (statements : List Statement) (groups : List (List Statement)) : Prop where
  all : groups.flatten = statements
  nonempty : ∀ group ∈ groups, group ≠ []
  /-- A statement that opens a block has its group for itself. -/
  block : ∀ group ∈ groups, ∀ s ∈ group, s.opensBlock = true → group = [s]
  /-- No two runs without a block are neighbours, so that each of them is as long as it can be. -/
  maximal : groups.IsChain fun a b => (∃ s ∈ a, s.opensBlock = true) ∨ ∃ s ∈ b, s.opensBlock = true

theorem Statement.joins_eq_false_iff {a b : Statement} :
    a.joins b = false ↔ a.opensBlock = true ∨ b.opensBlock = true := by
  rw [Statement.joins, Bool.not_eq_false', Bool.or_eq_true]

/-- Where all neighbours stand together, a statement that opens a block is alone. -/
theorem eq_singleton_of_isChain_joins {group : List Statement}
    (chain : group.IsChain fun a b => a.joins b = true) {s : Statement} (mem : s ∈ group)
    (opens : s.opensBlock = true) : group = [s] := by
  induction group with
  | nil => exact absurd mem List.not_mem_nil
  | cons a rest ih =>
    cases rest with
    | nil =>
      obtain rfl := List.mem_singleton.mp mem
      rfl
    | cons b rest =>
      obtain ⟨together, tail⟩ := List.isChain_cons_cons.mp chain
      have apart : ¬ (a.opensBlock = true ∨ b.opensBlock = true) := by
        rw [← Statement.joins_eq_false_iff, together]
        exact Bool.true_eq_false.mp
      rcases List.mem_cons.mp mem with rfl | later
      · exact absurd (.inl opens) apart
      · have alone : b = s := (List.cons.inj (ih tail later)).1
        exact absurd (.inr (alone ▸ opens)) apart

theorem paragraphs_cutAtBlocks (statements : List Statement) :
    CutAtBlocks statements (paragraphs statements) where
  all := paragraphs_flatten statements
  nonempty := fun _ => List.ne_nil_of_mem_splitBy
  block := fun _ mem _ own opens => eq_singleton_of_isChain_joins (List.isChain_of_mem_splitBy mem) own opens
  maximal := by
    refine (List.isChain_getLast_head_splitBy Statement.joins statements).imp fun a b cut => ?_
    obtain ⟨some, some', apart⟩ := cut
    rcases Statement.joins_eq_false_iff.mp apart with last | first
    · exact .inl ⟨_, List.getLast_mem some, last⟩
    · exact .inr ⟨_, List.head_mem some', first⟩

/-- There is one way to cut at blocks. -/
theorem CutAtBlocks.eq_paragraphs {statements : List Statement} {groups : List (List Statement)}
    (h : CutAtBlocks statements groups) : groups = paragraphs statements := by
  have some : [] ∉ groups := fun mem => h.nonempty [] mem rfl
  have together : ∀ group ∈ groups, group.IsChain fun a b => a.joins b = true := by
    intro group mem
    by_cases opens : ∃ s ∈ group, s.opensBlock = true
    · obtain ⟨s, own, opens⟩ := opens
      rw [h.block group mem s own opens]
      exact .singleton s
    · apply List.Pairwise.isChain
      apply List.pairwise_of_forall_mem_list
      intro a ha b hb
      rw [← Bool.not_eq_false, Statement.joins_eq_false_iff]
      rintro (first | second)
      · exact opens ⟨a, ha, first⟩
      · exact opens ⟨b, hb, second⟩
  have apart : groups.IsChain fun a b => ∃ ha hb, (a.getLast ha).joins (b.head hb) = false := by
    apply h.maximal.imp_of_mem_imp
    rintro a b ha hb (⟨s, own, opens⟩ | ⟨s, own, opens⟩)
    · refine ⟨h.nonempty a ha, h.nonempty b hb, Statement.joins_eq_false_iff.mpr (.inl ?_)⟩
      simp only [h.block a ha s own opens, List.getLast_singleton, opens]
    · refine ⟨h.nonempty a ha, h.nonempty b hb, Statement.joins_eq_false_iff.mpr (.inr ?_)⟩
      simp only [h.block b hb s own opens, List.head_cons, opens]
  exact (List.splitBy_eq_iff.mpr ⟨h.all.symm, some, together, apart⟩).symm

/-! ## Text of a fragment -/

/-- The text of statements that stand in one paragraph. -/
def groupText (width : Nat) (group : List Statement) : String :=
  String.intercalate "\n" (group.map (·.text width))

theorem paragraphText_eq (width : Nat) {group : List Statement} (ne : group ≠ []) :
    paragraphText width group = "\n" ++ groupText width group ++ "\n" := by
  have texts : group.map (·.text width) ≠ [] := mt List.map_eq_nil_iff.mp ne
  have lines : (group.map fun s => s.text width ++ "\n") = (group.map (·.text width)).map (· ++ "\n") := by
    rw [List.map_map]
    rfl
  rw [paragraphText, lines, ← ended, ended_eq_intercalate texts, groupText, String.append_assoc]

/-- A fragment is written in the paragraphs of its groups. -/
theorem text_fragment (width : Nat) (statements : List Statement) :
    (Fragment.ofStatements width statements).text =
      paragraphed ((paragraphs statements).map (groupText width)) := by
  have general (groups : List (List Statement)) (nonempty : ∀ group ∈ groups, group ≠ []) :
      String.join (groups.map (paragraphText width)) = paragraphed (groups.map (groupText width)) := by
    induction groups with
    | nil => exact String.join_nil.trans paragraphed_nil.symm
    | cons group groups ih =>
      obtain ⟨own, others⟩ := List.forall_mem_cons.mp nonempty
      rw [List.map_cons, List.map_cons, String.join_cons, paragraphText_eq width own, ih others,
        paragraphed_cons]
  exact general (paragraphs statements) (paragraphs_cutAtBlocks statements).nonempty

theorem text_fragment_eq_empty_iff {width : Nat} {statements : List Statement} :
    (Fragment.ofStatements width statements).text = "" ↔ statements = [] := by
  rw [text_fragment, paragraphed_eq_empty_iff, List.map_eq_nil_iff, paragraphs, List.splitBy_eq_nil]

/-- The lines of a fragment: a blank line before each group, and the lines of its statements. -/
theorem endedLines_fragment (width : Nat) (statements : List Statement) :
    endedLines (Fragment.ofStatements width statements).text =
      (paragraphs statements).flatMap fun group => "" :: group.flatMap fun s => textLines (s.text width) := by
  rw [text_fragment, endedLines_paragraphed, List.flatMap_map]
  refine List.flatMap_congr fun group mem => ?_
  have texts : group.map (·.text width) ≠ [] :=
    mt List.map_eq_nil_iff.mp ((paragraphs_cutAtBlocks statements).nonempty group mem)
  rw [groupText, textLines_intercalate texts, List.flatMap_map]

section Solid

variable {statements : List Statement} (plain : ∀ s ∈ statements, s.action.Plain) (width : Nat)

include plain

theorem solid_groupText : ∀ text ∈ (paragraphs statements).map (groupText width), Solid text := by
  intro text mem
  obtain ⟨group, own, rfl⟩ := List.mem_map.mp mem
  have texts : group.map (·.text width) ≠ [] :=
    mt List.map_eq_nil_iff.mp ((paragraphs_cutAtBlocks statements).nonempty group own)
  apply solid_intercalate texts
  intro text mem
  obtain ⟨s, inside, rfl⟩ := List.mem_map.mp mem
  have among : s ∈ statements := by
    rw [← paragraphs_flatten statements]
    exact List.mem_flatten.mpr ⟨group, own, inside⟩
  exact Statement.solid (plain s among) width

/-- The blank lines cut a fragment into its groups. -/
theorem textParts_fragment :
    textParts (Fragment.ofStatements width statements).text =
      "" :: (paragraphs statements).map (groupText width) := by
  rw [text_fragment, textParts_paragraphed (solid_groupText plain width)]

theorem isChain_endedLines_fragment :
    (endedLines (Fragment.ofStatements width statements).text).IsChain fun a b =>
      ¬ (isBlankLine a = true ∧ isBlankLine b = true) := by
  rw [text_fragment]
  exact isChain_endedLines_paragraphed (solid_groupText plain width)

/-- A blank line of a fragment is an empty one. -/
theorem eq_empty_of_isBlankLine {line : String}
    (mem : line ∈ endedLines (Fragment.ofStatements width statements).text)
    (blank : isBlankLine line = true) : line = "" := by
  rw [text_fragment, endedLines_paragraphed] at mem
  obtain ⟨text, own, mem⟩ := List.mem_flatMap.mp mem
  rcases List.mem_cons.mp mem with empty | inside
  · exact empty
  · rw [solid_groupText plain width text own line inside] at blank
    contradiction

end Solid

/-! ## The law -/

theorem CommandSequence.plain_of_mem_statements {settings : Settings} {s : CommandSequence}
    {statements : List Statement} (made : s.statements settings = .ok statements) :
    ∀ statement ∈ statements, statement.action.Plain := by
  intro statement mem
  obtain ⟨op, index, own⟩ := CommandSequence.of_mem_statements made mem
  exact Operation.action_plain (Operation.statement_ok_iff.mp own).1

/-- How a fragment is laid out. Its text is empty exactly if the sequence is, and otherwise it begins
and ends with a line break. Blank lines are empty, no two of them follow each other, and they cut the
text into the statements of the operations in order, with a cut before and after each statement that
opens a block and nowhere else. No statement is empty or has a blank line. -/
theorem CommandSequence.synthesize_paragraphs (settings : Settings) :
    (∀ (s : CommandSequence) (f : Fragment), s.synthesize settings = .ok f →
      (f.text = "" ↔ s.operations = []) ∧
      (f.text ≠ "" → f.text.toList.head? = some '\n' ∧ f.text.toList.getLast? = some '\n') ∧
      (endedLines f.text).IsChain (fun a b => ¬ (isBlankLine a = true ∧ isBlankLine b = true)) ∧
      (∀ line ∈ endedLines f.text, isBlankLine line = true → line = "") ∧
      ∃ statements,
        List.Forall₂ (fun entry statement => entry.1.statement settings entry.2 = .ok statement)
          s.operations.zipIdx statements ∧
        (∃ groups, CutAtBlocks statements groups) ∧
        ∀ groups, CutAtBlocks statements groups →
          textParts f.text = "" :: groups.map (groupText settings.wrapWidth)) ∧
    ∀ (op : Operation) (index : Nat) (statement : Statement),
      op.statement settings index = .ok statement →
      statement.text settings.wrapWidth ≠ "" ∧ Solid (statement.text settings.wrapWidth) := by
  constructor
  · intro s f made
    obtain ⟨statements, all, rfl⟩ := CommandSequence.synthesize_ok_iff.mp made
    have plain := CommandSequence.plain_of_mem_statements all
    have each := CommandSequence.statements_ok_iff.mp all
    refine ⟨?_, fun some => ?_, isChain_endedLines_fragment plain _,
      fun _ => eq_empty_of_isBlankLine plain _, statements, each,
      ⟨paragraphs statements, paragraphs_cutAtBlocks statements⟩, fun groups cut => ?_⟩
    · have count := each.length_eq
      rw [List.length_zipIdx] at count
      rw [text_fragment_eq_empty_iff, ← List.length_eq_zero_iff, ← count, List.length_eq_zero_iff]
    · have groups : (paragraphs statements).map (groupText settings.wrapWidth) ≠ [] := by
        rw [ne_eq, ← paragraphed_eq_empty_iff, ← text_fragment]
        exact some
      rw [text_fragment]
      exact paragraphed_edges groups
    · rw [cut.eq_paragraphs, textParts_fragment plain]
  · intro op index statement made
    have solid := Statement.solid (Operation.action_plain (Operation.statement_ok_iff.mp made).1)
      settings.wrapWidth
    exact ⟨solid.ne_empty, solid⟩

/-- Two writes of bytes, a command with a helper and a wait, and one more write. -/
def writesAroundBlock : List Operation :=
  [{ opcode := 0x39, payload := [0xb0, 0x04] }, { opcode := 0x39, payload := [0xd6, 0x01] },
    { opcode := 0x05, wait := 120, payload := [0x11] }, { opcode := 0x39, payload := [0xb0, 0x03] }]

/-- Their statements, in paragraphs. -/
def groupsAroundBlock : List (List Statement) :=
  [[⟨.writeBytes .dcs [0xb0, 0x04], none⟩, ⟨.writeBytes .dcs [0xd6, 0x01], none⟩],
    [⟨.call { function := "mipi_dsi_dcs_exit_sleep_mode", arguments := [], subject := "EXIT_SLEEP_MODE" },
      some 120⟩],
    [⟨.writeBytes .dcs [0xb0, 0x03], none⟩]]

/-- The first two writes share a paragraph, and the call stands with its sleep in one of its own, also
where no width is left. -/
theorem CommandSequence.synthesize_paragraphs_block :
    (∃ f, CommandSequence.synthesize { wrapWidth := 0 } ⟨"on", .lowPower, writesAroundBlock⟩ = .ok f ∧
      f.text ≠ "" ∧ f.text.toList.getLast? = some '\n' ∧
      textParts f.text = "" :: groupsAroundBlock.map (groupText 0)) ∧
    ∃ statement, Operation.statement { wrapWidth := 0 } 2
        { opcode := 0x05, wait := 120, payload := [0x11] } = .ok statement ∧ Solid (statement.text 0) := by
  have all : CommandSequence.statements { wrapWidth := 0 } ⟨"on", .lowPower, writesAroundBlock⟩ =
      .ok groupsAroundBlock.flatten := rfl
  have made := CommandSequence.synthesize_ok_iff.mpr ⟨_, all, rfl⟩
  obtain ⟨fragments, solid⟩ := CommandSequence.synthesize_paragraphs { wrapWidth := 0 }
  obtain ⟨empty, edges, -, -, statements, each, -, parts⟩ := fragments _ _ made
  have some := mt empty.mp (List.cons_ne_nil _ _)
  have same := (CommandSequence.statements_ok_iff.mpr each).symm.trans all
  have cut : CutAtBlocks statements groupsAroundBlock :=
    ⟨(Except.ok.inj same).symm, by decide, by decide, by decide⟩
  have call : Operation.statement { wrapWidth := 0 } 2 { opcode := 0x05, wait := 120, payload := [0x11] } =
      .ok _ := rfl
  exact ⟨⟨_, made, some, (edges some).2, parts _ cut⟩, _, call, (solid _ 2 _ call).2⟩

end DsiPanel
