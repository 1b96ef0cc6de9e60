import DsiPanel.Proofs.Text.LineWidth
import Mathlib.Data.List.Chain

/-!
# Paragraphs and blank lines

In a text whose lines are all ended, the lines are what stands before each line break (`endedLines`).
A line on which nothing shows is blank. Blank lines cut a text into parts (`textParts`), and
paragraphs that are written each after a blank line can be cut out of the text again
(`textParts_paragraphed`), as long as none of them has a blank line inside.

Such a paragraph is called solid here. A wrapped list is solid, whatever its width
(`solid_render`): a break stands only between two items, each line has at least one of them,
and the marks after the items show even where an item does not.
-/

namespace DsiPanel

/-! ## Ended lines -/

/-- The text of the lines, each of them ended. -/
def ended (lines : List String) : String := String.join (lines.map (· ++ "\n"))

/-- The lines of a text in which every line is ended; what stands after the last break is no line. -/
def endedLines (text : String) : List String := (textLines text).dropLast

@[simp] theorem ended_nil : ended [] = "" := String.join_nil

@[simp] theorem ended_cons (line : String) (lines : List String) :
    ended (line :: lines) = line ++ "\n" ++ ended lines := by
  rw [ended, List.map_cons, String.join_cons]
  rfl

theorem ended_append (lines others : List String) : ended (lines ++ others) = ended lines ++ ended others := by
  rw [ended, List.map_append, String.join_append]
  rfl

theorem textLines_ne_nil (text : String) : textLines text ≠ [] :=
  mt List.map_eq_nil_iff.mp (List.splitOn_ne_nil _ _)

/-- No line has a break in it. -/
theorem not_mem_of_mem_textLines {text line : String} (h : line ∈ textLines text) : '\n' ∉ line.toList := by
  have general (cs : List Char) : ∀ part ∈ cs.splitOn '\n', '\n' ∉ part := by
    induction cs with
    | nil => exact List.forall_mem_singleton.mpr List.not_mem_nil
    | cons c cs ih =>
      obtain ⟨first, rest, cut⟩ := List.exists_cons_of_ne_nil (List.splitOn_ne_nil '\n' cs)
      rw [cut] at ih
      obtain ⟨own, others⟩ := List.forall_mem_cons.mp ih
      rw [List.splitOn_cons_eq_if_modifyHead, cut]
      split
      next => exact List.forall_mem_cons.mpr ⟨List.not_mem_nil, ih⟩
      next other =>
        have here : '\n' ∉ c :: first := by
          rw [List.mem_cons, not_or]
          exact ⟨fun same => other (by rw [same, beq_self_eq_true]), own⟩
        exact List.forall_mem_cons.mpr ⟨here, others⟩
  obtain ⟨chars, mem, rfl⟩ := List.mem_map.mp h
  rw [String.toList_ofList]
  exact general text.toList chars mem

/-- A text is its lines with a break between neighbours. -/
theorem intercalate_textLines (text : String) : String.intercalate "\n" (textLines text) = text := by
  apply String.toList_inj.mp
  have chars : (String.toList ∘ String.ofList) = id := funext fun _ => String.toList_ofList
  have break' : "\n".toList = ['\n'] := rfl
  rw [String.toList_intercalate, textLines, List.map_map, chars, List.map_id, break',
    List.intercalate_splitOn]

/-- Lines that are ended are told by their text. -/
theorem endedLines_ended {lines : List String} (clear : ∀ line ∈ lines, '\n' ∉ line.toList) :
    endedLines (ended lines) = lines := by
  induction lines with
  | nil => rfl
  | cons line lines ih =>
    obtain ⟨own, others⟩ := List.forall_mem_cons.mp clear
    have rest : (textLines (ended lines)).dropLast = lines := ih others
    rw [endedLines, ended_cons, textLines_append, textLines_of_not_mem own,
      List.dropLast_append_of_ne_nil (textLines_ne_nil _), rest]
    rfl

/-- Lines that are ended are lines with breaks between, and one more at the end. -/
theorem ended_eq_intercalate {lines : List String} (some : lines ≠ []) :
    ended lines = String.intercalate "\n" lines ++ "\n" := by
  induction lines with
  | nil => exact absurd rfl some
  | cons line lines ih =>
    cases lines with
    | nil =>
      rw [ended_cons, ended_nil, String.append_empty, String.intercalate_singleton]
    | cons next lines =>
      rw [ended_cons, ih (List.cons_ne_nil next lines), String.intercalate_cons_cons]
      simp only [String.append_assoc]

theorem ended_textLines (text : String) : ended (textLines text) = text ++ "\n" := by
  rw [ended_eq_intercalate (textLines_ne_nil text), intercalate_textLines]

/-- The lines of texts with breaks between them are the lines of the texts. -/
theorem textLines_intercalate {texts : List String} (some : texts ≠ []) :
    textLines (String.intercalate "\n" texts) = texts.flatMap textLines := by
  induction texts with
  | nil => exact absurd rfl some
  | cons text texts ih =>
    cases texts with
    | nil => rw [String.intercalate_singleton, List.flatMap_singleton]
    | cons next texts =>
      rw [String.intercalate_cons_cons, textLines_append, ih (List.cons_ne_nil next texts)]
      rfl

/-! ## Blank lines -/

/-- Nothing shows on the line. -/
def isBlankLine (line : String) : Bool := line.toList.all isBlank

/-- The parts into which blank lines cut a text. The first of them stands before the first blank line. -/
def textParts (text : String) : List String :=
  ((endedLines text).splitOnP isBlankLine).map (String.intercalate "\n")

/-- The text has no blank line. -/
def Solid (text : String) : Prop := ∀ line ∈ textLines text, isBlankLine line = false

theorem isBlankLine_empty : isBlankLine "" = true := rfl

theorem isBlankLine_eq_false_iff {line : String} :
    isBlankLine line = false ↔ ∃ c ∈ line.toList, isBlank c = false := by
  rw [isBlankLine, List.all_eq_false]
  simp only [Bool.not_eq_true]

theorem solid_append_iff {before after : String} :
    Solid (before ++ "\n" ++ after) ↔ Solid before ∧ Solid after := by
  unfold Solid
  rw [textLines_append, List.forall_mem_append]

/-- A line on which something shows is solid. -/
theorem solid_of_line {line : String} (clear : '\n' ∉ line.toList) {c : Char} (mem : c ∈ line.toList)
    (shown : isBlank c = false) : Solid line := by
  unfold Solid
  rw [textLines_of_not_mem clear]
  exact List.forall_mem_singleton.mpr (isBlankLine_eq_false_iff.mpr ⟨c, mem, shown⟩)

theorem Solid.ne_empty {text : String} (h : Solid text) : text ≠ "" := by
  intro none
  rw [none] at h
  have shown := h "" List.mem_cons_self
  rw [isBlankLine_empty] at shown
  contradiction

theorem solid_intercalate {texts : List String} (some : texts ≠ []) (h : ∀ text ∈ texts, Solid text) :
    Solid (String.intercalate "\n" texts) := by
  intro line mem
  rw [textLines_intercalate some] at mem
  obtain ⟨text, own, mem⟩ := List.mem_flatMap.mp mem
  exact h text own line mem

/-! ## Paragraphs -/

/-- The text of paragraphs, each after a blank line and with its last line ended. -/
def paragraphed (paragraphs : List String) : String :=
  ended (paragraphs.flatMap fun paragraph => "" :: textLines paragraph)

theorem endedLines_paragraphed (paragraphs : List String) :
    endedLines (paragraphed paragraphs) = paragraphs.flatMap fun paragraph => "" :: textLines paragraph := by
  refine endedLines_ended fun line mem => ?_
  obtain ⟨paragraph, -, mem⟩ := List.mem_flatMap.mp mem
  rcases List.mem_cons.mp mem with rfl | own
  · exact List.not_mem_nil
  · exact not_mem_of_mem_textLines own

theorem ended_endedLines_paragraphed (paragraphs : List String) :
    ended (endedLines (paragraphed paragraphs)) = paragraphed paragraphs := by
  rw [endedLines_paragraphed, paragraphed]

@[simp] theorem paragraphed_nil : paragraphed [] = "" := ended_nil

theorem paragraphed_cons (paragraph : String) (paragraphs : List String) :
    paragraphed (paragraph :: paragraphs) = "\n" ++ paragraph ++ "\n" ++ paragraphed paragraphs := by
  rw [paragraphed, List.flatMap_cons, ended_append, ended_cons, ended_textLines, String.empty_append,
    ← String.append_assoc]
  rfl

theorem paragraphed_eq_empty_iff {paragraphs : List String} :
    paragraphed paragraphs = "" ↔ paragraphs = [] := by
  cases paragraphs with
  | nil => exact iff_of_true paragraphed_nil rfl
  | cons paragraph paragraphs =>
    refine iff_of_false (fun none => ?_) (List.cons_ne_nil _ _)
    rw [paragraphed_cons] at none
    have broken : "\n" ≠ "" := by decide
    simp only [String.append_eq_empty_iff, broken, false_and] at none

/-- Paragraphs begin and end with a line break. -/
theorem paragraphed_edges {paragraphs : List String} (ne : paragraphs ≠ []) :
    (paragraphed paragraphs).toList.head? = some '\n' ∧
      (paragraphed paragraphs).toList.getLast? = some '\n' := by
  obtain ⟨paragraph, rest, rfl⟩ := List.exists_cons_of_ne_nil ne
  have line : "\n".toList = ['\n'] := rfl
  constructor
  · rw [paragraphed_cons, String.append_assoc, String.append_assoc, String.toList_append, line]
    rfl
  · have lines : (paragraph :: rest).flatMap (fun paragraph => "" :: textLines paragraph) ≠ [] :=
      List.cons_ne_nil _ _
    rw [paragraphed, ended_eq_intercalate lines, String.toList_append, line, List.getLast?_concat]

/-- Of two neighbouring lines one is not blank. -/
theorem isChain_endedLines_paragraphed {paragraphs : List String} (solid : ∀ p ∈ paragraphs, Solid p) :
    (endedLines (paragraphed paragraphs)).IsChain fun a b =>
      ¬ (isBlankLine a = true ∧ isBlankLine b = true) := by
  rw [endedLines_paragraphed]
  induction paragraphs with
  | nil => exact .nil
  | cons paragraph rest ih =>
    obtain ⟨own, others⟩ := List.forall_mem_cons.mp solid
    have inner : (textLines paragraph).IsChain fun a b => ¬ (isBlankLine a = true ∧ isBlankLine b = true) := by
      apply List.Pairwise.isChain
      apply List.pairwise_of_forall_mem_list
      intro a mem b _ both
      exact Bool.false_ne_true ((own a mem).symm.trans both.1)
    rw [List.flatMap_cons]
    refine List.IsChain.append (List.IsChain.cons inner fun y first both => ?_) (ih others)
      fun x last y _ both => ?_
    · exact Bool.false_ne_true ((own y (List.mem_of_mem_head? first)).symm.trans both.2)
    · rw [List.getLast?_cons_of_ne_nil (textLines_ne_nil paragraph)] at last
      exact Bool.false_ne_true ((own x (List.mem_of_mem_getLast? last)).symm.trans both.1)

/-- Runs that a mark each stands before are cut out at the marks. -/
theorem splitOnP_flatMap_cons {α : Type} {p : α → Bool} {mark : α} (isMark : p mark = true)
    {runs : List (List α)} (clear : ∀ run ∈ runs, ∀ x ∈ run, p x = false) :
    (runs.flatMap (mark :: ·)).splitOnP p = [] :: runs := by
  -- What stands before the first mark is kept general, so that each run can be the one before the next.
  have general (before : List α) (own : ∀ x ∈ before, p x = false) :
      (before ++ runs.flatMap (mark :: ·)).splitOnP p = before :: runs := by
    induction runs generalizing before with
    | nil => rw [List.flatMap_nil, List.append_nil, List.splitOnP_eq_singleton own]
    | cons run runs ih =>
      obtain ⟨first, others⟩ := List.forall_mem_cons.mp clear
      rw [List.flatMap_cons, List.cons_append, List.splitOnP_append_cons_of_forall_mem own mark isMark,
        ih others run first]
  exact general [] (List.forall_mem_nil _)

/-- Solid paragraphs are the parts into which their text is cut. -/
theorem textParts_paragraphed {paragraphs : List String} (solid : ∀ p ∈ paragraphs, Solid p) :
    textParts (paragraphed paragraphs) = "" :: paragraphs := by
  have clear : ∀ run ∈ paragraphs.map textLines, ∀ line ∈ run, isBlankLine line = false := by
    intro run mem
    obtain ⟨paragraph, own, rfl⟩ := List.mem_map.mp mem
    exact solid paragraph own
  have runs : (paragraphs.flatMap fun paragraph => "" :: textLines paragraph) =
      (paragraphs.map textLines).flatMap ("" :: ·) := by
    rw [List.flatMap_map]
  have texts : String.intercalate "\n" ∘ textLines = id := funext intercalate_textLines
  rw [textParts, endedLines_paragraphed, runs, splitOnP_flatMap_cons isBlankLine_empty clear, List.map_cons,
    List.map_map, texts, List.map_id]
  rfl

/-! ## Wrapped lists -/

/-- What stands before the first break belongs to the first line. -/
theorem splitOn_append_of_not_mem {before : List Char} (clear : '\n' ∉ before) (after : List Char) :
    (before ++ after).splitOn '\n' = (after.splitOn '\n').modifyHead (before ++ ·) := by
  induction before with
  | nil =>
    obtain ⟨first, rest, cut⟩ := List.exists_cons_of_ne_nil (List.splitOn_ne_nil '\n' after)
    rw [List.nil_append, cut]
    rfl
  | cons c before ih =>
    obtain ⟨other, others⟩ := List.ne_and_not_mem_of_not_mem_cons clear
    have goesOn : ¬ (c == '\n') = true := fun same => other (beq_iff_eq.mp same).symm
    rw [List.cons_append, List.splitOn_cons_eq_if_modifyHead, if_neg goesOn, ih others,
      List.modifyHead_modifyHead]
    rfl

/-- Something shows on every line of the text. -/
def LinesShow (text : List Char) : Prop := ∀ line ∈ text.splitOn '\n', ∃ c ∈ line, isBlank c = false

theorem solid_iff_linesShow {text : String} : Solid text ↔ LinesShow text.toList := by
  unfold Solid LinesShow textLines
  rw [List.forall_mem_map]
  simp only [isBlankLine_eq_false_iff, String.toList_ofList]

theorem LinesShow.append {before after : List Char} (clear : '\n' ∉ before) (h : LinesShow after) :
    LinesShow (before ++ after) := by
  intro line mem
  obtain ⟨first, rest, cut⟩ := List.exists_cons_of_ne_nil (List.splitOn_ne_nil '\n' after)
  unfold LinesShow at h
  rw [cut] at h
  rw [splitOn_append_of_not_mem clear, cut, List.modifyHead_cons] at mem
  rcases List.mem_cons.mp mem with rfl | later
  · obtain ⟨c, own, shown⟩ := h first List.mem_cons_self
    exact ⟨c, List.mem_append_right before own, shown⟩
  · exact h line (List.mem_cons_of_mem first later)

/-- A gap breaks the line at its first character, or nowhere. -/
def BreaksFirst (between : List Char) : Prop := '\n' ∉ between.tail

/-- Words on each of which something shows leave no line without any, if breaks stand only in gaps and
at their first characters. -/
theorem Spaced.linesShow {gap : List Char → Prop} {words : List (List Char)} {text : List Char}
    (h : Spaced gap words text) (gaps : ∀ between, gap between → BreaksFirst between)
    (plain : ∀ word ∈ words, '\n' ∉ word ∧ ∃ c ∈ word, isBlank c = false) : LinesShow text := by
  induction h with
  | last word =>
    obtain ⟨clear, shown⟩ := plain word List.mem_cons_self
    unfold LinesShow
    rw [List.splitOn_eq_singleton clear]
    exact List.forall_mem_singleton.mpr shown
  | @next words text between word allowed _ ih =>
    obtain ⟨⟨clear, shown⟩, others⟩ := List.forall_mem_cons.mp plain
    have first := gaps between allowed
    have later := ih others
    cases between with
    | nil => exact later.append clear
    | cons c tail =>
      by_cases broken : c = '\n'
      · subst broken
        intro line mem
        rw [List.cons_append, List.splitOn_append_cons_self, List.splitOn_eq_singleton clear] at mem
        rcases List.mem_cons.mp mem with rfl | mem
        · exact shown
        · exact later.append first line mem
      · have whole : '\n' ∉ word ++ (c :: tail) := by
          rw [List.mem_append, List.mem_cons, not_or, not_or]
          exact ⟨clear, Ne.symm broken, first⟩
        rw [← List.append_assoc]
        exact later.append whole

theorem ListFrame.Gap.breaksFirst {frame : ListFrame} {between : List Char} (h : frame.Gap between) :
    BreaksFirst between := by
  rcases h with rfl | rfl
  · exact List.not_mem_nil
  · have spaces : '\n' ≠ '\t' ∧ '\n' ≠ ' ' := by decide
    show '\n' ∉ (indentTo (textWidth frame.opening)).toList
    rw [indentTo, String.toList_ofList, List.mem_append, List.mem_replicate, List.mem_replicate]
    simp only [spaces, and_false, or_self, not_false_eq_true]

/-- No width leaves a blank line in a wrapped list whose marks show. -/
theorem solid_render {frame : ListFrame} (opening : '\n' ∉ frame.opening.toList)
    (separator : ∃ c ∈ frame.separator.toList, isBlank c = false)
    (closing : ∃ c ∈ frame.closing.toList, isBlank c = false) {items : List String} (ne : items ≠ [])
    (clear : ∀ text ∈ frame.marked items, '\n' ∉ text.toList) (force : Option Nat) (width : Nat) :
    Solid (frame.render force width items) := by
  have marks : frame.separator ≠ "" := by
    intro none
    obtain ⟨c, mem, -⟩ := separator
    rw [none] at mem
    exact List.not_mem_nil mem
  have shown : ∀ text ∈ frame.marked items, ∃ c ∈ text.toList, isBlank c = false := by
    intro text mem
    obtain ⟨item, -, mark⟩ := mem_marked mem
    rcases mark with rfl | rfl
    · obtain ⟨c, own, shown⟩ := separator
      exact ⟨c, by rw [String.toList_append]; exact List.mem_append_right _ own, shown⟩
    · obtain ⟨c, own, shown⟩ := closing
      exact ⟨c, by rw [String.toList_append]; exact List.mem_append_right _ own, shown⟩
  obtain ⟨body, whole, spaced⟩ := render_spaced frame marks force width ne
  have lines : LinesShow body := by
    apply spaced.linesShow fun _ gap => gap.breaksFirst
    intro word mem
    obtain ⟨text, own, rfl⟩ := List.mem_map.mp mem
    exact ⟨clear text own, shown text own⟩
  rw [solid_iff_linesShow, whole]
  exact lines.append opening

end DsiPanel
