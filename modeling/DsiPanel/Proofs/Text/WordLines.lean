import DsiPanel.Proofs.Text.GroupLines
import DsiPanel.Proofs.Text.Paragraphs
import DsiPanel.Text.Words

/-!
# Words on lines, without loss

Items on lines are a division of the items, with a space between neighbours on a line and a line break between
lines. What the rule counts along a line is the width of the text that stands on it (`used_wordRule`), so a
line of the rule is a line that stays within the width once it has two items (`filled_wordRule_iff`).

**The law** (`fillWords_layout`): where no item has a line break, the items come out in order behind one space
or one break each. A break stands before an item exactly if the last line so far would be too wide with a space
and the item; every line of two or more items stays within the width; and no division of the items with such
lines has fewer of them.

Where each break stands is told from the left: one more item leaves what is laid out as it is
(`fillWords_concat`), and so do all that follow it (`exists_fillWords_append`). That no division takes fewer
lines is filling that never falls behind (`FillRule.length_fill_le`).
-/

namespace DsiPanel

/-! ## Lines of words -/

/-- No line of two or more words is wider than `width`. -/
def LinesFit (width : Nat) (lines : List (List String)) : Prop :=
  ∀ line ∈ lines, 2 ≤ line.length → textWidth (String.intercalate " " line) ≤ width

/-- What stands behind the last line break of a text. -/
def lastLine (text : String) : String := (textLines text).getLastD ""

/-- The text with a space in place of each line break. -/
def onOneLine (text : String) : String := text.map fun c => if c = '\n' then ' ' else c

theorem onOneLine_append (s t : String) : onOneLine (s ++ t) = onOneLine s ++ onOneLine t := by
  apply String.toList_injective
  simp only [onOneLine, String.toList_map, String.toList_append, List.map_append]

theorem onOneLine_of_not_mem {text : String} (clear : '\n' ∉ text.toList) : onOneLine text = text := by
  apply String.toList_injective
  rw [onOneLine, String.toList_map]
  refine (List.map_congr_left fun c mem => if_neg ?_).trans (List.map_id _)
  rintro rfl
  exact clear mem

/-- Lines with a space in place of each break between them. -/
theorem onOneLine_intercalate {lines : List String} (clear : ∀ line ∈ lines, '\n' ∉ line.toList) :
    onOneLine (String.intercalate "\n" lines) = String.intercalate " " lines := by
  have lineBreak : onOneLine "\n" = " " := by
    apply String.toList_injective
    rw [onOneLine, String.toList_map]
    rfl
  induction lines with
  | nil => exact onOneLine_of_not_mem List.not_mem_nil
  | cons line lines ih =>
    obtain ⟨own, others⟩ := List.forall_mem_cons.mp clear
    cases lines with
    | nil => exact onOneLine_of_not_mem own
    | cons next lines =>
      rw [String.intercalate_cons_cons, String.intercalate_cons_cons, onOneLine_append, onOneLine_append, lineBreak,
        onOneLine_of_not_mem own, ih others]

theorem intercalate_concat {between : String} {parts : List String} (ne : parts ≠ []) (part : String) :
    String.intercalate between (parts ++ [part]) = String.intercalate between parts ++ between ++ part := by
  rw [String.intercalate_append_of_ne_nil ne (List.cons_ne_nil part []), String.intercalate_singleton]

theorem intercalate_concat_append (between : String) (parts : List String) (part more : String) :
    String.intercalate between (parts ++ [part ++ more]) =
      String.intercalate between (parts ++ [part]) ++ more := by
  by_cases none : parts = []
  · rw [none, List.nil_append, List.nil_append, String.intercalate_singleton, String.intercalate_singleton]
  · simp only [intercalate_concat none, String.append_assoc]

/-! ## What the rule counts -/

/-- What the rule counts along a line of words is the width of its text. -/
theorem used_wordRule (width : Nat) {line : List String} (ne : line ≠ []) :
    (wordRule width).used line = textWidth (String.intercalate " " line) := by
  have space : textWidth " " = 1 := rfl
  induction line using List.reverseRecOn with
  | nil => exact absurd rfl ne
  | append_singleton line word ih =>
    by_cases none : line = []
    · rw [none, List.nil_append, String.intercalate_singleton]
      rfl
    · rw [FillRule.used_concat _ none, ih none, intercalate_concat none, textWidth_append, textWidth_append,
        space]
      rfl

theorem wordRule_monotone (width : Nat) : (wordRule width).Monotone where
  breaks := by
    intro used used' word le ends
    simp only [wordRule, decide_eq_true_eq] at ends ⊢
    omega
  grown := by
    intro used used' le word
    simp only [wordRule]
    omega
  fresh := by
    intro used word
    simp only [wordRule]
    omega

theorem wordRule_stays_iff {width used : Nat} {word : String} :
    (wordRule width).breaks used word = false ↔ (wordRule width).grown used word ≤ width := by
  simp only [wordRule, decide_eq_false_iff_not]
  omega

/-- A line goes on with words exactly if it stays within the width with all of them. -/
theorem unbroken_wordRule_iff {width used : Nat} {rest : List String} :
    (wordRule width).Unbroken used rest ↔ (rest ≠ [] → rest.foldl (wordRule width).grown used ≤ width) := by
  constructor
  · intro h
    induction rest generalizing used with
    | nil => exact fun more => absurd rfl more
    | cons word rest ih =>
      obtain ⟨stays, later⟩ := h
      by_cases last : rest = []
      · rw [last]
        exact fun _ => wordRule_stays_iff.mp stays
      · exact fun _ => ih later last
  · refine (wordRule width).unbroken_of_le (fun used word => ?_) fun word _ used => wordRule_stays_iff.mpr
    simp only [wordRule]
    omega

/-- The lines of the rule are those that stay within the width once they have two words. -/
theorem filled_wordRule_iff {width : Nat} {line : List String} :
    (wordRule width).Filled line ↔ (2 ≤ line.length → textWidth (String.intercalate " " line) ≤ width) := by
  cases line with
  | nil => exact iff_of_true trivial fun many => absurd many (by decide)
  | cons word rest =>
    have many : 2 ≤ (word :: rest).length ↔ rest ≠ [] := by
      rw [List.length_cons, ← List.length_pos_iff]
      omega
    rw [← used_wordRule width (List.cons_ne_nil word rest), many]
    exact unbroken_wordRule_iff

/-! ## Word by word -/

theorem linesFit_wordLines (width : Nat) (words : List String) : LinesFit width (wordLines width words) :=
  fun _ mem => filled_wordRule_iff.mp (FillRule.filled_of_mem_fill _ mem)

theorem wordLines_division (width : Nat) (words : List String) : Division words (wordLines width words) :=
  ⟨FillRule.fill_flatten _ words, FillRule.fill_ne_nil _ words⟩

/-- One more word comes behind a break, if it would make the last line too wide, and behind a space otherwise. -/
theorem fillWords_concat (width : Nat) {words : List String} (ne : words ≠ []) (word : String) :
    ∃ before last, wordLines width words = before ++ [last] ∧
      fillWords width (words ++ [word]) = fillWords width words ++
        (if width < textWidth (String.intercalate " " last ++ " " ++ word) then "\n" else " ") ++ word := by
  obtain ⟨before, last, some, lines, longer⟩ := (wordRule width).fill_concat ne word
  refine ⟨before, last, lines, ?_⟩
  have space : textWidth " " = 1 := rfl
  have ends : (wordRule width).breaks ((wordRule width).used last) word = true ↔
      width < textWidth (String.intercalate " " last ++ " " ++ word) := by
    rw [used_wordRule width some, textWidth_append, textWidth_append, space]
    simp only [wordRule, decide_eq_true_eq]
    omega
  rw [fillWords, fillWords, wordLines, wordLines, lines, longer]
  simp only [ends]
  split
  · have apart : before ++ [last, [word]] = (before ++ [last]) ++ [[word]] := by
      rw [List.append_assoc]
      rfl
    rw [apart, List.map_append, List.map_singleton, String.intercalate_singleton, intercalate_concat]
    rw [List.map_append]
    exact List.append_ne_nil_of_right_ne_nil _ (List.cons_ne_nil _ _)
  · rw [List.map_append, List.map_append, List.map_singleton, List.map_singleton, intercalate_concat some,
      String.append_assoc, intercalate_concat_append, String.append_assoc]

/-! ## Words without line breaks -/

section Plain

variable {words : List String} (plain : ∀ word ∈ words, '\n' ∉ word.toList)

include plain

theorem not_mem_of_mem_wordLines {width : Nat} {line : List String} (mem : line ∈ wordLines width words) :
    '\n' ∉ (String.intercalate " " line).toList := by
  have division := wordLines_division width words
  refine not_mem_intercalate (by decide) fun word own => plain word ?_
  rw [← division.flatten]
  exact List.mem_flatten.mpr ⟨line, mem, own⟩

theorem textLines_fillWords (width : Nat) (ne : words ≠ []) :
    textLines (fillWords width words) = (wordLines width words).map (String.intercalate " ") := by
  have some : (wordLines width words).map (String.intercalate " ") ≠ [] :=
    mt List.map_eq_nil_iff.mp ((wordLines_division width words).groups_ne_nil ne)
  rw [fillWords, textLines_intercalate some, List.flatMap_map, List.map_eq_flatMap]
  exact List.flatMap_congr fun line mem => textLines_of_not_mem (not_mem_of_mem_wordLines plain mem)

/-- With a space in place of each break the words are joined by spaces. -/
theorem onOneLine_fillWords (width : Nat) : onOneLine (fillWords width words) = String.intercalate " " words := by
  have division := wordLines_division width words
  have clear : ∀ line ∈ (wordLines width words).map (String.intercalate " "), '\n' ∉ line.toList := by
    intro text mem
    obtain ⟨line, own, rfl⟩ := List.mem_map.mp mem
    exact not_mem_of_mem_wordLines plain own
  rw [fillWords, onOneLine_intercalate clear, intercalate_flatten division.ne_nil, division.flatten]

end Plain

/-- What is laid out stays where it is when more words follow. -/
theorem exists_fillWords_append (width : Nat) {words : List String} (ne : words ≠ []) (more : List String) :
    ∃ rest, fillWords width (words ++ more) = fillWords width words ++ rest := by
  induction more using List.reverseRecOn with
  | nil => exact ⟨"", by rw [List.append_nil, String.append_empty]⟩
  | append_singleton more word ih =>
    obtain ⟨rest, before⟩ := ih
    obtain ⟨-, last, -, longer⟩ := fillWords_concat width (List.append_ne_nil_of_left_ne_nil ne more) word
    rw [← List.append_assoc, longer, before]
    exact ⟨_, by rw [String.append_assoc, String.append_assoc]⟩

/-! ## The law -/

/-- **Words are laid out without loss.** The items stand in order on lines, a space between neighbours on a line
and a break between lines, each line of two or more within the width and no division with such lines shorter.
With a space for each break the items are joined by single spaces. What the last line is, a space and the next
item decide what stands before that item. -/
theorem fillWords_layout (width : Nat) (words : List String) (plain : ∀ word ∈ words, '\n' ∉ word.toList) :
    (∃ lines : List (List String), Division words lines ∧
      fillWords width words = String.intercalate "\n" (lines.map (String.intercalate " ")) ∧
      (words ≠ [] → textLines (fillWords width words) = lines.map (String.intercalate " ")) ∧
      LinesFit width lines ∧
      ∀ cut, Division words cut → LinesFit width cut → lines.length ≤ cut.length) ∧
    onOneLine (fillWords width words) = String.intercalate " " words ∧
    ∀ front word back, words = front ++ word :: back → front ≠ [] →
      ∃ rest, fillWords width words = fillWords width front ++
        (if width < textWidth (lastLine (fillWords width front) ++ " " ++ word) then "\n" else " ") ++
          word ++ rest := by
  refine ⟨⟨wordLines width words, wordLines_division width words, rfl, textLines_fillWords plain width,
    linesFit_wordLines width words, ?_⟩, onOneLine_fillWords plain width, ?_⟩
  · rintro cut ⟨rfl, -⟩ fit
    exact FillRule.length_fill_le (wordRule_monotone width) fun line mem => filled_wordRule_iff.mpr (fit line mem)
  · rintro front word back rfl ne
    obtain ⟨before, last, lines, longer⟩ := fillWords_concat width ne word
    have own : lastLine (fillWords width front) = String.intercalate " " last := by
      have clear : ∀ word ∈ front, '\n' ∉ word.toList := fun w mem => plain w (List.mem_append_left _ mem)
      rw [lastLine, textLines_fillWords clear width ne, lines, List.map_append, List.map_singleton,
        List.getLastD_concat]
    obtain ⟨rest, whole⟩ := exists_fillWords_append width
      (List.append_ne_nil_of_left_ne_nil ne [word]) back
    refine ⟨rest, ?_⟩
    rw [own, ← longer, ← whole, List.append_assoc]
    rfl

/-- An empty item takes a space of its own, and an item with a tab counts eight columns for it. -/
theorem fillWords_layout_tab :
    (∀ word ∈ ["aaaa", "", "b\tb", "cccc"], '\n' ∉ word.toList) ∧
      fillWords 9 ["aaaa", "", "b\tb", "cccc"] = "aaaa \nb\tb\ncccc" ∧
      ∀ cut, Division ["aaaa", "", "b\tb", "cccc"] cut → LinesFit 9 cut → 3 ≤ cut.length := by
  have plain : ∀ word ∈ ["aaaa", "", "b\tb", "cccc"], '\n' ∉ word.toList := by decide
  obtain ⟨⟨lines, -, -, told, -, fewest⟩, -⟩ := fillWords_layout 9 ["aaaa", "", "b\tb", "cccc"] plain
  have three : lines.length = 3 := by
    have count := congrArg List.length (told (List.cons_ne_nil _ _))
    rw [List.length_map] at count
    rw [← count]
    decide
  exact ⟨plain, by decide, fun cut division fit => three ▸ fewest cut division fit⟩

end DsiPanel
