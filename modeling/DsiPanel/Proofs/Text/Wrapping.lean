import DsiPanel.Proofs.Text.Spaced
import DsiPanel.Text.Wrapped
import Mathlib.Data.List.Infix

/-!
# Wrapping moves only white space

Whether a list is written on one line or wrapped, for every width and with any item forced to a new
line, its text is the opening followed by the items with their marks, each item after the first set
off by one space or by a line break with the indent (`render_spaced`). So no break ever falls
inside an item or between an item and its mark.

The wrapped case leans on two facts about the filling of lines: no line is empty and the lines hold
the pieces in order. A line is put together with single spaces as long as its first text is not
empty (`lineText_spaced`), which only the last piece of a list could be.
-/

namespace DsiPanel

namespace ListFrame

/-- The items, each with the mark that follows it. -/
def marked (frame : ListFrame) : List String → List String
  | [] => []
  | [item] => [item ++ frame.closing]
  | item :: next :: rest => (item ++ frame.separator) :: frame.marked (next :: rest)

/-- What may stand between two items: a space, or a line break and the indent under the opening. -/
def Gap (frame : ListFrame) (between : List Char) : Prop :=
  between = [' '] ∨ between = '\n' :: (indentTo (textWidth frame.opening)).toList

theorem Gap.blankRun {frame : ListFrame} {between : List Char} (h : frame.Gap between) :
    BlankRun between := by
  rcases h with rfl | rfl
  · exact ⟨List.cons_ne_nil _ _, List.forall_mem_singleton.mpr (by decide)⟩
  · refine ⟨List.cons_ne_nil _ _, fun c hc => ?_⟩
    rw [indentTo, String.toList_ofList, List.mem_cons, List.mem_append, List.mem_replicate,
      List.mem_replicate] at hc
    rcases hc with rfl | ⟨_, rfl⟩ | ⟨_, rfl⟩ <;> decide

theorem marked_ne_nil {frame : ListFrame} {items : List String} (h : items ≠ []) :
    frame.marked items ≠ [] := by
  match items, h with
  | [item], _ => exact List.cons_ne_nil _ _
  | item :: next :: rest, _ => exact List.cons_ne_nil _ _

/-- The pieces of a list are its marked items. -/
theorem text_pieces (frame : ListFrame) (force : Option Nat) (items : List String) :
    (frame.pieces force items).map Piece.text = frame.marked items := by
  have general (start count : Nat) (h : count = start + items.length) :
      (items.zipIdx start).map (fun entry =>
        entry.1 ++ if entry.2 + 1 = count then frame.closing else frame.separator) =
          frame.marked items := by
    induction items generalizing start with
    | nil => rfl
    | cons item rest ih =>
      cases rest with
      | nil =>
        have last : start + 1 = count := h.symm
        simp only [List.zipIdx_cons, List.zipIdx_nil, List.map_cons, List.map_nil, if_pos last,
          marked]
      | cons next rest =>
        have more : start + 1 ≠ count := by
          simp only [List.length_cons] at h
          omega
        have tail := ih (start + 1) (by simp only [List.length_cons] at h ⊢; omega)
        rw [List.zipIdx_cons, List.map_cons, tail, if_neg more, marked]
  rw [pieces, List.map_map]
  exact general 0 items.length (Nat.zero_add _).symm

/-- Only the last item can be left without a mark. -/
theorem ne_empty_of_mem_dropLast_marked {frame : ListFrame} (h : frame.separator ≠ "")
    {items : List String} {text : String} (ht : text ∈ (frame.marked items).dropLast) : text ≠ "" := by
  induction items with
  | nil => exact absurd ht List.not_mem_nil
  | cons item rest ih =>
    cases rest with
    | nil => exact absurd ht List.not_mem_nil
    | cons next rest =>
      rw [marked, List.dropLast_cons_of_ne_nil (marked_ne_nil (List.cons_ne_nil next rest)),
        List.mem_cons] at ht
      rcases ht with rfl | ht
      · intro empty
        exact h (String.append_eq_empty_iff.mp empty).2
      · exact ih ht

end ListFrame

/-! ## One line -/

/-- The items of a list on one line are set off by single spaces. -/
theorem single_spaced (frame : ListFrame) {items : List String} (h : items ≠ []) :
    ∃ body, (frame.single items).toList = frame.opening.toList ++ body ∧
      Spaced (· = [' ']) ((frame.marked items).map String.toList) body := by
  refine ⟨((frame.separator ++ " ").intercalate items ++ frame.closing).toList, ?_, ?_⟩
  · simp only [ListFrame.single, String.toList_append, List.append_assoc]
  · induction items with
    | nil => exact absurd rfl h
    | cons item rest ih =>
      cases rest with
      | nil => exact Spaced.last _
      | cons next rest =>
        have tail := ih (List.cons_ne_nil next rest)
        have space : " ".toList = [' '] := rfl
        have step : Spaced (· = [' ']) _ _ := .next (item ++ frame.separator).toList space tail
        rw [String.intercalate_cons_cons]
        simpa only [ListFrame.marked, List.map_cons, String.toList_append, List.append_assoc] using step

/-- A line goes on with a space before each further text, once it is not empty. -/
theorem foldl_line_spaced {line : String} (h : line ≠ "") (rest : List String) :
    Spaced (· = [' ']) (line.toList :: rest.map String.toList)
      (rest.foldl (fun line text => if line.isEmpty then text else line ++ " " ++ text) line).toList := by
  induction rest generalizing line with
  | nil => exact .last _
  | cons next rest ih =>
    have more : line.isEmpty = false := by
      rw [Bool.eq_false_iff, ne_eq, String.isEmpty_iff]
      exact h
    have grown : line ++ " " ++ next ≠ "" := by
      intro empty
      exact h (String.append_eq_empty_iff.mp (String.append_eq_empty_iff.mp empty).1).1
    have whole := ih grown
    simp only [String.toList_append, List.append_assoc] at whole
    rw [List.foldl_cons, more]
    exact whole.split rfl

/-- The texts of a line are set off by single spaces, unless an empty one is followed by others. -/
theorem lineText_spaced {text : String} {rest : List String} (h : rest ≠ [] → text ≠ "") :
    Spaced (· = [' ']) ((text :: rest).map String.toList) (lineText (text :: rest)).toList := by
  cases rest with
  | nil => exact .last _
  | cons next rest => exact foldl_line_spaced (h (List.cons_ne_nil next rest)) (next :: rest)

/-! ## All lines -/

/-- Lines with breaks between them are spaced out of the words of all lines. -/
theorem intercalate_spaced {gap : List Char → Prop} {break' : List Char} (allowed : gap break')
    {α : Type} {words : α → List (List Char)} {text : α → List Char} {lines : List α}
    (some : lines ≠ []) (h : ∀ line ∈ lines, Spaced gap (words line) (text line)) :
    Spaced gap (lines.flatMap words) (break'.intercalate (lines.map text)) := by
  induction lines with
  | nil => exact absurd rfl some
  | cons line lines ih =>
    have head := h line List.mem_cons_self
    cases lines with
    | nil => simpa only [List.flatMap_cons, List.flatMap_nil, List.append_nil, List.map_cons,
        List.map_nil, List.intercalate_singleton] using head
    | cons next lines =>
      have tail := ih (List.cons_ne_nil next lines) fun l hl => h l (List.mem_cons_of_mem line hl)
      rw [List.flatMap_cons, List.map_cons, List.map_cons, List.intercalate_cons_cons,
        List.append_assoc]
      exact head.append allowed tail

/-- What is not last on its line is not last of all. -/
theorem mem_dropLast_flatten {α : Type} {lines : List (List α)} {line : List α} (h : line ∈ lines)
    {piece : α} (hp : piece ∈ line.dropLast) : piece ∈ lines.flatten.dropLast := by
  obtain ⟨before, after, rfl⟩ := List.append_of_mem h
  have some : line ++ after.flatten ≠ [] := by
    intro none
    rw [(List.append_eq_nil_iff.mp none).1] at hp
    exact List.not_mem_nil hp
  rw [List.flatten_append, List.flatten_cons, List.dropLast_append_of_ne_nil some]
  refine List.mem_append_right _ ?_
  by_cases last : after.flatten = []
  · rw [last, List.append_nil]
    exact hp
  · rw [List.dropLast_append_of_ne_nil last]
    exact List.mem_append_left _ (List.dropLast_subset line hp)

/-- The lines of a wrapped list hold its pieces in order. -/
theorem layout_flatten (frame : ListFrame) (force : Option Nat) (width : Nat) (items : List String) :
    (frame.layout force width items).flatten = frame.pieces force items := FillRule.fill_flatten _ _

theorem layout_ne_nil (frame : ListFrame) (force : Option Nat) (width : Nat) {items : List String}
    (hi : items ≠ []) : frame.layout force width items ≠ [] := by
  intro none
  have texts := frame.text_pieces force items
  rw [← layout_flatten frame force width items, none, List.flatten_nil, List.map_nil] at texts
  exact ListFrame.marked_ne_nil hi texts.symm

/-- A text that is followed by others on its line is not empty, for only the last piece of a list can have
no text. -/
theorem text_ne_empty_of_cut {frame : ListFrame} (h : frame.separator ≠ "") {force : Option Nat}
    {items : List String} {cut : List (List Piece)} (whole : cut.flatten = frame.pieces force items)
    {piece : Piece} {rest : List Piece} (hline : piece :: rest ∈ cut) (more : rest ≠ []) :
    piece.text ≠ "" := by
  have inner : piece ∈ (piece :: rest).dropLast := by
    rw [List.dropLast_cons_of_ne_nil more]
    exact List.mem_cons_self
  have inMarked := List.mem_map_of_mem (f := Piece.text) (mem_dropLast_flatten hline inner)
  rw [whole, List.map_dropLast, frame.text_pieces] at inMarked
  exact ListFrame.ne_empty_of_mem_dropLast_marked h inMarked

theorem layout_text_ne_empty {frame : ListFrame} (h : frame.separator ≠ "") {force : Option Nat}
    {width : Nat} {items : List String} {piece : Piece} {rest : List Piece}
    (hline : piece :: rest ∈ frame.layout force width items) (more : rest ≠ []) : piece.text ≠ "" :=
  text_ne_empty_of_cut h (layout_flatten frame force width items) hline more

/-- A wrapped list has its items set off by spaces and breaks. -/
theorem wrapped_spaced (frame : ListFrame) (h : frame.separator ≠ "") (force : Option Nat) (width : Nat)
    {items : List String} (hi : items ≠ []) :
    ∃ body, (frame.wrapped force width items).toList = frame.opening.toList ++ body ∧
      Spaced frame.Gap ((frame.marked items).map String.toList) body := by
  have content := layout_flatten frame force width items
  have texts : (frame.layout force width items).flatMap
      (fun line => (line.map Piece.text).map String.toList) = (frame.marked items).map String.toList := by
    rw [← frame.text_pieces force items, ← content]
    simp only [List.flatMap, List.map_flatten, List.map_map, Function.comp_def]
  refine ⟨_, String.toList_append, ?_⟩
  rw [← texts, String.toList_intercalate, String.toList_append, List.map_map]
  refine intercalate_spaced (.inr rfl) (layout_ne_nil frame force width hi) fun line hline => ?_
  match line, FillRule.fill_ne_nil _ _ line hline with
  | piece :: rest, _ =>
    have first : rest.map Piece.text ≠ [] → piece.text ≠ "" :=
      fun more => layout_text_ne_empty h hline (mt (congrArg (List.map Piece.text)) more)
    exact (lineText_spaced first).mono fun _ space => .inl space

/-- A list is its opening and its marked items, set off by spaces and breaks, whether it was wrapped
or not. -/
theorem render_spaced (frame : ListFrame) (h : frame.separator ≠ "") (force : Option Nat) (width : Nat)
    {items : List String} (hi : items ≠ []) :
    ∃ body, (frame.render force width items).toList = frame.opening.toList ++ body ∧
      Spaced frame.Gap ((frame.marked items).map String.toList) body := by
  simp only [ListFrame.render]
  split
  · obtain ⟨body, heq, spaced⟩ := single_spaced frame hi
    exact ⟨body, heq, spaced.mono fun _ space => .inl space⟩
  · exact wrapped_spaced frame h force width hi

/-- Without blanks a list is its items with the separator between them. -/
theorem unspaced_marked (frame : ListFrame) {items : List String} (h : items ≠ []) :
    ((frame.marked items).map String.toList).flatMap unspaced =
      (unspaced frame.separator.toList).intercalate (items.map fun item => unspaced item.toList) ++
        unspaced frame.closing.toList := by
  induction items with
  | nil => exact absurd rfl h
  | cons item rest ih =>
    cases rest with
    | nil =>
      simp only [ListFrame.marked, List.map_cons, List.map_nil, List.flatMap_cons, List.flatMap_nil,
        List.append_nil, List.intercalate_singleton, String.toList_append, unspaced_append]
    | cons next rest =>
      have tail := ih (List.cons_ne_nil next rest)
      rw [ListFrame.marked, List.map_cons, List.flatMap_cons, tail]
      simp only [List.map_cons, List.intercalate_cons_cons, String.toList_append, unspaced_append,
        List.append_assoc]

/-- Without blanks a list is the same whatever the width. -/
theorem unspaced_render (frame : ListFrame) (h : frame.separator ≠ "") (force : Option Nat) (width : Nat)
    {items : List String} (hi : items ≠ []) :
    unspaced (frame.render force width items).toList =
      unspaced frame.opening.toList ++
        ((unspaced frame.separator.toList).intercalate (items.map fun item => unspaced item.toList) ++
          unspaced frame.closing.toList) := by
  obtain ⟨body, heq, spaced⟩ := render_spaced frame h force width hi
  have words := (spaced.mono fun _ gap => gap.blankRun).unspaced_eq
  rw [heq, unspaced_append, words, unspaced_marked frame hi]

/-- The words of a list with its opening, which belongs to the first of them. -/
theorem render_words (frame : ListFrame) (h : frame.separator ≠ "") (force : Option Nat) (width : Nat)
    (first : String) (rest : List String) :
    Spaced BlankRun ((frame.marked ((frame.opening ++ first) :: rest)).map String.toList)
      (frame.render force width (first :: rest)).toList := by
  obtain ⟨body, heq, spaced⟩ := render_spaced frame h force width (List.cons_ne_nil first rest)
  have spaced : Spaced BlankRun ((frame.marked (first :: rest)).map String.toList) body :=
    spaced.mono fun _ gap => gap.blankRun
  rw [heq]
  cases rest with
  | nil =>
    have whole := spaced.glue frame.opening.toList
    simpa only [ListFrame.marked, List.map_cons, String.toList_append, List.append_assoc] using whole
  | cons next rest =>
    have whole := spaced.glue frame.opening.toList
    simpa only [ListFrame.marked, List.map_cons, String.toList_append, List.append_assoc] using whole

/-- A pattern without any character of the marks stands within an item. -/
theorem infix_marked_iff {frame : ListFrame} {pattern : List Char} (ne : pattern ≠ [])
    (hs : ∀ c ∈ frame.separator.toList, c ∉ pattern) (hc : ∀ c ∈ frame.closing.toList, c ∉ pattern)
    (items : List String) :
    (∃ word ∈ (frame.marked items).map String.toList, pattern <:+: word) ↔
      ∃ item ∈ items, pattern <:+: item.toList := by
  induction items with
  | nil => simp only [ListFrame.marked, List.map_nil, List.not_mem_nil, false_and, exists_false]
  | cons item rest ih =>
    cases rest with
    | nil =>
      simp only [ListFrame.marked, List.map_cons, List.map_nil, List.mem_singleton, exists_eq_left,
        String.toList_append, infix_append_right_iff ne hc]
    | cons next rest =>
      rw [ListFrame.marked, List.map_cons, String.toList_append]
      simp only [List.mem_cons, exists_eq_or_imp, infix_append_right_iff ne hs] at ih ⊢
      rw [ih]

/-- Where a pattern occurs in a list that no blank and no mark can belong to. -/
theorem infix_render_iff {frame : ListFrame} (h : frame.separator ≠ "") {pattern : List Char}
    (ne : pattern ≠ []) (blankless : ∀ c ∈ pattern, isBlank c = false)
    (hs : ∀ c ∈ frame.separator.toList, c ∉ pattern) (hc : ∀ c ∈ frame.closing.toList, c ∉ pattern)
    (force : Option Nat) (width : Nat) (first : String) (rest : List String) :
    pattern <:+: (frame.render force width (first :: rest)).toList ↔
      pattern <:+: (frame.opening ++ first).toList ∨ ∃ item ∈ rest, pattern <:+: item.toList := by
  rw [(render_words frame h force width first rest).infix_iff ne blankless, infix_marked_iff ne hs hc]
  simp only [List.mem_cons, exists_eq_or_imp]

/-- Which characters a list holds, blanks and marks apart. -/
theorem mem_render_iff {frame : ListFrame} (h : frame.separator ≠ "") {c : Char} (shown : isBlank c = false)
    (hs : c ∉ frame.separator.toList) (hc : c ∉ frame.closing.toList) (force : Option Nat) (width : Nat)
    (first : String) (rest : List String) :
    c ∈ (frame.render force width (first :: rest)).toList ↔
      c ∈ (frame.opening ++ first).toList ∨ ∃ item ∈ rest, c ∈ item.toList := by
  have apart {cs : List Char} (clear : c ∉ cs) : ∀ d ∈ cs, d ∉ [c] := by
    rintro d hd mem
    obtain rfl := List.mem_singleton.mp mem
    exact clear hd
  have blankless : ∀ d ∈ [c], isBlank d = false := List.forall_mem_singleton.mpr shown
  have infixes := infix_render_iff h (List.cons_ne_nil c []) blankless (apart hs) (apart hc) force width
    first rest
  simpa only [List.singleton_infix_iff] using infixes

end DsiPanel
