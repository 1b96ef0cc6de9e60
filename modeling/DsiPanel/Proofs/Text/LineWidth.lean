import DsiPanel.Proofs.Text.Literal
import DsiPanel.Proofs.Text.Wrapping

/-!
# How wide lines are

The lines of a text are what stands between its line breaks (`textLines`). Filling lines keeps one
promise, whatever is measured: no piece on a line, the first apart, would have started a new one
(`FillRule.Unbroken`). For a wrapped list that promise is a width. A line of two or more pieces stays
within the width asked for (`layout_line_le`), and only a piece that is alone on its line may be wider.
So a list stays within a width that each of its items alone fits into under the opening
(`width_le_of_mem_render`).
-/

namespace DsiPanel

/-! ## Lines of a text -/

/-- The lines of a text, without the breaks between them. -/
def textLines (text : String) : List String := (text.toList.splitOn '\n').map String.ofList

theorem textLines_append (before after : String) :
    textLines (before ++ "\n" ++ after) = textLines before ++ textLines after := by
  have chars : (before ++ "\n" ++ after).toList = before.toList ++ '\n' :: after.toList := by
    simp only [String.toList_append, List.append_assoc]
    rfl
  rw [textLines, chars, List.splitOn_append_cons_self, List.map_append]
  rfl

/-- A text without a break is one line. -/
theorem textLines_of_not_mem {text : String} (h : '\n' ∉ text.toList) : textLines text = [text] := by
  rw [textLines, List.splitOn_eq_singleton h, List.map_singleton, String.ofList_toList]

theorem charsWidth_le_of_mem_splitOn {cs line : List Char} (h : line ∈ cs.splitOn '\n') :
    charsWidth line ≤ charsWidth cs := by
  induction cs generalizing line with
  | nil =>
    obtain rfl := List.mem_singleton.mp h
    exact Nat.le_refl _
  | cons c cs ih =>
    rw [List.splitOn_cons_eq_if_modifyHead] at h
    rw [charsWidth_cons]
    split at h
    · rcases List.mem_cons.mp h with rfl | later
      · exact Nat.zero_le _
      · exact Nat.le_add_left_of_le (ih later)
    · cases lines : cs.splitOn '\n' with
      | nil => exact absurd lines (List.splitOn_ne_nil _ _)
      | cons first rest =>
        rw [lines] at h ih
        rcases List.mem_cons.mp h with rfl | later
        · exact Nat.add_le_add_left (ih List.mem_cons_self) (columns c)
        · exact Nat.le_add_left_of_le (ih (List.mem_cons_of_mem first later))

/-- No line is wider than the whole text. -/
theorem width_le_of_mem_textLines {text line : String} (h : line ∈ textLines text) :
    textWidth line ≤ textWidth text := by
  obtain ⟨chars, own, rfl⟩ := List.mem_map.mp h
  rw [textWidth, String.toList_ofList]
  exact charsWidth_le_of_mem_splitOn own

/-- A text is as wide as the characters that it is spelled out of. -/
theorem textWidth_ofList (cs : List Char) : textWidth (String.ofList cs) = charsWidth cs := by
  rw [textWidth, String.toList_ofList]

theorem textWidth_ofList_le {cs : List Char} {width : Nat} (h : charsWidth cs ≤ width) :
    textWidth (String.ofList cs) ≤ width := by
  rwa [textWidth_ofList]

/-- A text without a tab has the width of its length. -/
theorem textWidth_of_not_mem {text : String} (h : '\t' ∉ text.toList) : textWidth text = text.length := by
  have general (cs : List Char) (clear : '\t' ∉ cs) : charsWidth cs = cs.length := by
    induction cs with
    | nil => rfl
    | cons c cs ih =>
      rw [List.mem_cons, not_or] at clear
      have one : columns c = 1 := if_neg (Ne.symm clear.1)
      rw [charsWidth_cons, one, ih clear.2, List.length_cons, Nat.add_comm]
  rw [textWidth, general _ h, String.length_toList]

theorem IsWord.textWidth_eq {text : String} (h : IsWord text) : textWidth text = text.length :=
  textWidth_of_not_mem (h.not_mem (by decide))

theorem textWidth_byteLiteral (b : UInt8) : textWidth (byteLiteral b) = 4 := by
  have length : (hexLiteral 1 b.toNat).length = 4 := (length_hexLiteral_eq_iff (by decide)).mpr b.toNat_lt
  rw [byteLiteral, (hexLiteral_isWord 1 b.toNat).textWidth_eq, length]

/-- Every character takes a column, so only the empty text takes none. -/
theorem textWidth_eq_zero_iff {text : String} : textWidth text = 0 ↔ text = "" := by
  rw [← String.toList_eq_nil_iff, textWidth]
  cases text.toList with
  | nil => exact iff_of_true rfl rfl
  | cons c cs =>
    have some : 0 < columns c := by
      unfold columns
      split <;> decide
    refine iff_of_false (fun none => ?_) (List.cons_ne_nil c cs)
    rw [charsWidth_cons] at none
    omega

/-! ## Lines that are filled -/

section Filling

variable {α : Type} (rule : FillRule α)

/-- On a line that has used `used`, none of the pieces starts a new one. -/
def FillRule.Unbroken : Nat → List α → Prop
  | _, [] => True
  | used, piece :: rest => rule.breaks used piece = false ∧ FillRule.Unbroken (rule.grown used piece) rest

/-- After the first piece of the line, none of its pieces starts a new one. -/
def FillRule.Filled : List α → Prop
  | [] => True
  | piece :: rest => rule.Unbroken (rule.fresh piece) rest

theorem ontoFirst_eq (piece : α) (lines : List (List α)) :
    ontoFirst piece lines = (piece :: lines.headD []) :: lines.tail := by
  cases lines <;> rfl

theorem FillRule.fillFrom_unbroken (used : Nat) (pieces : List α) :
    rule.Unbroken used ((rule.fillFrom used pieces).headD []) ∧
      ∀ line ∈ (rule.fillFrom used pieces).tail, rule.Filled line := by
  induction pieces generalizing used with
  | nil => exact ⟨trivial, List.forall_mem_nil _⟩
  | cons piece rest ih =>
    unfold FillRule.fillFrom
    split
    next =>
      obtain ⟨head, tail⟩ := ih (rule.fresh piece)
      rw [ontoFirst_eq]
      exact ⟨trivial, List.forall_mem_cons.mpr ⟨head, tail⟩⟩
    next stays =>
      obtain ⟨head, tail⟩ := ih (rule.grown used piece)
      rw [ontoFirst_eq]
      exact ⟨⟨Bool.eq_false_iff.mpr stays, head⟩, tail⟩

/-- No piece stays on a line that it would have ended. -/
theorem FillRule.filled_of_mem_fill {pieces line : List α} (h : line ∈ rule.fill pieces) :
    rule.Filled line := by
  cases pieces with
  | nil => exact absurd h List.not_mem_nil
  | cons piece rest =>
    obtain ⟨head, tail⟩ := rule.fillFrom_unbroken (rule.fresh piece) rest
    rw [FillRule.fill, ontoFirst_eq] at h
    rcases List.mem_cons.mp h with rfl | later
    · exact head
    · exact tail line later

end Filling

/-! ## Lines of a wrapped list -/

/-- What the rule counts along a line is the width of its text. -/
theorem textWidth_lineText (budget : Nat) (piece : Piece) (rest : List Piece) :
    textWidth (lineText ((piece :: rest).map Piece.text)) =
      rest.foldl (wrapRule budget).grown (textWidth piece.text) := by
  have general (line : String) : textWidth ((rest.map Piece.text).foldl
      (fun line text => if line.isEmpty then text else line ++ " " ++ text) line) =
        rest.foldl (wrapRule budget).grown (textWidth line) := by
    induction rest generalizing line with
    | nil => rfl
    | cons p rest ih =>
      have space : textWidth " " = 1 := rfl
      have step : textWidth (if line.isEmpty then p.text else line ++ " " ++ p.text) =
          (wrapRule budget).grown (textWidth line) p := by
        show _ = if textWidth line = 0 then textWidth p.text else textWidth line + 1 + textWidth p.text
        simp only [String.isEmpty_iff, textWidth_eq_zero_iff]
        split
        · rfl
        · rw [textWidth_append, textWidth_append, space]
      rw [List.map_cons, List.foldl_cons, List.foldl_cons, ih, step]
  exact general piece.text

/-- A line that goes on after its first text stays within the budget. -/
theorem unbroken_le {budget used : Nat} {rest : List Piece} (h : (wrapRule budget).Unbroken used rest)
    (started : used ≠ 0) (plain : ∀ p ∈ rest, textWidth p.text ≤ p.demand) (more : rest ≠ []) :
    0 < budget ∧ rest.foldl (wrapRule budget).grown used ≤ budget := by
  induction rest generalizing used with
  | nil => exact absurd rfl more
  | cons p rest ih =>
    obtain ⟨stays, later⟩ := h
    obtain ⟨own, others⟩ := List.forall_mem_cons.mp plain
    have fits : used + 1 + p.demand ≤ budget := by
      simp only [wrapRule, bne_iff_ne.mpr started, Bool.true_and, Bool.or_eq_false_iff,
        decide_eq_false_iff_not] at stays
      omega
    have grown : (wrapRule budget).grown used p = used + 1 + textWidth p.text := if_neg started
    rw [List.foldl_cons]
    by_cases last : rest = []
    · rw [last, List.foldl_nil, grown]
      omega
    · exact ih later (by omega) others last

/-- The marks of the list measure no more than their bytes. -/
structure ListFrame.PlainMarks (frame : ListFrame) : Prop where
  separator : textWidth frame.separator ≤ frame.separator.utf8ByteSize
  closing : textWidth frame.closing ≤ frame.closing.utf8ByteSize

theorem mark_of_mem_pieces {frame : ListFrame} {force : Option Nat} {items : List String} {p : Piece}
    (h : p ∈ frame.pieces force items) : p.mark = frame.closing ∨ p.mark = frame.separator := by
  obtain ⟨⟨item, i⟩, -, rfl⟩ := List.mem_map.mp h
  exact ite_eq_or_eq _ _ _

theorem textWidth_le_demand {frame : ListFrame} (plain : frame.PlainMarks) {force : Option Nat}
    {items : List String} {p : Piece} (h : p ∈ frame.pieces force items) : textWidth p.text ≤ p.demand := by
  have marked : textWidth p.mark ≤ p.mark.utf8ByteSize := by
    rcases mark_of_mem_pieces h with mark | mark
    · exact mark ▸ plain.closing
    · exact mark ▸ plain.separator
  rw [Piece.text, Piece.demand, textWidth_append]
  exact Nat.add_le_add_left marked (textWidth p.item)

/-- A line of two or more pieces stays within the width. -/
theorem layout_line_le {frame : ListFrame} (h : frame.separator ≠ "") (plain : frame.PlainMarks)
    {force : Option Nat} {width : Nat} {items : List String} {piece : Piece} {rest : List Piece}
    (hline : piece :: rest ∈ frame.layout force width items) (more : rest ≠ []) :
    textWidth frame.opening + textWidth (lineText ((piece :: rest).map Piece.text)) ≤ width := by
  have filled := FillRule.filled_of_mem_fill _ hline
  have started : textWidth piece.text ≠ 0 :=
    mt textWidth_eq_zero_iff.mp (layout_text_ne_empty h hline more)
  have demands : ∀ p ∈ rest, textWidth p.text ≤ p.demand := by
    intro p hp
    have own : p ∈ frame.pieces force items := by
      rw [← layout_flatten frame force width items]
      exact List.mem_flatten.mpr ⟨_, hline, List.mem_cons_of_mem piece hp⟩
    exact textWidth_le_demand plain own
  obtain ⟨left, fits⟩ := unbroken_le filled started demands more
  rw [textWidth_lineText (width - textWidth frame.opening)]
  exact Nat.add_le_of_le_sub' (by omega) fits

/-! ## Lines of rendered text -/

/-- Lines with breaks between them, the first after one lead and each other after an indent. -/
theorem width_le_of_mem_intercalate {width : Nat} {indent : String} {parts : List String}
    (indented : ∀ part ∈ parts, textWidth indent + textWidth part ≤ width) {lead : String}
    (led : ∀ part ∈ parts.head?, textWidth lead + textWidth part ≤ width) (some : parts ≠ [])
    {line : String} (h : line ∈ textLines (lead ++ String.intercalate ("\n" ++ indent) parts)) :
    textWidth line ≤ width := by
  induction parts generalizing lead with
  | nil => exact absurd rfl some
  | cons part parts ih =>
    obtain ⟨-, others⟩ := List.forall_mem_cons.mp indented
    have first : textWidth (lead ++ part) ≤ width := by
      rw [textWidth_append]
      exact led part rfl
    cases parts with
    | nil =>
      rw [String.intercalate_singleton] at h
      exact (width_le_of_mem_textLines h).trans first
    | cons next parts =>
      have cut : lead ++ String.intercalate ("\n" ++ indent) (part :: next :: parts) =
          (lead ++ part) ++ "\n" ++ (indent ++ String.intercalate ("\n" ++ indent) (next :: parts)) := by
        simp only [String.intercalate_cons_cons, String.append_assoc]
      rw [cut, textLines_append, List.mem_append] at h
      rcases h with own | later
      · exact (width_le_of_mem_textLines own).trans first
      · refine ih others (fun part hpart => ?_) (List.cons_ne_nil next parts) later
        cases hpart
        exact others next List.mem_cons_self

theorem mem_marked {frame : ListFrame} {items : List String} {text : String}
    (h : text ∈ frame.marked items) :
    ∃ item ∈ items, text = item ++ frame.separator ∨ text = item ++ frame.closing := by
  induction items with
  | nil => exact absurd h List.not_mem_nil
  | cons item rest ih =>
    cases rest with
    | nil => exact ⟨item, List.mem_cons_self, .inr (List.mem_singleton.mp h)⟩
    | cons next rest =>
      rcases List.mem_cons.mp h with own | later
      · exact ⟨item, List.mem_cons_self, .inl own⟩
      · obtain ⟨other, mem, mark⟩ := ih later
        exact ⟨other, List.mem_cons_of_mem item mem, mark⟩

/-- A list keeps the width if each of its items, with its mark, fits under the opening. -/
theorem width_le_of_mem_render {frame : ListFrame} (h : frame.separator ≠ "") (plain : frame.PlainMarks)
    {force : Option Nat} {width : Nat} {items : List String} (hi : items ≠ [])
    (fits : ∀ text ∈ frame.marked items, textWidth frame.opening + textWidth text ≤ width)
    {line : String} (hline : line ∈ textLines (frame.render force width items)) :
    textWidth line ≤ width := by
  simp only [ListFrame.render] at hline
  split at hline
  next single =>
    have whole : textWidth (frame.single items) ≤ width := by
      simpa [hi] using single
    exact (width_le_of_mem_textLines hline).trans whole
  next =>
    have parts : ∀ part ∈ (frame.layout force width items).map fun line => lineText (line.map Piece.text),
        textWidth frame.opening + textWidth part ≤ width := by
      rintro _ hpart
      obtain ⟨own, mem, rfl⟩ := List.mem_map.mp hpart
      obtain ⟨piece, rest, rfl⟩ := List.exists_cons_of_ne_nil (FillRule.fill_ne_nil _ _ own mem)
      cases rest with
      | nil =>
        have listed : piece ∈ frame.pieces force items := by
          rw [← layout_flatten frame force width items]
          exact List.mem_flatten.mpr ⟨_, mem, List.mem_singleton_self piece⟩
        refine fits piece.text ?_
        rw [← frame.text_pieces force items]
        exact List.mem_map_of_mem listed
      | cons next rest => exact layout_line_le h plain mem (List.cons_ne_nil next rest)
    refine width_le_of_mem_intercalate (fun part hpart => ?_) (fun part hpart => ?_) ?_ hline
    · rw [textWidth_indentTo]
      exact parts part hpart
    · exact parts part (List.mem_of_mem_head? hpart)
    · exact mt List.map_eq_nil_iff.mp (layout_ne_nil frame force width hi)

end DsiPanel
