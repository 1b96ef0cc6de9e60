import DsiPanel.Proofs.Text.Filling
import DsiPanel.Proofs.Text.Groups
import DsiPanel.Text.Utf8
import Mathlib.Data.List.Chain

/-!
# Groups on lines

Where no text of a list has a line break, the lines of the list are told by its groups: one line for each
group, behind the opening or the indent and with the mark that belongs to it (`ListFrame.lines`). Since both
leads are equally wide, what a line takes is what its group takes (`ListFrame.keepsWidth_iff`).

**The law** (`ListFrame.render_keepsWidth`): every line with two or more items stays within the width, so only
an item that is alone on its line passes it. A list of two or more items has a line break exactly if it does
not fit on one line: groups that all stood on one line would be a line of two or more items.

The marks are measured in bytes before they are put on a line and in columns afterwards. Where they have no
tab they take no more columns than bytes (`ListFrame.plainMarks_of_not_mem`), so no line grows past what was
asked of it.
-/

namespace DsiPanel

/-! ## Columns and bytes -/

/-- Without tabs a text takes no more columns than bytes, and as many if every character takes one. -/
theorem charsWidth_le_bytes {cs : List Char} (clear : '\t' ∉ cs) :
    charsWidth cs ≤ (cs.flatMap String.utf8EncodeChar).length ∧
      ((∀ c ∈ cs, c.toNat < 128) → charsWidth cs = (cs.flatMap String.utf8EncodeChar).length) := by
  induction cs with
  | nil => exact ⟨Nat.le_refl _, fun _ => rfl⟩
  | cons c cs ih =>
    obtain ⟨other, others⟩ := List.ne_and_not_mem_of_not_mem_cons clear
    obtain ⟨bound, same⟩ := ih others
    have column : columns c = 1 := if_neg other.symm
    have byte : 1 ≤ c.utf8Size := c.utf8Size_pos
    rw [charsWidth_cons, List.flatMap_cons, List.length_append, String.length_utf8EncodeChar, column]
    refine ⟨by omega, fun ascii => ?_⟩
    obtain ⟨own, rest⟩ := List.forall_mem_cons.mp ascii
    have one : c.utf8Size = 1 := Char.utf8Size_eq_one_iff.mpr (Nat.le_of_lt_succ own)
    rw [one, same rest]

theorem utf8ByteSize_eq_length (s : String) :
    s.utf8ByteSize = (s.toList.flatMap String.utf8EncodeChar).length := by
  rw [← encodeUtf8_eq_flatMap]
  rfl

theorem ListFrame.plainMarks_of_not_mem {frame : ListFrame} (separator : '\t' ∉ frame.separator.toList)
    (closing : '\t' ∉ frame.closing.toList) : frame.PlainMarks where
  separator := utf8ByteSize_eq_length frame.separator ▸ (charsWidth_le_bytes separator).1
  closing := utf8ByteSize_eq_length frame.closing ▸ (charsWidth_le_bytes closing).1

/-- The marks are plain characters of one column and one byte each. -/
structure ListFrame.AsciiMarks (frame : ListFrame) : Prop where
  separator : ∀ c ∈ frame.separator.toList, c.toNat < 128 ∧ c ≠ '\t'
  closing : ∀ c ∈ frame.closing.toList, c.toNat < 128 ∧ c ≠ '\t'

theorem textWidth_eq_utf8ByteSize {mark : String} (plain : ∀ c ∈ mark.toList, c.toNat < 128 ∧ c ≠ '\t') :
    textWidth mark = mark.utf8ByteSize := by
  have clear : '\t' ∉ mark.toList := fun tab => (plain '\t' tab).2 rfl
  rw [utf8ByteSize_eq_length]
  exact (charsWidth_le_bytes clear).2 fun c mem => (plain c mem).1

/-- With such marks a piece asks of a line what it takes. -/
theorem textWidth_eq_demand {frame : ListFrame} (marks : frame.AsciiMarks) {force : Option Nat}
    {items : List String} {p : Piece} (h : p ∈ frame.pieces force items) : textWidth p.text = p.demand := by
  have own : textWidth p.mark = p.mark.utf8ByteSize := by
    rcases mark_of_mem_pieces h with mark | mark
    · exact mark ▸ textWidth_eq_utf8ByteSize marks.closing
    · exact mark ▸ textWidth_eq_utf8ByteSize marks.separator
  rw [Piece.text, Piece.demand, textWidth_append, own]

/-! ## Lines -/

theorem not_mem_indentTo (column : Nat) : '\n' ∉ (indentTo column).toList := by
  have spaces : '\n' ≠ '\t' ∧ '\n' ≠ ' ' := by decide
  rw [indentTo, String.toList_ofList, List.mem_append, List.mem_replicate, List.mem_replicate]
  simp only [spaces, and_false, or_self, not_false_eq_true]

/-- A character of an intercalation is one of the parts or of what stands between them. -/
theorem not_mem_intercalate {c : Char} {between : String} {parts : List String}
    (apart : c ∉ between.toList) (clear : ∀ part ∈ parts, c ∉ part.toList) :
    c ∉ (String.intercalate between parts).toList := by
  induction parts with
  | nil => exact List.not_mem_nil
  | cons part parts ih =>
    obtain ⟨own, others⟩ := List.forall_mem_cons.mp clear
    cases parts with
    | nil => rwa [String.intercalate_singleton]
    | cons next parts =>
      rw [String.intercalate_cons_cons, String.toList_append, String.toList_append, List.mem_append,
        List.mem_append, not_or, not_or]
      exact ⟨⟨own, apart⟩, ih others⟩

namespace ListFrame

variable (frame : ListFrame)

/-- The lines on which groups stand: the first of them after `lead`, every other one after the indent, and
the closing at the end of the last. -/
def linesAfter (lead : String) : List (List String) → List String
  | [] => []
  | [group] => [lead ++ frame.joined group ++ frame.closing]
  | group :: next :: rest =>
    (lead ++ frame.joined group ++ frame.separator) ::
      linesAfter (indentTo (textWidth frame.opening)) (next :: rest)

/-- The lines on which groups stand behind the opening. -/
def lines (groups : List (List String)) : List String := frame.linesAfter frame.opening groups

/-- No line with two or more items is wider than `width`. -/
def KeepsWidth (width : Nat) (groups : List (List String)) : Prop :=
  List.Forall₂ (fun group line => 2 ≤ group.length → textWidth line ≤ width) groups (frame.lines groups)

/-- No text of the list has a line break. -/
structure Breakless (items : List String) : Prop where
  opening : '\n' ∉ frame.opening.toList
  separator : '\n' ∉ frame.separator.toList
  closing : '\n' ∉ frame.closing.toList
  items : ∀ item ∈ items, '\n' ∉ item.toList

variable {frame}

theorem length_lines (groups : List (List String)) : (frame.lines groups).length = groups.length := by
  have general (lead : String) : (frame.linesAfter lead groups).length = groups.length := by
    induction groups generalizing lead with
    | nil => rfl
    | cons group groups ih =>
      cases groups with
      | nil => rfl
      | cons next groups => exact congrArg (· + 1) (ih _)
  exact general frame.opening

theorem lines_singleton (items : List String) : frame.lines [items] = [frame.single items] := rfl

theorem Breakless.joined {items group : List String} (plain : frame.Breakless items)
    (own : ∀ item ∈ group, item ∈ items) : '\n' ∉ (frame.joined group).toList := by
  have space : '\n' ∉ " ".toList := by decide
  refine not_mem_intercalate ?_ fun item mem => plain.items item (own item mem)
  rw [String.toList_append, List.mem_append, not_or]
  exact ⟨plain.separator, space⟩

theorem Breakless.single {items : List String} (plain : frame.Breakless items) :
    '\n' ∉ (frame.single items).toList := by
  rw [ListFrame.single, String.toList_append, String.toList_append, List.mem_append, List.mem_append, not_or,
    not_or]
  exact ⟨⟨plain.opening, plain.joined fun item mem => mem⟩, plain.closing⟩

/-- The lines of a list in groups. -/
theorem textLines_grouped {items : List String} (plain : frame.Breakless items) {groups : List (List String)}
    (ne : groups ≠ []) (own : ∀ group ∈ groups, ∀ item ∈ group, item ∈ items) :
    textLines (frame.grouped ("\n" ++ indentTo (textWidth frame.opening)) groups) = frame.lines groups := by
  -- Every line but the first stands after the indent, so the lead is kept general.
  have general (lead : String) (clear : '\n' ∉ lead.toList) :
      textLines (lead ++ String.intercalate
        (frame.separator ++ ("\n" ++ indentTo (textWidth frame.opening))) (groups.map frame.joined) ++
          frame.closing) = frame.linesAfter lead groups := by
    induction groups generalizing lead with
    | nil => exact absurd rfl ne
    | cons group groups ih =>
      obtain ⟨here, others⟩ := List.forall_mem_cons.mp own
      have line (mark : String) (clear' : '\n' ∉ mark.toList) :
          '\n' ∉ (lead ++ frame.joined group ++ mark).toList := by
        rw [String.toList_append, String.toList_append, List.mem_append, List.mem_append, not_or, not_or]
        exact ⟨⟨clear, plain.joined here⟩, clear'⟩
      cases groups with
      | nil =>
        rw [List.map_singleton, String.intercalate_singleton]
        exact textLines_of_not_mem (line frame.closing plain.closing)
      | cons next groups =>
        have tail := ih (List.cons_ne_nil next groups) others _ (not_mem_indentTo (textWidth frame.opening))
        have cut : lead ++ String.intercalate
            (frame.separator ++ ("\n" ++ indentTo (textWidth frame.opening)))
              ((group :: next :: groups).map frame.joined) ++ frame.closing =
            (lead ++ frame.joined group ++ frame.separator) ++ "\n" ++
              (indentTo (textWidth frame.opening) ++ String.intercalate
                (frame.separator ++ ("\n" ++ indentTo (textWidth frame.opening)))
                  ((next :: groups).map frame.joined) ++ frame.closing) := by
          simp only [List.map_cons, String.intercalate_cons_cons, String.append_assoc]
        rw [cut, textLines_append, tail, textLines_of_not_mem (line frame.separator plain.separator)]
        rfl
  exact general frame.opening plain.opening

/-- What a line takes is the lead, always as wide as the opening, and the marked items of its group. -/
theorem keepsWidth_iff {width : Nat} {groups : List (List String)} (ne : ∀ group ∈ groups, group ≠ []) :
    frame.KeepsWidth width groups ↔ ∀ texts ∈ frame.markedGroups groups, 2 ≤ texts.length →
      textWidth frame.opening + textWidth (String.intercalate " " texts) ≤ width := by
  have general (lead : String) (wide : textWidth lead = textWidth frame.opening) :
      List.Forall₂ (fun group line => 2 ≤ group.length → textWidth line ≤ width) groups
          (frame.linesAfter lead groups) ↔
        ∀ texts ∈ frame.markedGroups groups, 2 ≤ texts.length →
          textWidth frame.opening + textWidth (String.intercalate " " texts) ≤ width := by
    induction groups generalizing lead with
    | nil => exact iff_of_true .nil (List.forall_mem_nil _)
    | cons group groups ih =>
      obtain ⟨own, others⟩ := List.forall_mem_cons.mp ne
      cases groups with
      | nil =>
        rw [linesAfter, markedGroups, List.forall₂_cons, List.forall_mem_singleton, length_marked,
          intercalate_marked own, String.append_assoc, textWidth_append lead, wide]
        exact and_iff_left .nil
      | cons next groups =>
        rw [linesAfter, markedGroups, List.forall₂_cons, List.forall_mem_cons, List.length_map,
          intercalate_separated own, String.append_assoc, textWidth_append lead, wide,
          ih others _ (textWidth_indentTo _)]
  exact general frame.opening rfl

/-- The lines of a wrapped list keep the width. -/
theorem keepsWidth_groups (marks : frame.separator ≠ "") (plain : frame.PlainMarks) (force : Option Nat)
    (width : Nat) (items : List String) : frame.KeepsWidth width (frame.groups force width items) := by
  refine (keepsWidth_iff (frame.groups_division force width items).ne_nil).mpr ?_
  rw [← frame.map_text_layout force width items]
  rintro _ mem many
  obtain ⟨line, own, rfl⟩ := List.mem_map.mp mem
  rw [← lineText_of_cut marks (frame.layout_division force width items) own]
  obtain ⟨piece, rest, rfl⟩ := List.exists_cons_of_ne_nil (FillRule.fill_ne_nil _ _ line own)
  refine layout_line_le marks plain own ?_
  rintro rfl
  exact Nat.lt_irrefl 1 many

/-- What a line of pieces has used is the width of its texts. -/
theorem used_of_cut (marks : frame.separator ≠ "") {force : Option Nat} {items : List String}
    {cut : List (List Piece)} (h : Division (frame.pieces force items) cut) {line : List Piece}
    (mem : line ∈ cut) (budget : Nat) :
    (wrapRule budget).used line = textWidth (String.intercalate " " (line.map Piece.text)) := by
  rw [← lineText_of_cut marks h mem]
  obtain ⟨piece, rest, rfl⟩ := List.exists_cons_of_ne_nil (h.ne_nil line mem)
  exact (textWidth_lineText budget piece rest).symm

/-- Where no item is asked to start a line, a line ends only before an item that would not fit on it with
its mark. -/
theorem isChain_markedGroups (marks : frame.separator ≠ "") (ascii : frame.AsciiMarks) (width : Nat)
    (items : List String) :
    (frame.markedGroups (frame.groups none width items)).IsChain fun texts next => ∀ text ∈ next.head?,
      width < textWidth frame.opening + textWidth (String.intercalate " " texts) + 1 + textWidth text := by
  have division := frame.layout_division none width items
  rw [← frame.map_text_layout none width items, List.isChain_map]
  refine List.IsChain.imp_of_mem_imp (fun line next mem mem' ends text first => ?_)
    ((wrapRule (width - textWidth frame.opening)).isChain_fill (frame.pieces none items))
  rw [List.head?_map, Option.mem_def, Option.map_eq_some_iff] at first
  obtain ⟨p, head, rfl⟩ := first
  have own : p ∈ frame.pieces none items := by
    rw [← division.flatten]
    exact List.mem_flatten.mpr ⟨next, mem', List.mem_of_mem_head? head⟩
  have free : p.forced = false := by
    obtain ⟨i, here⟩ := List.mem_iff_getElem?.mp own
    rw [Bool.eq_false_iff, ne_eq, forced_of_getElem? here]
    exact nofun
  have wide := ends p head
  rw [used_of_cut marks division mem] at wide
  simp only [wrapRule, free, Bool.false_or, Bool.and_eq_true, decide_eq_true_eq,
    ← textWidth_eq_demand ascii own] at wide
  omega

/-- The lines of a list that does not fit on one. -/
theorem textLines_render_of_wide (marks : frame.separator ≠ "") {items : List String}
    (plain : frame.Breakless items) {force : Option Nat} {width : Nat} (ne : items ≠ [])
    (wide : width < textWidth (frame.single items)) :
    textLines (frame.render force width items) = frame.lines (frame.groups force width items) := by
  have division := frame.groups_division force width items
  rw [render_of_wide force width marks ne wide]
  refine textLines_grouped plain (division.groups_ne_nil ne) fun group mem item own => ?_
  have listed := List.mem_flatten.mpr ⟨group, mem, own⟩
  rwa [division.flatten] at listed

end ListFrame

/-! ## The law -/

/-- How wide the lines of a list are, if no text of it has a break and its marks have no tab. Its items stand
on them in groups, and no line with two or more items passes the width, however narrow that is. A list of
two or more items has a line break exactly if it is too wide for one line. -/
theorem ListFrame.render_keepsWidth (frame : ListFrame) (items : List String) (plain : frame.Breakless items)
    (separator : frame.separator ≠ "")
    (tabless : '\t' ∉ frame.separator.toList ∧ '\t' ∉ frame.closing.toList) (force : Option Nat)
    (width : Nat) :
    (∃ groups, (Division items groups ∨ items = [] ∧ groups = [[]]) ∧
      textLines (frame.render force width items) = frame.lines groups ∧ frame.KeepsWidth width groups) ∧
    (2 ≤ items.length →
      ('\n' ∈ (frame.render force width items).toList ↔ width < textWidth (frame.single items))) := by
  have marks := plainMarks_of_not_mem tabless.1 tabless.2
  by_cases fits : items = [] ∨ textWidth (frame.single items) ≤ width
  · have whole : frame.render force width items = frame.single items := render_of_fits force width fits
    rw [whole]
    refine ⟨⟨[items], ?_, ?_, ?_⟩, fun many => iff_of_false plain.single fun wide => ?_⟩
    · by_cases none : items = []
      · exact .inr ⟨none, by rw [none]⟩
      · exact .inl ⟨List.flatten_singleton, List.forall_mem_singleton.mpr none⟩
    · rw [textLines_of_not_mem plain.single, lines_singleton]
    · refine .cons (fun many => ?_) .nil
      rcases fits with rfl | fits
      · exact absurd many (by decide)
      · exact fits
    · rcases fits with rfl | fits
      · exact absurd many (by decide)
      · exact absurd wide (Nat.not_lt_of_le fits)
  · rw [not_or, Nat.not_le] at fits
    obtain ⟨ne, wide⟩ := fits
    have division := frame.groups_division force width items
    have lines : textLines (frame.render force width items) = frame.lines (frame.groups force width items) :=
      textLines_render_of_wide separator plain ne wide
    have keeps := keepsWidth_groups separator marks force width items
    refine ⟨⟨_, .inl division, lines, keeps⟩, fun many => iff_of_true ?_ wide⟩
    by_contra unbroken
    -- Without a break there is one group, and its line is the list on one line.
    rw [textLines_of_not_mem unbroken] at lines
    obtain ⟨group, alone⟩ : ∃ group, frame.groups force width items = [group] := by
      rw [← List.length_eq_one_iff, ← length_lines, ← lines, List.length_singleton]
    rw [alone] at division keeps
    have all : group = items := by rw [← division.flatten, List.flatten_singleton]
    subst all
    cases keeps with
    | cons own _ => exact absurd wide (Nat.not_lt_of_le (own many))

/-- Behind a head of ten columns no item fits into 16 with its mark, and still no two of them share a line. -/
theorem ListFrame.render_keepsWidth_narrow :
    (∃ groups, (Division ["alpha", "beta", "", "delta"] groups ∨
        ["alpha", "beta", "", "delta"] = [] ∧ groups = [[]]) ∧
      textLines (shortCall.render none 16 ["alpha", "beta", "", "delta"]) = shortCall.lines groups ∧
      shortCall.KeepsWidth 16 groups) ∧
    '\n' ∈ (shortCall.render none 16 ["alpha", "beta", "", "delta"]).toList := by
  have plain : shortCall.Breakless ["alpha", "beta", "", "delta"] :=
    ⟨by decide, by decide, by decide, by decide⟩
  obtain ⟨groups, broken⟩ :=
    shortCall.render_keepsWidth ["alpha", "beta", "", "delta"] plain (by decide) (by decide) none 16
  exact ⟨groups, (broken (by decide)).mpr (by decide)⟩

end DsiPanel
