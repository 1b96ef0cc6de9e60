import DsiPanel.Proofs.Text.Filling
import DsiPanel.Proofs.Text.GroupLines

/-!
# No list takes fewer lines

A list that does not fit on one line could be divided in other ways. Among the divisions whose lines of two
or more items stay within the width, and which start a group where one is asked for, the one that is written
has fewest lines (`ListFrame.render_fewestLines`).

It is filling that never falls behind (`FillRule.length_fill_le`); what is shown here is that the lines of
any such division are lines of the rule. The pieces of the list can be cut where the division cuts the items
(`Division.exists_of_map`). If the marks take as many columns as bytes, what the rule asks of a line is what the
line takes (`filled_of_narrow`), and a piece that starts a group is never behind another on its line
(`ListFrame.not_forced_of_startsAt`).
-/

namespace DsiPanel

/-! ## Lines of the rule -/

theorem wrapRule_monotone (budget : Nat) : (wrapRule budget).Monotone where
  breaks := by
    intro used used' piece le ends
    simp only [wrapRule, Bool.and_eq_true, bne_iff_ne, Bool.or_eq_true, decide_eq_true_eq] at ends ⊢
    obtain ⟨started, cause⟩ := ends
    exact ⟨by omega, cause.imp id fun wide => by omega⟩
  grown := by
    intro used used' le piece
    simp only [wrapRule]
    split <;> split <;> omega
  fresh := by
    intro used piece
    simp only [wrapRule]
    split <;> omega

theorem le_grown (budget used : Nat) (p : Piece) : used ≤ (wrapRule budget).grown used p := by
  simp only [wrapRule]
  split <;> omega

/-- No piece ends a line that is narrow enough with all of its pieces, if none of them is asked to. -/
theorem unbroken_of_narrow {budget used : Nat} {rest : List Piece} (free : ∀ p ∈ rest, p.forced = false)
    (measured : ∀ p ∈ rest, textWidth p.text = p.demand)
    (narrow : rest ≠ [] → rest.foldl (wrapRule budget).grown used ≤ budget) :
    (wrapRule budget).Unbroken used rest := by
  refine (wrapRule budget).unbroken_of_le (le_grown budget) (fun p mem used here => ?_) narrow
  simp only [wrapRule] at here ⊢
  rw [free p mem, Bool.false_or, Bool.and_eq_false_iff, decide_eq_false_iff_not]
  by_cases started : used = 0
  · exact .inl (by rw [started]; rfl)
  · rw [if_neg started, measured p mem] at here
    exact .inr (Nat.not_lt_of_le (by omega))

theorem filled_of_narrow {budget : Nat} {line : List Piece} (free : ∀ p ∈ line.tail, p.forced = false)
    (measured : ∀ p ∈ line, textWidth p.text = p.demand)
    (narrow : 2 ≤ line.length → textWidth (lineText (line.map Piece.text)) ≤ budget) :
    (wrapRule budget).Filled line := by
  cases line with
  | nil => trivial
  | cons piece rest =>
    refine unbroken_of_narrow free (fun p mem => measured p (List.mem_cons_of_mem piece mem)) fun more => ?_
    have many : 2 ≤ (piece :: rest).length := Nat.succ_le_succ (List.length_pos_of_ne_nil more)
    have bound := narrow many
    rwa [textWidth_lineText budget] at bound

/-! ## Cuts of the pieces -/

/-- What starts a group has nothing before it in the group. -/
theorem StartsAt.eq_nil {α : Type} {front back : List (List α)} {left right : List α} {c : α}
    (h : StartsAt (front ++ (left ++ c :: right) :: back) (front.flatten.length + left.length)) :
    left = [] := by
  obtain ⟨before, group, after, cut, length⟩ := h
  rcases List.append_eq_append_iff.mp cut with ⟨as, rfl, tail⟩ | ⟨bs, rfl, -⟩
  · cases as with
    | nil =>
      rw [List.append_nil] at length
      exact List.eq_nil_of_length_eq_zero (by omega)
    | cons line as =>
      obtain ⟨rfl, -⟩ := List.cons.inj tail
      simp only [List.flatten_append, List.flatten_cons, List.length_append, List.length_cons] at length
      omega
  · rw [List.flatten_append, List.length_append] at length
    exact List.eq_nil_of_length_eq_zero (by omega)

namespace ListFrame

variable {frame : ListFrame} {force : Option Nat} {items : List String}

/-- In a cut that starts a line where one is asked for, no piece behind another one asks for it. -/
theorem not_forced_of_startsAt {cut : List (List Piece)} (h : Division (frame.pieces force items) cut)
    (starts : ∀ i, 0 < i → i < items.length → force = some i → StartsAt cut i) :
    ∀ line ∈ cut, ∀ p ∈ line.tail, p.forced = false := by
  intro line mem p own
  rw [Bool.eq_false_iff]
  intro asks
  obtain ⟨front, back, rfl⟩ := List.append_of_mem mem
  obtain ⟨piece, rest, rfl⟩ := List.exists_cons_of_ne_nil (h.ne_nil line mem)
  obtain ⟨left, right, rfl⟩ := List.append_of_mem own
  have place : (frame.pieces force items)[front.flatten.length + (piece :: left).length]? = some p := by
    rw [← h.flatten, List.flatten_append, List.flatten_cons, List.getElem?_append_right (Nat.le_add_right _ _),
      Nat.add_sub_cancel_left, List.cons_append, ← List.cons_append, ← List.cons_append, List.append_assoc,
      List.getElem?_append_right (Nat.le_refl _), Nat.sub_self]
    rfl
  have below : front.flatten.length + (piece :: left).length < items.length := by
    obtain ⟨bound, -⟩ := List.getElem?_eq_some_iff.mp place
    rwa [length_pieces] at bound
  have start := starts _ (by rw [List.length_cons]; omega) below ((forced_of_getElem? place).mp asks)
  exact List.cons_ne_nil piece left start.eq_nil

/-- The lines of pieces of a division that keeps the width are lines of the rule. -/
theorem filled_of_keepsWidth (separator : frame.separator ≠ "") (marks : frame.AsciiMarks) {width : Nat}
    {cut : List (List Piece)} (h : Division (frame.pieces force items) cut)
    (starts : ∀ i, 0 < i → i < items.length → force = some i → StartsAt cut i)
    (keeps : frame.KeepsWidth width (cut.map (List.map Piece.item))) :
    ∀ line ∈ cut, (wrapRule (width - textWidth frame.opening)).Filled line := by
  have division := h.map Piece.item
  rw [keepsWidth_iff division.ne_nil, ← map_text_of_cut h] at keeps
  intro line mem
  have own (p : Piece) (hp : p ∈ line) : p ∈ frame.pieces force items := by
    rw [← h.flatten]
    exact List.mem_flatten.mpr ⟨line, mem, hp⟩
  refine filled_of_narrow (not_forced_of_startsAt h starts line mem)
    (fun p hp => textWidth_eq_demand marks (own p hp)) fun many => ?_
  have narrow := keeps (line.map Piece.text) (List.mem_map_of_mem mem) (by rwa [List.length_map])
  rw [lineText_of_cut separator h mem]
  exact Nat.le_sub_of_add_le' narrow

end ListFrame

/-! ## The law -/

/-- A list that is too wide for one line takes as few lines as it can, if no text of it has a break and its
marks are plain characters: as few as any division of its items whose lines with two or more items stay
within the width and which starts a group at the item that is asked to start a line. -/
theorem ListFrame.render_fewestLines (frame : ListFrame) (items : List String)
    (plain : frame.Breakless items) (separator : frame.separator ≠ "") (marks : frame.AsciiMarks)
    (force : Option Nat) (width : Nat) (ne : items ≠ []) (wide : width < textWidth (frame.single items))
    (groups : List (List String)) (division : Division items groups)
    (starts : ∀ i, 0 < i → i < items.length → force = some i → StartsAt groups i)
    (keeps : frame.KeepsWidth width groups) :
    (textLines (frame.render force width items)).length ≤ groups.length := by
  rw [← frame.item_pieces force items] at division
  obtain ⟨cut, pieces, rfl⟩ := division.exists_of_map
  have filled := filled_of_keepsWidth separator marks pieces
    (fun i pos below asked => startsAt_map_iff.mp (starts i pos below asked)) keeps
  have fewest := FillRule.length_fill_le (wrapRule_monotone (width - textWidth frame.opening)) filled
  rw [pieces.flatten] at fewest
  rw [textLines_render_of_wide separator plain ne wide, length_lines, List.length_map]
  calc (frame.groups force width items).length = (frame.layout force width items).length := List.length_map _
    _ ≤ cut.length := fewest

/-- A call whose third argument is asked to start a line takes the two lines of a division that does so. -/
theorem ListFrame.render_fewestLines_forced :
    24 < textWidth (shortCall.single ["alpha", "beta", "gamma", "delta"]) ∧
    Division ["alpha", "beta", "gamma", "delta"] [["alpha", "beta"], ["gamma", "delta"]] ∧
    StartsAt [["alpha", "beta"], ["gamma", "delta"]] 2 ∧
    shortCall.KeepsWidth 24 [["alpha", "beta"], ["gamma", "delta"]] ∧
    (textLines (shortCall.render (some 2) 24 ["alpha", "beta", "gamma", "delta"])).length ≤ 2 := by
  have plain : shortCall.Breakless ["alpha", "beta", "gamma", "delta"] :=
    ⟨by decide, by decide, by decide, by decide⟩
  have wide : 24 < textWidth (shortCall.single ["alpha", "beta", "gamma", "delta"]) := by decide
  have division : Division ["alpha", "beta", "gamma", "delta"] [["alpha", "beta"], ["gamma", "delta"]] :=
    ⟨rfl, by decide⟩
  have start : StartsAt [["alpha", "beta"], ["gamma", "delta"]] 2 := ⟨[["alpha", "beta"]], _, [], rfl, rfl⟩
  have keeps : shortCall.KeepsWidth 24 [["alpha", "beta"], ["gamma", "delta"]] :=
    .cons (fun _ => by decide) (.cons (fun _ => by decide) .nil)
  refine ⟨wide, division, start, keeps, ?_⟩
  refine shortCall.render_fewestLines _ plain (by decide) ⟨by decide, by decide⟩ (some 2) 24 (by decide) wide _
    division (fun i _ _ asked => ?_) keeps
  cases asked
  exact start

end DsiPanel
