import DsiPanel.Proofs.Text.LineWidth

/-!
# Lists in groups

A wrapped list is its items in consecutive groups, one group on each line. This module reads the groups off
the lines of pieces and writes the text back in terms of them alone (`wrapped_eq_grouped`), so that nothing
but the places of the breaks is left of the way in which a list is filled.

**The law** (`ListFrame.render_divides`): a list that is wrapped is a division of its items, with the
separator, a line break and an indent between the groups. The indent is as wide as the opening, a space in
place of each break gives the list on one line, and the item that was asked to start a line does.

Items and marked items are cut at the same places as the pieces that they belong to, so the marks of each
group are told by the group and by whether others come after it (`map_text_of_cut`).
-/

namespace DsiPanel

/-! ## Divisions -/

/-- The groups are consecutive parts of the list, and none of them is empty. -/
structure Division {α : Type} (items : List α) (groups : List (List α)) : Prop where
  flatten : groups.flatten = items
  ne_nil : ∀ group ∈ groups, group ≠ []

/-- One of the groups starts at place `i` of the list that they divide. -/
def StartsAt {α : Type} (groups : List (List α)) (i : Nat) : Prop :=
  ∃ before group after, groups = before ++ group :: after ∧ before.flatten.length = i

section Division

variable {α β : Type}

theorem Division.groups_ne_nil {items : List α} {groups : List (List α)} (h : Division items groups)
    (ne : items ≠ []) : groups ≠ [] := by
  rintro rfl
  exact ne h.flatten.symm

theorem Division.map {items : List α} {groups : List (List α)} (h : Division items groups) (f : α → β) :
    Division (items.map f) (groups.map (List.map f)) where
  flatten := by rw [← List.map_flatten, h.flatten]
  ne_nil := by
    intro _ mem
    obtain ⟨group, own, rfl⟩ := List.mem_map.mp mem
    exact mt List.map_eq_nil_iff.mp (h.ne_nil group own)

/-- What things are made into can be divided only where the things can. -/
theorem Division.exists_of_map {f : α → β} {items : List α} {groups : List (List β)}
    (h : Division (items.map f) groups) :
    ∃ cut, Division items cut ∧ cut.map (List.map f) = groups := by
  obtain ⟨flatten, ne⟩ := h
  induction groups generalizing items with
  | nil => exact ⟨[], ⟨(List.map_eq_nil_iff.mp flatten.symm).symm, List.forall_mem_nil _⟩, rfl⟩
  | cons group groups ih =>
    obtain ⟨own, others⟩ := List.forall_mem_cons.mp ne
    rw [List.flatten_cons] at flatten
    obtain ⟨front, back, rfl, rfl, rest⟩ := List.map_eq_append_iff.mp flatten.symm
    obtain ⟨cut, division, rfl⟩ := ih rest.symm others
    refine ⟨front :: cut, ⟨?_, ?_⟩, rfl⟩
    · rw [List.flatten_cons, division.flatten]
    · exact List.forall_mem_cons.mpr ⟨mt List.map_eq_nil_iff.mpr own, division.ne_nil⟩

/-- Groups of what the things of a list are made into start where its groups do. -/
theorem startsAt_map_iff {f : α → β} {groups : List (List α)} {i : Nat} :
    StartsAt (groups.map (List.map f)) i ↔ StartsAt groups i := by
  have places (before : List (List α)) :
      (before.map (List.map f)).flatten.length = before.flatten.length := by
    rw [← List.map_flatten, List.length_map]
  constructor
  · rintro ⟨_, _, _, heq, rfl⟩
    obtain ⟨before, rest, rfl, rfl, tail⟩ := List.map_eq_append_iff.mp heq
    obtain ⟨group, after, rfl, rfl, rfl⟩ := List.map_eq_cons_iff.mp tail
    exact ⟨before, group, after, rfl, (places before).symm⟩
  · rintro ⟨before, group, after, rfl, rfl⟩
    refine ⟨before.map (List.map f), group.map f, after.map (List.map f), ?_, places before⟩
    rw [List.map_append, List.map_cons]

/-- What stands in no group behind the first place starts a group. -/
theorem startsAt_of_tails {p : α → Prop} {groups : List (List α)}
    (tails : ∀ group ∈ groups, ∀ x ∈ group.tail, ¬ p x) {i : Nat} {x : α}
    (here : groups.flatten[i]? = some x) (own : p x) : StartsAt groups i := by
  obtain ⟨below, rfl⟩ := List.getElem?_eq_some_iff.mp here
  have cut : groups.flatten = groups.flatten.take i ++ groups.flatten[i] :: groups.flatten.drop (i + 1) := by
    rw [← List.drop_eq_getElem_cons, List.take_append_drop]
  have length : (groups.flatten.take i).length = i := List.length_take_of_le (Nat.le_of_lt below)
  generalize groups.flatten[i] = x at cut own
  generalize groups.flatten.take i = front at cut length
  rcases List.flatten_eq_append_iff.mp cut with
    ⟨before, rest, rfl, rfl, whole⟩ | ⟨before, left, c, right, after, rfl, rfl, whole⟩
  · cases rest with
    | nil => cases whole
    | cons group after => exact ⟨before, group, after, rfl, length⟩
  · obtain ⟨rfl, -⟩ := List.cons.inj whole
    cases left with
    | nil => exact ⟨before, _, after, rfl, by rwa [List.append_nil] at length⟩
    | cons first left =>
      refine absurd own (tails _ (List.mem_append_right before List.mem_cons_self) x ?_)
      exact List.mem_append_right left List.mem_cons_self

end Division

/-! ## Groups of items -/

/-- Words with one gap between them all are an intercalation. -/
theorem Spaced.eq_intercalate {between : List Char} {words : List (List Char)} {text : List Char}
    (h : Spaced (· = between) words text) : text = between.intercalate words := by
  induction h with
  | last word => rw [List.intercalate_singleton]
  | next word same rest ih =>
    rw [same, ih]
    cases rest <;> rw [List.intercalate_cons_cons, List.append_assoc]

/-- The texts of a line have single spaces between them, if the first of them is not empty. -/
theorem lineText_eq_intercalate {text : String} {rest : List String} (h : rest ≠ [] → text ≠ "") :
    lineText (text :: rest) = String.intercalate " " (text :: rest) := by
  apply String.toList_inj.mp
  rw [String.toList_intercalate]
  exact (lineText_spaced h).eq_intercalate

/-- Parts that are put together and then put together with each other could be put together at once. -/
theorem intercalate_flatten {between : String} {groups : List (List String)}
    (ne : ∀ group ∈ groups, group ≠ []) :
    String.intercalate between (groups.map (String.intercalate between)) =
      String.intercalate between groups.flatten := by
  induction groups with
  | nil => rfl
  | cons group groups ih =>
    obtain ⟨own, others⟩ := List.forall_mem_cons.mp ne
    rw [List.map_cons, List.flatten_cons]
    cases groups with
    | nil => rw [List.map_nil, List.flatten_nil, List.append_nil, String.intercalate_singleton]
    | cons next groups =>
      have more : (next :: groups).flatten ≠ [] := by
        rw [List.flatten_cons]
        exact List.append_ne_nil_of_left_ne_nil (others next List.mem_cons_self) _
      rw [String.intercalate_append_of_ne_nil own more, ← ih others, List.map_cons,
        String.intercalate_cons_cons]

namespace ListFrame

variable (frame : ListFrame)

/-- The items of a group, with the separator and a space between neighbours. -/
def joined (group : List String) : String := String.intercalate (frame.separator ++ " ") group

/-- The list in groups, with `between` behind the separator after each group but the last. -/
def grouped (between : String) (groups : List (List String)) : String :=
  frame.opening ++ String.intercalate (frame.separator ++ between) (groups.map frame.joined) ++ frame.closing

/-- The items of each group with their marks: the closing after the very last item, and the separator
after every other one. -/
def markedGroups : List (List String) → List (List String)
  | [] => []
  | [group] => [frame.marked group]
  | group :: next :: rest => group.map (· ++ frame.separator) :: markedGroups (next :: rest)

variable {frame}

@[simp] theorem joined_singleton (item : String) : frame.joined [item] = item := String.intercalate_singleton

theorem joined_cons_cons (item next : String) (rest : List String) :
    frame.joined (item :: next :: rest) = item ++ frame.separator ++ " " ++ frame.joined (next :: rest) := by
  rw [joined, String.intercalate_cons_cons, ← String.append_assoc, joined]

theorem length_marked (items : List String) : (frame.marked items).length = items.length := by
  induction items with
  | nil => rfl
  | cons item rest ih =>
    cases rest with
    | nil => rfl
    | cons next rest => exact congrArg (· + 1) ih

theorem marked_append (items : List String) {others : List String} (ne : others ≠ []) :
    frame.marked (items ++ others) = items.map (· ++ frame.separator) ++ frame.marked others := by
  induction items with
  | nil => rfl
  | cons item rest ih =>
    obtain ⟨next, more, heq⟩ :=
      List.exists_cons_of_ne_nil (List.append_ne_nil_of_right_ne_nil rest ne)
    rw [List.cons_append, heq, marked, ← heq, ih, List.map_cons, List.cons_append]

theorem flatten_markedGroups {groups : List (List String)} (ne : ∀ group ∈ groups, group ≠ []) :
    (frame.markedGroups groups).flatten = frame.marked groups.flatten := by
  induction groups with
  | nil => rfl
  | cons group groups ih =>
    obtain ⟨-, others⟩ := List.forall_mem_cons.mp ne
    cases groups with
    | nil => rw [markedGroups, List.flatten_singleton, List.flatten_singleton]
    | cons next groups =>
      have more : (next :: groups).flatten ≠ [] := by
        rw [List.flatten_cons]
        exact List.append_ne_nil_of_left_ne_nil (others next List.mem_cons_self) _
      rw [markedGroups, List.flatten_cons, ih others, ← marked_append group more]
      rfl

theorem lengths_markedGroups (groups : List (List String)) :
    (frame.markedGroups groups).map List.length = groups.map List.length := by
  induction groups with
  | nil => rfl
  | cons group groups ih =>
    cases groups with
    | nil => rw [markedGroups, List.map_singleton, length_marked, List.map_singleton]
    | cons next groups => rw [markedGroups, List.map_cons, ih, List.length_map, ← List.map_cons]

/-- No group of marked items is empty where no group of items is. -/
theorem ne_nil_of_mem_markedGroups {groups : List (List String)} (ne : ∀ group ∈ groups, group ≠ []) :
    ∀ texts ∈ frame.markedGroups groups, texts ≠ [] := by
  rintro texts mem rfl
  have none : 0 ∈ groups.map List.length :=
    frame.lengths_markedGroups groups ▸ List.mem_map.mpr ⟨[], mem, rfl⟩
  obtain ⟨group, own, empty⟩ := List.mem_map.mp none
  exact ne group own (List.length_eq_zero_iff.mp empty)

theorem intercalate_marked {items : List String} (ne : items ≠ []) :
    String.intercalate " " (frame.marked items) = frame.joined items ++ frame.closing := by
  induction items with
  | nil => exact absurd rfl ne
  | cons item rest ih =>
    cases rest with
    | nil => rw [marked, joined_singleton, String.intercalate_singleton]
    | cons next rest =>
      have more := List.cons_ne_nil next rest
      rw [marked, String.intercalate_cons_of_ne_nil (marked_ne_nil more), ih more, joined_cons_cons]
      simp only [String.append_assoc]

theorem intercalate_separated {items : List String} (ne : items ≠ []) :
    String.intercalate " " (items.map (· ++ frame.separator)) = frame.joined items ++ frame.separator := by
  induction items with
  | nil => exact absurd rfl ne
  | cons item rest ih =>
    cases rest with
    | nil => rw [List.map_singleton, joined_singleton, String.intercalate_singleton]
    | cons next rest =>
      rw [List.map_cons, String.intercalate_cons_of_ne_nil (mt List.map_eq_nil_iff.mp (List.cons_ne_nil _ _)),
        ih (List.cons_ne_nil next rest), joined_cons_cons]
      simp only [String.append_assoc]

/-- Marked groups with something between them are the groups in a list. -/
theorem grouped_eq_marked (between : String) {groups : List (List String)} (ne : groups ≠ [])
    (each : ∀ group ∈ groups, group ≠ []) :
    frame.grouped between groups = frame.opening ++
      String.intercalate between ((frame.markedGroups groups).map (String.intercalate " ")) := by
  have general : String.intercalate between ((frame.markedGroups groups).map (String.intercalate " ")) =
      String.intercalate (frame.separator ++ between) (groups.map frame.joined) ++ frame.closing := by
    induction groups with
    | nil => exact absurd rfl ne
    | cons group groups ih =>
      obtain ⟨own, others⟩ := List.forall_mem_cons.mp each
      cases groups with
      | nil =>
        simp only [markedGroups, List.map_singleton, String.intercalate_singleton, intercalate_marked own]
      | cons next groups =>
        have tail := ih (List.cons_ne_nil next groups) others
        have more : (frame.markedGroups (next :: groups)).map (String.intercalate " ") ≠ [] := by
          refine mt List.map_eq_nil_iff.mp fun none => ?_
          have lengths := frame.lengths_markedGroups (next :: groups)
          rw [none] at lengths
          cases lengths
        rw [markedGroups, List.map_cons, String.intercalate_cons_of_ne_nil more, tail,
          intercalate_separated own, List.map_cons, List.map_cons, List.map_cons,
          String.intercalate_cons_cons]
        simp only [String.append_assoc]
  rw [general, grouped, String.append_assoc]

/-- Groups with a space between them are the list on one line. -/
theorem grouped_space {items : List String} {groups : List (List String)} (h : Division items groups) :
    frame.grouped " " groups = frame.single items := by
  have groupsJoined : groups.map frame.joined = groups.map (String.intercalate (frame.separator ++ " ")) := rfl
  rw [grouped, groupsJoined, intercalate_flatten h.ne_nil, h.flatten, single]

end ListFrame

/-! ## Groups of pieces -/

namespace ListFrame

variable {frame : ListFrame}

theorem item_pieces (force : Option Nat) (items : List String) :
    (frame.pieces force items).map Piece.item = items := by
  have items' : Piece.item ∘ (fun entry : String × Nat =>
      { item := entry.1
        mark := if entry.2 + 1 = items.length then frame.closing else frame.separator
        forced := force = some entry.2 : Piece }) = Prod.fst := rfl
  rw [pieces, List.map_map]
  exact items' ▸ List.zipIdx_map_fst 0 items

theorem length_pieces (frame : ListFrame) (force : Option Nat) (items : List String) :
    (frame.pieces force items).length = items.length := by
  rw [← List.length_map Piece.item, item_pieces]

/-- Which pieces are asked to start a line. -/
theorem forced_of_getElem? {force : Option Nat} {items : List String} {i : Nat} {p : Piece}
    (here : (frame.pieces force items)[i]? = some p) : p.forced = true ↔ force = some i := by
  rw [pieces, List.getElem?_map, List.getElem?_zipIdx, Option.map_map, Option.map_eq_some_iff] at here
  obtain ⟨item, -, rfl⟩ := here
  simp only [Function.comp_apply, Nat.zero_add, decide_eq_true_eq]

/-- On a line that has text, the piece that is asked to start a line does not follow another. -/
theorem not_forced_of_unbroken {budget used : Nat} {rest : List Piece}
    (h : (wrapRule budget).Unbroken used rest) (started : used ≠ 0) : ∀ p ∈ rest, ¬ p.forced = true := by
  induction rest generalizing used with
  | nil => exact List.forall_mem_nil _
  | cons p rest ih =>
    obtain ⟨stays, later⟩ := h
    have free : p.forced = false := by
      simp only [wrapRule, bne_iff_ne.mpr started, Bool.true_and, Bool.or_eq_false_iff] at stays
      exact stays.1
    have grown : (wrapRule budget).grown used p = used + 1 + textWidth p.text := if_neg started
    exact List.forall_mem_cons.mpr ⟨Bool.eq_false_iff.mp free, ih later (by omega)⟩

/-- Wherever the pieces of a list are cut, the marked items are cut there too. -/
theorem map_text_of_cut {force : Option Nat} {items : List String} {cut : List (List Piece)}
    (h : Division (frame.pieces force items) cut) :
    cut.map (List.map Piece.text) = frame.markedGroups (cut.map (List.map Piece.item)) := by
  have items' := h.map Piece.item
  rw [item_pieces] at items'
  refine List.eq_iff_flatten_eq.mpr ⟨?_, ?_⟩
  · rw [← List.map_flatten, h.flatten, frame.text_pieces, flatten_markedGroups items'.ne_nil, items'.flatten]
  · rw [lengths_markedGroups]
    simp only [List.map_map, Function.comp_def, List.length_map]

/-- The text of each line of a cut is that of its pieces with spaces between them. -/
theorem lineText_of_cut (marks : frame.separator ≠ "") {force : Option Nat} {items : List String}
    {cut : List (List Piece)} (h : Division (frame.pieces force items) cut) {line : List Piece}
    (mem : line ∈ cut) : lineText (line.map Piece.text) = String.intercalate " " (line.map Piece.text) := by
  obtain ⟨piece, rest, rfl⟩ := List.exists_cons_of_ne_nil (h.ne_nil line mem)
  have first : rest.map Piece.text ≠ [] → piece.text ≠ "" :=
    fun more => text_ne_empty_of_cut marks h.flatten mem (mt (congrArg (List.map Piece.text)) more)
  exact lineText_eq_intercalate first

section Layout

variable (frame) (force : Option Nat) (width : Nat) (items : List String)

/-- The items on each line of the wrapped list. -/
def groups : List (List String) := (frame.layout force width items).map (List.map Piece.item)

/-- The lines are a cut of the pieces. -/
theorem layout_division : Division (frame.pieces force items) (frame.layout force width items) :=
  ⟨layout_flatten frame force width items, FillRule.fill_ne_nil _ _⟩

theorem groups_division : Division items (frame.groups force width items) := by
  have cut := (frame.layout_division force width items).map Piece.item
  rwa [item_pieces] at cut

theorem map_text_layout :
    (frame.layout force width items).map (List.map Piece.text) =
      frame.markedGroups (frame.groups force width items) :=
  map_text_of_cut (frame.layout_division force width items)

variable {frame items}

/-- The wrapped list is its groups with a break and the indent between them. -/
theorem wrapped_eq_grouped (marks : frame.separator ≠ "") (ne : items ≠ []) :
    frame.wrapped force width items =
      frame.grouped ("\n" ++ indentTo (textWidth frame.opening)) (frame.groups force width items) := by
  have division := frame.groups_division force width items
  have lines : (frame.layout force width items).map (fun line => lineText (line.map Piece.text)) =
      (frame.markedGroups (frame.groups force width items)).map (String.intercalate " ") := by
    rw [← frame.map_text_layout force width items, List.map_map]
    exact List.map_congr_left fun line mem =>
      lineText_of_cut marks (frame.layout_division force width items) mem
  rw [wrapped, lines, grouped_eq_marked _ (division.groups_ne_nil ne) division.ne_nil]

/-- A list without items, or one that fits, stands on one line. -/
theorem render_of_fits (fits : items = [] ∨ textWidth (frame.single items) ≤ width) :
    frame.render force width items = frame.single items := by
  refine if_pos ?_
  rwa [Bool.or_eq_true, List.isEmpty_iff, decide_eq_true_eq]

/-- Every other list is its groups. -/
theorem render_of_wide (marks : frame.separator ≠ "") (ne : items ≠ [])
    (wide : width < textWidth (frame.single items)) :
    frame.render force width items =
      frame.grouped ("\n" ++ indentTo (textWidth frame.opening)) (frame.groups force width items) := by
  rw [← wrapped_eq_grouped force width marks ne]
  refine if_neg ?_
  rw [Bool.or_eq_true, List.isEmpty_iff, decide_eq_true_eq, not_or, Nat.not_le]
  exact ⟨ne, wide⟩

/-- The item at the place that is asked for starts a group. -/
theorem groups_startsAt (marks : frame.separator ≠ "") {i : Nat} (below : i < items.length)
    (asked : force = some i) : StartsAt (frame.groups force width items) i := by
  refine startsAt_map_iff.mpr ?_
  rw [← frame.length_pieces force items] at below
  obtain ⟨p, here⟩ : ∃ p, (frame.pieces force items)[i]? = some p := ⟨_, List.getElem?_eq_getElem below⟩
  have own := (forced_of_getElem? here).mpr asked
  rw [← layout_flatten frame force width items] at here
  refine startsAt_of_tails (p := fun p => p.forced = true) (fun line mem => ?_) here own
  obtain ⟨piece, rest, rfl⟩ := List.exists_cons_of_ne_nil (FillRule.fill_ne_nil _ _ line mem)
  by_cases alone : rest = []
  · rw [alone]
    exact List.forall_mem_nil _
  · have started : textWidth piece.text ≠ 0 :=
      mt textWidth_eq_zero_iff.mp (layout_text_ne_empty marks mem alone)
    exact not_forced_of_unbroken (FillRule.filled_of_mem_fill _ mem) started

end Layout

end ListFrame

/-! ## The law -/

/-- What a list looks like. It stands on one line if it has no item or fits. Otherwise its items are divided
into groups, which stand after the opening with the separator, a break and the indent behind each but the
last, and the closing behind that. A space in place of the breaks gives the one line, and the item that was
asked to start a line starts a group. -/
theorem ListFrame.render_divides (frame : ListFrame) (separator : frame.separator ≠ "") (force : Option Nat)
    (width : Nat) (items : List String) :
    ∃ indent : String,
      indent.toList = List.replicate (textWidth frame.opening / 8) '\t' ++
        List.replicate (textWidth frame.opening % 8) ' ' ∧
      textWidth indent = textWidth frame.opening ∧
      (items = [] ∨ textWidth (frame.single items) ≤ width →
        frame.render force width items = frame.single items) ∧
      (items ≠ [] → width < textWidth (frame.single items) →
        ∃ groups, Division items groups ∧
          frame.render force width items = frame.grouped ("\n" ++ indent) groups ∧
          frame.grouped " " groups = frame.single items ∧
          ∀ i < items.length, force = some i → StartsAt groups i) := by
  refine ⟨indentTo (textWidth frame.opening), String.toList_ofList, textWidth_indentTo _,
    render_of_fits force width, fun ne wide => ?_⟩
  have division := frame.groups_division force width items
  exact ⟨frame.groups force width items, division, render_of_wide force width separator ne wide,
    frame.grouped_space division, fun i below asked => frame.groups_startsAt force width separator below asked⟩

/-- The frame of a call whose head takes ten columns. -/
def shortCall : ListFrame := { opening := "\tf(", separator := ",", closing := ");" }

/-- A call of four arguments, of which the third is empty and asked to start a line. -/
theorem ListFrame.render_divides_forced :
    ∃ groups, Division ["alpha", "beta", "", "delta"] groups ∧
      shortCall.render (some 2) 20 ["alpha", "beta", "", "delta"] = shortCall.grouped "\n\t  " groups ∧
      StartsAt groups 2 := by
  obtain ⟨indent, chars, -, -, wraps⟩ :=
    shortCall.render_divides (by decide) (some 2) 20 ["alpha", "beta", "", "delta"]
  obtain ⟨groups, division, text, -, starts⟩ := wraps (by decide) (by decide)
  have column : indent = "\t  " := String.toList_inj.mp chars
  subst column
  exact ⟨groups, division, text, starts 2 (by decide) rfl⟩

end DsiPanel
