import DsiPanel.Proofs.Text.LineWidth

/-!
# Lines are filled as far as they go

Filling puts a piece on a new line only where the rule says so, which leaves three things to say about the
lines. A line ends only at a piece that it could not take (`FillRule.isChain_fill`). One more piece at the end
moves nothing before it, so filling may as well go from piece to piece (`FillRule.fill_concat`). And where a
line that has used less takes at least as much (`FillRule.Monotone`), no other cut of the pieces into lines of
the rule has fewer lines (`FillRule.length_fill_le`).

The last law is the usual race: put beside the lines of another cut, the filled ones are never more than
one line behind, and not behind at all where they have used no more (`FillRule.begun_append_le`).
-/

namespace DsiPanel.FillRule

variable {α : Type} (rule : FillRule α)

/-! ## Where a line ends -/

/-- What a line has used once its pieces are on it. -/
def used : List α → Nat
  | [] => 0
  | piece :: rest => rest.foldl rule.grown (rule.fresh piece)

/-- The line ended since it could not take the first piece of the next. -/
def EndsBefore (line next : List α) : Prop :=
  ∀ piece ∈ next.head?, rule.breaks (rule.used line) piece = true

theorem used_concat {line : List α} (ne : line ≠ []) (piece : α) :
    rule.used (line ++ [piece]) = rule.grown (rule.used line) piece := by
  obtain ⟨first, rest, rfl⟩ := List.exists_cons_of_ne_nil ne
  simp only [used, List.cons_append, List.foldl_append, List.foldl_cons, List.foldl_nil]

/-- The lines that go on from a line end where they must. -/
theorem isChain_fillFrom {line : List α} (ne : line ≠ []) (pieces : List α) :
    ((line ++ (rule.fillFrom (rule.used line) pieces).headD []) ::
      (rule.fillFrom (rule.used line) pieces).tail).IsChain rule.EndsBefore := by
  induction pieces generalizing line with
  | nil => exact .singleton _
  | cons piece rest ih =>
    unfold fillFrom
    split
    next ends =>
      have next := ih (List.cons_ne_nil piece [])
      have here : rule.EndsBefore line (piece :: (rule.fillFrom (rule.fresh piece) rest).headD []) := by
        intro first own
        cases own
        exact ends
      rw [ontoFirst_eq, List.headD_cons, List.append_nil]
      exact List.isChain_cons_cons.mpr ⟨here, next⟩
    next =>
      have more := ih (List.append_ne_nil_of_left_ne_nil ne [piece])
      rw [rule.used_concat ne, List.append_assoc] at more
      rw [ontoFirst_eq]
      exact more

/-- A line ends only at a piece that it could not take. -/
theorem isChain_fill (pieces : List α) : (rule.fill pieces).IsChain rule.EndsBefore := by
  cases pieces with
  | nil => exact .nil
  | cons piece rest =>
    rw [fill, ontoFirst_eq]
    exact rule.isChain_fillFrom (List.cons_ne_nil piece []) rest

/-! ## Piece by piece -/

/-- A piece more at the end is put on the last line or on one of its own, and nothing before it moves. -/
theorem fillFrom_concat {line : List α} (ne : line ≠ []) (pieces : List α) (piece : α) :
    ∃ before last, last ≠ [] ∧
      (line ++ (rule.fillFrom (rule.used line) pieces).headD []) ::
        (rule.fillFrom (rule.used line) pieces).tail = before ++ [last] ∧
      (line ++ (rule.fillFrom (rule.used line) (pieces ++ [piece])).headD []) ::
        (rule.fillFrom (rule.used line) (pieces ++ [piece])).tail =
          if rule.breaks (rule.used last) piece then before ++ [last, [piece]]
          else before ++ [last ++ [piece]] := by
  induction pieces generalizing line with
  | nil =>
    refine ⟨[], line, ne, ?_, ?_⟩
    · rw [fillFrom, List.headD_nil, List.append_nil]
      rfl
    · rw [List.nil_append, fillFrom]
      split
      · exact congrArg (· :: [[piece]]) (List.append_nil line)
      · rfl
  | cons own rest ih =>
    rw [List.cons_append]
    unfold fillFrom
    split
    next =>
      obtain ⟨before, last, some, lines, longer⟩ := ih (List.cons_ne_nil own [])
      refine ⟨line :: before, last, some, ?_, ?_⟩
      · rw [ontoFirst_eq, List.headD_cons, List.append_nil, List.cons_append, ← lines]
        rfl
      · rw [ontoFirst_eq, List.headD_cons, List.append_nil, List.cons_append, List.cons_append]
        exact (congrArg (line :: ·) longer).trans (apply_ite (line :: ·) _ _ _)
    next =>
      have more := ih (List.append_ne_nil_of_left_ne_nil ne [own])
      rw [rule.used_concat ne, List.append_assoc, List.append_assoc] at more
      rw [ontoFirst_eq, ontoFirst_eq]
      exact more

/-- Filling goes piece by piece: one more piece is put on the last line or on a line of its own. -/
theorem fill_concat {pieces : List α} (ne : pieces ≠ []) (piece : α) :
    ∃ before last, last ≠ [] ∧ rule.fill pieces = before ++ [last] ∧
      rule.fill (pieces ++ [piece]) =
        if rule.breaks (rule.used last) piece then before ++ [last, [piece]]
        else before ++ [last ++ [piece]] := by
  obtain ⟨first, rest, rfl⟩ := List.exists_cons_of_ne_nil ne
  rw [List.cons_append, fill, fill, ontoFirst_eq, ontoFirst_eq]
  exact rule.fillFrom_concat (List.cons_ne_nil first []) rest piece

/-! ## How many lines there are -/

/-- A line that has used less takes every piece that one takes which has used more. -/
structure Monotone : Prop where
  breaks {used used' : Nat} {piece : α} (le : used ≤ used') (ends : rule.breaks used piece = true) :
    rule.breaks used' piece = true
  grown {used used' : Nat} (le : used ≤ used') (piece : α) : rule.grown used piece ≤ rule.grown used' piece
  /-- A piece uses most of a line on which others stand. -/
  fresh (used : Nat) (piece : α) : rule.fresh piece ≤ rule.grown used piece

/-- A line on which no piece takes back anything only grows. -/
theorem le_foldl_grown (grows : ∀ used piece, used ≤ rule.grown used piece) (used : Nat) (rest : List α) :
    used ≤ rest.foldl rule.grown used := by
  induction rest generalizing used with
  | nil => exact Nat.le_refl used
  | cons piece rest ih => exact (grows used piece).trans (ih _)

/-- No piece ends a line that stays within `width` with all of its pieces, if none ends one that stays within it
with this piece. -/
theorem unbroken_of_le (grows : ∀ used piece, used ≤ rule.grown used piece) {width used : Nat} {rest : List α}
    (stays : ∀ piece ∈ rest, ∀ used, rule.grown used piece ≤ width → rule.breaks used piece = false)
    (narrow : rest ≠ [] → rest.foldl rule.grown used ≤ width) : rule.Unbroken used rest := by
  induction rest generalizing used with
  | nil => trivial
  | cons piece rest ih =>
    obtain ⟨own, others⟩ := List.forall_mem_cons.mp stays
    have whole : rest.foldl rule.grown (rule.grown used piece) ≤ width := narrow (List.cons_ne_nil piece rest)
    exact ⟨own used ((rule.le_foldl_grown grows _ rest).trans whole), ih others fun _ => whole⟩

/-- The lines that the pieces begin, if they go on from one that has used `used`. -/
def begun (used : Nat) (pieces : List α) : Nat := (rule.fillFrom used pieces).tail.length

theorem begun_of_breaks {used : Nat} {piece : α} (ends : rule.breaks used piece = true) (rest : List α) :
    rule.begun used (piece :: rest) = rule.begun (rule.fresh piece) rest + 1 := by
  rw [begun, fillFrom, if_pos ends, ontoFirst_eq]
  rfl

theorem begun_of_stays {used : Nat} {piece : α} (stays : rule.breaks used piece = false) (rest : List α) :
    rule.begun used (piece :: rest) = rule.begun (rule.grown used piece) rest := by
  rw [begun, fillFrom, if_neg (Bool.eq_false_iff.mp stays), ontoFirst_eq]
  rfl

theorem length_fill_cons (piece : α) (rest : List α) :
    (rule.fill (piece :: rest)).length = rule.begun (rule.fresh piece) rest + 1 := by
  rw [fill, ontoFirst_eq]
  rfl

variable {rule}

/-- Beside a line that takes all of the `first` pieces, filling falls at most one line behind, and only if
it has used more to begin with. -/
theorem begun_append_le (monotone : rule.Monotone) {after : List α} {count : Nat}
    (bound : ∀ used, rule.begun used after ≤ count) {used used' : Nat} {first : List α}
    (takes : rule.Unbroken used' first) :
    rule.begun used (first ++ after) ≤ count + 1 ∧
      (used ≤ used' → rule.begun used (first ++ after) ≤ count) := by
  induction first generalizing used used' with
  | nil => exact ⟨Nat.le_succ_of_le (bound used), fun _ => bound used⟩
  | cons piece first ih =>
    obtain ⟨own, others⟩ := takes
    rw [List.cons_append]
    cases here : rule.breaks used piece with
    | true =>
      -- The new line has used no more than the other one, which has the piece behind others.
      have level := (ih others).2 (monotone.fresh used' piece)
      rw [rule.begun_of_breaks here]
      refine ⟨Nat.succ_le_succ level, fun le => ?_⟩
      exact absurd (monotone.breaks le here) (Bool.eq_false_iff.mp own)
    | false =>
      obtain ⟨behind, level⟩ := @ih (rule.grown used piece) _ others
      rw [rule.begun_of_stays here]
      exact ⟨behind, fun le => level (monotone.grown le piece)⟩

/-- Whatever a line has used, the pieces of other lines begin no more lines than these are. -/
theorem begun_flatten_le (monotone : rule.Monotone) {lines : List (List α)}
    (filled : ∀ line ∈ lines, rule.Filled line) (used : Nat) :
    rule.begun used lines.flatten ≤ lines.length := by
  induction lines generalizing used with
  | nil => exact Nat.le_refl 0
  | cons line lines ih =>
    obtain ⟨own, others⟩ := List.forall_mem_cons.mp filled
    have bound := ih others
    rw [List.flatten_cons, List.length_cons]
    cases line with
    | nil => exact Nat.le_succ_of_le (bound used)
    | cons piece rest =>
      have race (used : Nat) := @begun_append_le _ _ monotone _ _ bound used _ rest own
      rw [List.cons_append]
      cases here : rule.breaks used piece with
      | true =>
        rw [rule.begun_of_breaks here]
        exact Nat.succ_le_succ ((race _).2 (Nat.le_refl _))
      | false =>
        rw [rule.begun_of_stays here]
        exact (race _).1

/-- No cut of the pieces into lines of the rule has fewer lines than filling makes. -/
theorem length_fill_le (monotone : rule.Monotone) {lines : List (List α)}
    (filled : ∀ line ∈ lines, rule.Filled line) : (rule.fill lines.flatten).length ≤ lines.length := by
  induction lines with
  | nil => exact Nat.le_refl 0
  | cons line lines ih =>
    obtain ⟨own, others⟩ := List.forall_mem_cons.mp filled
    cases line with
    | nil => exact Nat.le_succ_of_le (ih others)
    | cons piece rest =>
      rw [List.flatten_cons, List.cons_append, rule.length_fill_cons, List.length_cons]
      have level := (begun_append_le monotone (begun_flatten_le monotone others) own).2 (Nat.le_refl _)
      exact Nat.succ_le_succ level

end DsiPanel.FillRule
