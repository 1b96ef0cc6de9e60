/-!
# Filling lines from the left

Both ways in which this library breaks lines are one rule: pieces are put on the line that is being
filled, and a piece starts a line of its own when a test on what is already used says so. A layout
is a cut of the pieces into lines, in order. What is measured and when a line ends are parameters;
the walk itself drops and reorders nothing (`fillFrom_flatten`).
-/

namespace DsiPanel

/-- The piece put at the front of the first line. -/
def ontoFirst {α : Type} (piece : α) : List (List α) → List (List α)
  | [] => [[piece]]
  | line :: lines => (piece :: line) :: lines

@[simp] theorem flatten_ontoFirst {α : Type} (piece : α) (lines : List (List α)) :
    (ontoFirst piece lines).flatten = piece :: lines.flatten := by
  cases lines <;> simp [ontoFirst]

/-- How a line grows. `breaks used piece` says that `piece` ends a line that has used `used`, and
`grown used piece` is what the line has used once `piece` is on it. -/
structure FillRule (α : Type) where
  breaks : Nat → α → Bool
  grown : Nat → α → Nat
  /-- What a line has used when `piece` is the first on it. -/
  fresh : α → Nat

/-- The lines of the pieces, where the first line of the answer continues one that has used
`used`. -/
def FillRule.fillFrom {α : Type} (rule : FillRule α) (used : Nat) : List α → List (List α)
  | [] => []
  | piece :: rest =>
    if rule.breaks used piece then
      [] :: ontoFirst piece (rule.fillFrom (rule.fresh piece) rest)
    else ontoFirst piece (rule.fillFrom (rule.grown used piece) rest)

/-- The lines of the pieces: the first piece opens the first line, whatever it measures. -/
def FillRule.fill {α : Type} (rule : FillRule α) : List α → List (List α)
  | [] => []
  | piece :: rest => ontoFirst piece (rule.fillFrom (rule.fresh piece) rest)

theorem FillRule.fillFrom_flatten {α : Type} (rule : FillRule α) (used : Nat) (pieces : List α) :
    (rule.fillFrom used pieces).flatten = pieces := by
  induction pieces generalizing used with
  | nil => rfl
  | cons piece rest ih =>
    unfold FillRule.fillFrom
    split <;> simp [ih]

/-- The lines hold the pieces in order, each once. -/
theorem FillRule.fill_flatten {α : Type} (rule : FillRule α) (pieces : List α) :
    (rule.fill pieces).flatten = pieces := by
  cases pieces with
  | nil => rfl
  | cons piece rest => simp [FillRule.fill, FillRule.fillFrom_flatten]

/-! ## No line is empty -/

theorem ne_nil_of_mem_ontoFirst {α : Type} {piece : α} {lines : List (List α)}
    (h : ∀ line ∈ lines.tail, line ≠ []) : ∀ line ∈ ontoFirst piece lines, line ≠ [] := by
  cases lines with
  | nil => simp [ontoFirst]
  | cons first rest => exact List.forall_mem_cons.mpr ⟨List.cons_ne_nil piece first, h⟩

/-- Only the line that is continued may get no piece. -/
theorem FillRule.fillFrom_tail_ne_nil {α : Type} (rule : FillRule α) (used : Nat) (pieces : List α) :
    ∀ line ∈ (rule.fillFrom used pieces).tail, line ≠ [] := by
  induction pieces generalizing used with
  | nil => simp [FillRule.fillFrom]
  | cons piece rest ih =>
    unfold FillRule.fillFrom
    split
    · exact ne_nil_of_mem_ontoFirst (ih _)
    · intro line hline
      exact ne_nil_of_mem_ontoFirst (ih _) line (List.mem_of_mem_tail hline)

/-- Every line has a piece. -/
theorem FillRule.fill_ne_nil {α : Type} (rule : FillRule α) (pieces : List α) :
    ∀ line ∈ rule.fill pieces, line ≠ [] := by
  cases pieces with
  | nil => simp [FillRule.fill]
  | cons piece rest => exact ne_nil_of_mem_ontoFirst (rule.fillFrom_tail_ne_nil _ rest)

end DsiPanel
