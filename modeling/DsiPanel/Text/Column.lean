/-!
# Columns

Driver text is measured in columns: a tab counts as eight, wherever it stands, and every other
character as one. A column is reached again on the next line by tabs first and single spaces for
what is left, so an indent has exactly the width that it stands for.
-/

namespace DsiPanel

/-- The columns that one character takes. -/
def columns (c : Char) : Nat := if c = '\t' then 8 else 1

def charsWidth (cs : List Char) : Nat := cs.foldr (fun c width => columns c + width) 0

def textWidth (s : String) : Nat := charsWidth s.toList

/-- Blank text up to column `column`: tabs first, then spaces for the rest. -/
def indentTo (column : Nat) : String :=
  String.ofList (List.replicate (column / 8) '\t' ++ List.replicate (column % 8) ' ')

/-! ## Widths of parts -/

@[simp] theorem charsWidth_nil : charsWidth [] = 0 := rfl

@[simp] theorem charsWidth_cons (c : Char) (cs : List Char) :
    charsWidth (c :: cs) = columns c + charsWidth cs := rfl

@[simp] theorem charsWidth_append (cs ds : List Char) :
    charsWidth (cs ++ ds) = charsWidth cs + charsWidth ds := by
  induction cs with
  | nil => simp
  | cons c cs ih => simp only [List.cons_append, charsWidth_cons, ih, Nat.add_assoc]

@[simp] theorem charsWidth_replicate (n : Nat) (c : Char) :
    charsWidth (List.replicate n c) = n * columns c := by
  induction n with
  | zero => simp
  | succ n ih => simp only [List.replicate_succ, charsWidth_cons, ih, Nat.succ_mul, Nat.add_comm]

@[simp] theorem textWidth_append (s t : String) : textWidth (s ++ t) = textWidth s + textWidth t := by
  simp [textWidth]

/-- An indent is as wide as the column it reaches. -/
theorem textWidth_indentTo (column : Nat) : textWidth (indentTo column) = column := by
  simp [textWidth, indentTo, columns]
  omega

end DsiPanel
