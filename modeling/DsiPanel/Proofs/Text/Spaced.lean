import DsiPanel.Text.Blank

/-!
# Words with gaps between them

Wrapped text and text on one line differ only in what stands between their words. A text is spaced
out of words (`Spaced`) when it is the words in order with a gap between neighbours; which gaps may
stand there is a parameter. Two things can then be read off the words alone, whatever the gaps: the
text without its blanks (`Spaced.unspaced_eq`), and where a pattern occurs that no gap can belong
to (`Spaced.infix_iff`).
-/

namespace DsiPanel

/-- The text is the words in order, with a gap between neighbours. -/
inductive Spaced (gap : List Char → Prop) : List (List Char) → List Char → Prop
  | last (word : List Char) : Spaced gap [word] word
  | next {words : List (List Char)} {text between : List Char} (word : List Char)
      (allowed : gap between) (rest : Spaced gap words text) :
      Spaced gap (word :: words) (word ++ (between ++ text))

namespace Spaced

variable {gap : List Char → Prop} {words others : List (List Char)} {text other : List Char}

/-- Two texts with a gap between them are spaced out of the words of both. -/
theorem append {between : List Char} (h : Spaced gap words text) (allowed : gap between)
    (h' : Spaced gap others other) : Spaced gap (words ++ others) (text ++ (between ++ other)) := by
  induction h with
  | last word => exact .next word allowed h'
  | next word first _ ih =>
    rw [List.append_assoc, List.append_assoc]
    exact .next word first ih

/-- More gaps may be allowed than the text has. -/
theorem mono {gap' : List Char → Prop} (wider : ∀ between, gap between → gap' between)
    (h : Spaced gap words text) : Spaced gap' words text := by
  induction h with
  | last word => exact .last word
  | next word allowed _ ih => exact .next word (wider _ allowed) ih

/-- Text put before the first word becomes part of it. -/
theorem glue {word : List Char} (before : List Char) (h : Spaced gap (word :: words) text) :
    Spaced gap ((before ++ word) :: words) (before ++ text) := by
  cases h with
  | last => exact .last _
  | next _ allowed rest =>
    rw [← List.append_assoc]
    exact .next _ allowed rest

/-- A first word with a gap inside counts as two. -/
theorem split {word next between : List Char} (allowed : gap between)
    (h : Spaced gap ((word ++ (between ++ next)) :: words) text) :
    Spaced gap (word :: next :: words) text := by
  cases h with
  | last => exact .next word allowed (.last next)
  | next _ further rest =>
    rw [List.append_assoc, List.append_assoc]
    exact .next word allowed (.next next further rest)

end Spaced

/-- Not empty, and blank throughout. -/
def BlankRun (cs : List Char) : Prop := cs ≠ [] ∧ ∀ c ∈ cs, isBlank c = true

/-! ## Text without its blanks -/

/-- The characters that are not blank. -/
def unspaced (cs : List Char) : List Char := cs.filter fun c => !isBlank c

@[simp] theorem unspaced_nil : unspaced [] = [] := rfl

@[simp] theorem unspaced_append (cs ds : List Char) : unspaced (cs ++ ds) = unspaced cs ++ unspaced ds :=
  List.filter_append cs ds

theorem unspaced_of_blank {cs : List Char} (h : ∀ c ∈ cs, isBlank c = true) : unspaced cs = [] := by
  refine List.filter_eq_nil_iff.mpr fun c hc => ?_
  rw [h c hc]
  decide

theorem unspaced_of_forall {cs : List Char} (h : ∀ c ∈ cs, isBlank c = false) : unspaced cs = cs := by
  refine List.filter_eq_self.mpr fun c hc => ?_
  rw [h c hc]
  rfl

/-- Without its blanks a text is its words, one after another. -/
theorem Spaced.unspaced_eq {words : List (List Char)} {text : List Char}
    (h : Spaced BlankRun words text) : unspaced text = words.flatMap unspaced := by
  induction h with
  | last word => rw [List.flatMap_singleton]
  | next word blank _ ih =>
    rw [unspaced_append, unspaced_append, unspaced_of_blank blank.2, ih, List.nil_append,
      List.flatMap_cons]

/-! ## Where a pattern occurs -/

section Infix

variable {α : Type} {pattern before after : List α}

/-- A pattern stands on one side of a mark that is not part of it. -/
theorem infix_append_cons_iff {mark : α} (ne : pattern ≠ []) (clear : mark ∉ pattern) :
    pattern <:+: before ++ mark :: after ↔ pattern <:+: before ∨ pattern <:+: after := by
  rw [List.infix_append_iff, List.infix_cons_iff]
  have notHere {part : List α} (sub : ∀ c ∈ part, c ∈ pattern) (h : part <+: mark :: after) :
      part = [] := by
    cases part with
    | nil => rfl
    | cons c part =>
      obtain ⟨rfl, _⟩ := List.cons_prefix_cons.mp h
      exact absurd (sub c List.mem_cons_self) clear
  constructor
  · rintro (left | (here | right) | ⟨part, rest, rfl, left, right⟩)
    · exact .inl left
    · exact absurd (notHere (fun _ h => h) here) ne
    · exact .inr right
    · have none := notHere (fun c hc => List.mem_append_right part hc) right
      rw [none, List.append_nil]
      exact .inl left.isInfix
  · rintro (left | right)
    · exact .inl left
    · exact .inr (.inl (.inr right))

/-- A mark at the front does not help a pattern that does not have it. -/
theorem infix_mark_cons_iff {mark : α} (ne : pattern ≠ []) (clear : mark ∉ pattern) :
    pattern <:+: mark :: after ↔ pattern <:+: after := by
  have none : ¬ pattern <:+: [] := fun h => ne (List.infix_nil.mp h)
  have split := @infix_append_cons_iff _ _ [] after mark ne clear
  rw [List.nil_append] at split
  rw [split]
  simp only [none, false_or]

/-- Nor does a run of such marks at the front. -/
theorem infix_append_left_iff {run : List α} (ne : pattern ≠ []) (clear : ∀ c ∈ run, c ∉ pattern) :
    pattern <:+: run ++ after ↔ pattern <:+: after := by
  induction run with
  | nil => rw [List.nil_append]
  | cons mark run ih =>
    obtain ⟨first, others⟩ := List.forall_mem_cons.mp clear
    rw [List.cons_append, infix_mark_cons_iff ne first, ih others]

/-- A pattern stands on one side of a run of marks none of which is part of it. -/
theorem infix_append_run_iff {run : List α} (ne : pattern ≠ []) (clear : ∀ c ∈ run, c ∉ pattern)
    (more : run ≠ []) :
    pattern <:+: before ++ (run ++ after) ↔ pattern <:+: before ∨ pattern <:+: after := by
  induction run generalizing before with
  | nil => exact absurd rfl more
  | cons mark run ih =>
    rw [List.cons_append, infix_append_cons_iff ne (clear mark List.mem_cons_self)]
    cases run with
    | nil => rw [List.nil_append]
    | cons next run =>
      have rest := @ih [] (fun c hc => clear c (List.mem_cons_of_mem mark hc))
        (List.cons_ne_nil next run)
      have none : ¬ pattern <:+: [] := fun h => ne (List.infix_nil.mp h)
      rw [List.nil_append] at rest
      rw [rest]
      simp only [none, false_or]

/-- A run of marks at the end does not help a pattern that has none of them. -/
theorem infix_append_right_iff {run : List α} (ne : pattern ≠ []) (clear : ∀ c ∈ run, c ∉ pattern) :
    pattern <:+: before ++ run ↔ pattern <:+: before := by
  have none : ¬ pattern <:+: [] := fun h => ne (List.infix_nil.mp h)
  by_cases more : run = []
  · rw [more, List.append_nil]
  · have split := @infix_append_run_iff _ _ before [] _ ne clear more
    rw [List.append_nil] at split
    rw [split]
    simp only [none, or_false]

/-- A pattern ends at its last character, so it does not reach past the last place where that
character stands. -/
theorem infix_append_iff_of_last {last : α} {init : List α} (h : last ∉ after) :
    init ++ [last] <:+: before ++ after ↔ init ++ [last] <:+: before := by
  constructor
  · intro occurs
    rcases List.infix_append_iff.mp occurs with left | right | ⟨part, rest, heq, left, right⟩
    · exact left
    · exact absurd (right.subset (List.mem_append_right init List.mem_cons_self)) h
    · by_cases more : rest = []
      · rw [heq, more, List.append_nil]
        exact left.isInfix
      · have ends : rest.getLast more = last := by
          rw [← List.getLast_append_of_ne_nil (List.append_ne_nil_of_right_ne_nil part more) more]
          simp only [← heq, List.getLast_concat]
        exact absurd (right.subset (ends ▸ List.getLast_mem more)) h
  · intro inside
    exact inside.trans (List.prefix_append before after).isInfix

end Infix

/-- A pattern without blanks stands within one word. -/
theorem Spaced.infix_iff {words : List (List Char)} {text pattern : List Char}
    (h : Spaced BlankRun words text) (ne : pattern ≠ []) (clear : ∀ c ∈ pattern, isBlank c = false) :
    pattern <:+: text ↔ ∃ word ∈ words, pattern <:+: word := by
  induction h with
  | last word => simp only [List.mem_singleton, exists_eq_left]
  | next word blank _ ih =>
    have apart : ∀ c ∈ _, c ∉ pattern := fun c hc hp => by
      have := blank.2 c hc
      rw [clear c hp] at this
      contradiction
    rw [infix_append_run_iff ne apart blank.1, ih]
    simp only [List.mem_cons, exists_eq_or_imp]

end DsiPanel
