import DsiPanel.Note.Basic

/-!
# Notes place by place

What is told of a list is told of its places in turn, and not every place has something to tell. `Reports` is
the relation of a list to what is told of it: of each place that has a report this one, once, and of any other
nothing. Two lists one after the other are reported one after the other (`Reports.append`), so a run is reported
as its steps are.
-/

namespace DsiPanel

/-! ## Reports -/

variable {α β : Type} {r : α → β → Prop}

/-- The reports on a list, in its order: for each place that has a report, which is then its only one, this
report, and none for any other place. -/
inductive Reports (r : α → β → Prop) : List α → List β → Prop
  | nil : Reports r [] []
  | told {a : α} {b : β} {as : List α} {bs : List β} (only : ∀ c, r a c ↔ c = b) (rest : Reports r as bs) :
      Reports r (a :: as) (b :: bs)
  | silent {a : α} {as : List α} {bs : List β} (none : ∀ c, ¬ r a c) (rest : Reports r as bs) :
      Reports r (a :: as) bs

theorem Reports.append {as as' : List α} {bs bs' : List β} (front : Reports r as bs) (back : Reports r as' bs') :
    Reports r (as ++ as') (bs ++ bs') := by
  induction front with
  | nil => exact back
  | told only _ ih => exact .told only ih
  | silent none _ ih => exact .silent none ih

/-- Every report is of some place. -/
theorem Reports.exists_mem {as : List α} {bs : List β} (h : Reports r as bs) : ∀ b ∈ bs, ∃ a ∈ as, r a b := by
  induction h with
  | nil => exact fun b mem => absurd mem List.not_mem_nil
  | told only _ ih =>
    refine List.forall_mem_cons.mpr ⟨⟨_, List.mem_cons_self, (only _).mpr rfl⟩, fun b mem => ?_⟩
    obtain ⟨a, place, given⟩ := ih b mem
    exact ⟨a, List.mem_cons_of_mem _ place, given⟩
  | silent _ _ ih =>
    intro b mem
    obtain ⟨a, place, given⟩ := ih b mem
    exact ⟨a, List.mem_cons_of_mem _ place, given⟩

/-- What a partial function gives along a list are the reports on it. -/
theorem reports_filterMap {f : α → Option β} (h : ∀ a b, f a = some b ↔ r a b) (as : List α) :
    Reports r as (as.filterMap f) := by
  induction as with
  | nil => exact .nil
  | cons a as ih =>
    cases given : f a with
    | none =>
      rw [List.filterMap_cons_none given]
      exact .silent (fun c here => nomatch given.symm.trans ((h a c).mpr here)) ih
    | some b =>
      rw [List.filterMap_cons_some given]
      refine .told (fun c => ?_) ih
      rw [← h, given, Option.some_inj, eq_comm]

/-! ## Levels -/

/-- The notes of a level. -/
def notesAt (level : NoteLevel) (notes : List Note) : List Note := notes.filter (·.level = level)

theorem notesAt_append (level : NoteLevel) (notes more : List Note) :
    notesAt level (notes ++ more) = notesAt level notes ++ notesAt level more := List.filter_append ..

/-- Notes of another level are none of this one. -/
theorem notesAt_eq_nil {level other : NoteLevel} (ne : other ≠ level) {notes : List Note}
    (h : ∀ note ∈ notes, note.level = other) : notesAt level notes = [] :=
  List.filter_eq_nil_iff.mpr fun note mem => by rw [h note mem, decide_eq_true_eq]; exact ne

theorem notesAt_eq_self {level : NoteLevel} {notes : List Note} (h : ∀ note ∈ notes, note.level = level) :
    notesAt level notes = notes := List.filter_eq_self.mpr fun note mem => decide_eq_true (h note mem)

end DsiPanel
