import DsiPanel.Proofs.Text.Wrapping

/-!
# Text up to its white space

The white space of generated text is spaces, tabs and line breaks. Two texts say the same up to it if
they become equal once every run of white space is one space (`collapsed`). Said of a part of a text
this is no congruence, since a run may reach into the next part; so what is carried along is which
text each part collapses to and whether it ends in white space (`Respaced`).

Texts that are spaced out of the same words are respaced from each other (`Spaced.respaced`), and their
words can be read off either (`Spaced.shownWords_eq`). A wrapped list is of this kind, so no width
changes more than its white space (`render_respaced`).
-/

namespace DsiPanel

/-! ## White space -/

/-- A space, a tab or a line break. -/
def isSpacing (c : Char) : Bool := c == ' ' || c == '\t' || c == '\n'

/-- White space throughout, and some of it. -/
def SpacingRun (cs : List Char) : Prop := cs ≠ [] ∧ ∀ c ∈ cs, isSpacing c = true

/-- What shows is no white space. -/
theorem isSpacing_of_shown {c : Char} (shown : isBlank c = false) : isSpacing c = false := by
  rw [Bool.eq_false_iff]
  intro spacing
  simp only [isSpacing, Bool.or_eq_true, beq_iff_eq] at spacing
  obtain (rfl | rfl) | rfl := spacing <;> exact absurd shown (by decide)

theorem ListFrame.Gap.spacingRun {frame : ListFrame} {between : List Char} (h : frame.Gap between) :
    SpacingRun between := by
  rcases h with rfl | rfl
  · exact ⟨List.cons_ne_nil _ _, List.forall_mem_singleton.mpr rfl⟩
  · refine ⟨List.cons_ne_nil _ _, fun c mem => ?_⟩
    rw [indentTo, String.toList_ofList, List.mem_cons, List.mem_append, List.mem_replicate,
      List.mem_replicate] at mem
    obtain rfl | ⟨-, rfl⟩ | ⟨-, rfl⟩ := mem <;> rfl

/-! ## Collapsed text -/

/-- The text with one space for each run of white space; `after` says that white space stands before
the text. -/
def collapseFrom (after : Bool) : List Char → List Char
  | [] => []
  | c :: cs =>
    if isSpacing c then (if after then collapseFrom true cs else ' ' :: collapseFrom true cs)
    else c :: collapseFrom false cs

/-- The text with one space for each run of white space. -/
def collapsed (text : String) : String := String.ofList (collapseFrom false text.toList)

/-- White space stands at the end of the text, or before it if it is empty. -/
def endsSpaced (after : Bool) (cs : List Char) : Bool := cs.foldl (fun _ c => isSpacing c) after

theorem collapseFrom_append (after : Bool) (cs ds : List Char) :
    collapseFrom after (cs ++ ds) = collapseFrom after cs ++ collapseFrom (endsSpaced after cs) ds := by
  induction cs generalizing after with
  | nil => rfl
  | cons c cs ih =>
    have ends : endsSpaced after (c :: cs) = endsSpaced (isSpacing c) cs := rfl
    rw [ends, List.cons_append, collapseFrom, collapseFrom]
    cases isSpacing c with
    | true =>
      cases after with
      | true => exact ih true
      | false => exact congrArg (' ' :: ·) (ih true)
    | false => exact congrArg (c :: ·) (ih false)

theorem endsSpaced_append (after : Bool) (cs ds : List Char) :
    endsSpaced after (cs ++ ds) = endsSpaced (endsSpaced after cs) ds := List.foldl_append

/-- The texts differ in white space alone, and have it in the same places. -/
structure Respaced (cs ds : List Char) : Prop where
  collapse : ∀ after, collapseFrom after cs = collapseFrom after ds
  ends : ∀ after, endsSpaced after cs = endsSpaced after ds

namespace Respaced

variable {cs ds cs' ds' : List Char}

theorem refl (cs : List Char) : Respaced cs cs := ⟨fun _ => rfl, fun _ => rfl⟩

theorem append (h : Respaced cs ds) (h' : Respaced cs' ds') : Respaced (cs ++ cs') (ds ++ ds') where
  collapse := by
    intro after
    rw [collapseFrom_append, collapseFrom_append, h.collapse, h.ends, h'.collapse]
  ends := by
    intro after
    rw [endsSpaced_append, endsSpaced_append, h.ends, h'.ends]

theorem flatMap {α : Type} {xs : List α} {f g : α → List Char} (h : ∀ x ∈ xs, Respaced (f x) (g x)) :
    Respaced (xs.flatMap f) (xs.flatMap g) := by
  induction xs with
  | nil => exact refl []
  | cons x xs ih =>
    obtain ⟨own, others⟩ := List.forall_mem_cons.mp h
    rw [List.flatMap_cons, List.flatMap_cons]
    exact own.append (ih others)

/-- One run of white space is as good as another. -/
theorem of_spacingRun (h : SpacingRun cs) (h' : SpacingRun ds) : Respaced cs ds := by
  have collapse {run : List Char} (h : SpacingRun run) (after : Bool) :
      collapseFrom after run = (if after then [] else [' ']) ∧ endsSpaced after run = true := by
    obtain ⟨ne, spacing⟩ := h
    induction run generalizing after with
    | nil => exact absurd rfl ne
    | cons c run ih =>
      obtain ⟨first, others⟩ := List.forall_mem_cons.mp spacing
      have ends : endsSpaced after (c :: run) = endsSpaced true run := by
        rw [← first]
        rfl
      rw [ends, collapseFrom, if_pos first]
      by_cases last : run = []
      · subst last
        exact ⟨rfl, rfl⟩
      · obtain ⟨rest, whole⟩ := ih true last others
        rw [rest]
        exact ⟨rfl, whole⟩
  constructor
  · intro after
    rw [(collapse h after).1, (collapse h' after).1]
  · intro after
    rw [(collapse h after).2, (collapse h' after).2]

theorem collapsed_eq {s t : String} (h : Respaced s.toList t.toList) : collapsed s = collapsed t :=
  congrArg String.ofList (h.collapse false)

end Respaced

/-- Texts that are spaced out of the same words differ in white space alone. -/
theorem Spaced.respaced {words : List (List Char)} {cs ds : List Char} (h : Spaced SpacingRun words cs)
    (h' : Spaced SpacingRun words ds) : Respaced cs ds := by
  induction h generalizing ds with
  | last word =>
    cases h' with
    | last => exact .refl word
    | next _ _ rest => nomatch rest
  | next word run rest ih =>
    cases h' with
    | last => nomatch rest
    | next _ run' rest' => exact (Respaced.refl word).append ((Respaced.of_spacingRun run run').append (ih rest'))

/-- Lists for two widths differ in white space alone. -/
theorem render_respaced (frame : ListFrame) (h : frame.separator ≠ "") (force : Option Nat) (v w : Nat)
    (items : List String) :
    Respaced (frame.render force v items).toList (frame.render force w items).toList := by
  by_cases none : items = []
  · subst none
    exact .refl _
  · obtain ⟨body, whole, spaced⟩ := render_spaced frame h force v none
    obtain ⟨body', whole', spaced'⟩ := render_spaced frame h force w none
    have runs := spaced.mono fun _ gap => gap.spacingRun
    have runs' := spaced'.mono fun _ gap => gap.spacingRun
    rw [whole, whole']
    exact (Respaced.refl _).append (runs.respaced runs')

/-! ## Words -/

/-- The words of a text: what stands between its white space. -/
def shownWords (cs : List Char) : List (List Char) := (cs.splitOnP isSpacing).filter (!·.isEmpty)

theorem shownWords_append_cons {c : Char} (spacing : isSpacing c = true) (cs ds : List Char) :
    shownWords (cs ++ c :: ds) = shownWords cs ++ shownWords ds := by
  rw [shownWords, List.splitOnP_append_cons cs ds spacing, List.filter_append]
  rfl

theorem shownWords_append_run {between : List Char} (run : SpacingRun between) (cs ds : List Char) :
    shownWords (cs ++ (between ++ ds)) = shownWords cs ++ shownWords ds := by
  obtain ⟨ne, spacing⟩ := run
  induction between generalizing cs with
  | nil => exact absurd rfl ne
  | cons c between ih =>
    obtain ⟨first, others⟩ := List.forall_mem_cons.mp spacing
    rw [List.cons_append, shownWords_append_cons first]
    by_cases last : between = []
    · rw [last, List.nil_append]
    · exact congrArg (shownWords cs ++ ·) (ih [] last others)

/-- A word is not empty and has no white space in it. -/
def IsShownWord (cs : List Char) : Prop := cs ≠ [] ∧ ∀ c ∈ cs, isSpacing c = false

theorem IsShownWord.shownWords_eq {word : List Char} (h : IsShownWord word) : shownWords word = [word] := by
  rw [shownWords, List.splitOnP_eq_singleton h.2, List.filter_singleton]
  cases word with
  | nil => exact absurd rfl h.1
  | cons c cs => rfl

/-- A text that is spaced out of words has them as its words. -/
theorem Spaced.shownWords_eq {words : List (List Char)} {text : List Char} (h : Spaced SpacingRun words text)
    (plain : ∀ word ∈ words, IsShownWord word) : shownWords text = words := by
  induction h with
  | last word => exact (plain word List.mem_cons_self).shownWords_eq
  | next word run _ ih =>
    obtain ⟨own, others⟩ := List.forall_mem_cons.mp plain
    rw [shownWords_append_run run, own.shownWords_eq, ih others]
    rfl

end DsiPanel
