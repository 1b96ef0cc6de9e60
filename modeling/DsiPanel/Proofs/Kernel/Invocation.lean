import DsiPanel.Proofs.Text.Literal
import DsiPanel.Proofs.Text.Spaced

/-!
# Invocations without blanks

An invocation is a function name, arguments in parentheses and a semicolon; a checked one stands
after `ret =` and goes on with the block that reports a failure. Names and literals hold none of the
marks, so the first parenthesis ends the name, the first closing one ends the arguments, each comma
ends an argument, and a colon ends the words of a report. A run of invocations can therefore be read
in one way only, even when its blanks are taken out (`Invocation.code_flatMap_injOn`).
-/

namespace DsiPanel

/-! ## Invocations -/

/-- A function applied to arguments. -/
structure Invocation where
  /-- The words of the report on failure, without blanks, if the result is checked. -/
  report : Option (List Char)
  function : List Char
  arguments : List (List Char)
deriving DecidableEq

/-- What stands before the words of a report. -/
def reportOpening : String := "\tif (ret < 0) \x7b\n\t\tdev_err(dev, \"Failed to "

/-- What stands after the words of a report. -/
def reportClosing : String := ": %d\\n\", ret);\n\t\treturn ret;\n\t\x7d"

/-- The words of a report end at a colon. -/
theorem unspaced_reportClosing :
    unspaced reportClosing.toList = ':' :: (unspaced reportClosing.toList).tail := by
  decide

namespace Invocation

/-- What stands before the opening parenthesis. -/
def head (i : Invocation) : List Char :=
  match i.report with
  | none => i.function
  | some _ => 'r' :: 'e' :: 't' :: '=' :: i.function

/-- What stands after the semicolon. -/
def tail (i : Invocation) : List Char :=
  match i.report with
  | none => []
  | some words => unspaced reportOpening.toList ++ (words ++ unspaced reportClosing.toList)

/-- The invocation as it is written, without blanks. -/
def code (i : Invocation) : List Char :=
  i.head ++ '(' :: ([','].intercalate i.arguments ++ ')' :: ';' :: i.tail)

theorem code_unchecked (function : List Char) (arguments : List (List Char)) :
    code ⟨none, function, arguments⟩ =
      function ++ (['('] ++ ([','].intercalate arguments ++ [')', ';'])) := rfl

theorem code_checked (words function : List Char) (arguments : List (List Char)) :
    code ⟨some words, function, arguments⟩ =
      'r' :: 'e' :: 't' :: '=' :: function ++
        (['('] ++ ([','].intercalate arguments ++
          ([')', ';'] ++
            (unspaced reportOpening.toList ++ (words ++ unspaced reportClosing.toList))))) := rfl

/-- Function, arguments and words are names and literals, and there is an argument. -/
structure Plain (i : Invocation) : Prop where
  function : ∀ c ∈ i.function, isWordChar c = true
  nonempty : i.arguments ≠ []
  arguments : ∀ a ∈ i.arguments, ∀ c ∈ a, isWordChar c = true
  report : ∀ words ∈ i.report, ∀ c ∈ words, isWordChar c = true

/-! ## Reading one way only -/

/-- The first mark ends what has no mark. -/
theorem append_mark_inj {mark : Char} {xs ys us vs : List Char} (hx : mark ∉ xs) (hy : mark ∉ ys)
    (h : xs ++ mark :: us = ys ++ mark :: vs) : xs = ys ∧ us = vs := by
  induction xs generalizing ys with
  | nil =>
    cases ys with
    | nil => exact ⟨rfl, (List.cons.inj h).2⟩
    | cons y ys => exact absurd ((List.cons.inj h).1 ▸ List.mem_cons_self) hy
  | cons x xs ih =>
    cases ys with
    | nil => exact absurd ((List.cons.inj h).1 ▸ List.mem_cons_self) hx
    | cons y ys =>
      obtain ⟨rfl, rest⟩ := List.cons.inj h
      obtain ⟨rfl, after⟩ := ih (mt (List.mem_cons_of_mem x) hx) (mt (List.mem_cons_of_mem x) hy) rest
      exact ⟨rfl, after⟩

theorem not_mem_of_isWordChar {cs : List Char} (h : ∀ c ∈ cs, isWordChar c = true) {mark : Char}
    (hm : isWordChar mark = false) : mark ∉ cs := by
  intro mem
  rw [h mark mem] at hm
  contradiction

theorem Plain.not_mem_head {i : Invocation} (h : i.Plain) : '(' ∉ i.head := by
  have own : '(' ∉ i.function := not_mem_of_isWordChar h.function (by decide)
  unfold head
  cases i.report with
  | none => exact own
  | some _ =>
    simp only [List.mem_cons, not_or]
    exact ⟨by decide, by decide, by decide, by decide, own⟩

theorem Plain.not_mem_arguments {i : Invocation} (h : i.Plain) : ')' ∉ [','].intercalate i.arguments := by
  have general (arguments : List (List Char)) (h : ∀ a ∈ arguments, ∀ c ∈ a, isWordChar c = true) :
      ')' ∉ [','].intercalate arguments := by
    induction arguments with
    | nil => exact List.not_mem_nil
    | cons a rest ih =>
      have first : ')' ∉ a := not_mem_of_isWordChar (h a List.mem_cons_self) (by decide)
      have others := ih fun b hb => h b (List.mem_cons_of_mem a hb)
      cases rest with
      | nil => rwa [List.intercalate_singleton]
      | cons b rest =>
        rw [List.intercalate_cons_cons]
        simp only [List.mem_append, List.mem_singleton, not_or]
        exact ⟨⟨first, by decide⟩, others⟩
  exact general i.arguments h.arguments

/-- What stands before the parenthesis tells the function, and whether the result is checked. -/
theorem Plain.head_inj {i j : Invocation} (hi : i.Plain) (hj : j.Plain) (h : i.head = j.head) :
    i.function = j.function ∧ (i.report.isSome ↔ j.report.isSome) := by
  have clear {k : Invocation} (hk : k.Plain) : '=' ∉ k.function :=
    not_mem_of_isWordChar hk.function (by decide)
  have marked (cs : List Char) : '=' ∈ 'r' :: 'e' :: 't' :: '=' :: cs := by simp
  unfold head at h
  cases ri : i.report with
  | none =>
    cases rj : j.report with
    | none =>
      simp only [ri, rj] at h
      exact ⟨h, Iff.rfl⟩
    | some _ =>
      simp only [ri, rj] at h
      exact absurd (h ▸ marked _) (clear hi)
  | some _ =>
    cases rj : j.report with
    | none =>
      simp only [ri, rj] at h
      exact absurd (h ▸ marked _) (clear hj)
    | some _ =>
      simp only [ri, rj, List.cons.injEq, true_and] at h
      exact ⟨h, by simp⟩

/-- What stands after the semicolon tells the words of the report. -/
theorem Plain.tail_inj {i j : Invocation} (hi : i.Plain) (hj : j.Plain)
    (checked : i.report.isSome ↔ j.report.isSome) {us vs : List Char}
    (h : i.tail ++ us = j.tail ++ vs) : i.report = j.report ∧ us = vs := by
  have clear {k : Invocation} (hk : k.Plain) {words : List Char} (hw : k.report = some words) :
      ':' ∉ words :=
    not_mem_of_isWordChar (hk.report words hw) (by decide)
  unfold tail at h
  cases ri : i.report with
  | none =>
    cases rj : j.report with
    | none =>
      simp only [ri, rj, List.nil_append] at h
      exact ⟨rfl, h⟩
    | some _ => simp [ri, rj] at checked
  | some words =>
    cases rj : j.report with
    | none => simp [ri, rj] at checked
    | some others =>
      rw [unspaced_reportClosing] at h
      simp only [ri, rj, List.append_assoc, List.cons_append, List.append_cancel_left_eq] at h
      obtain ⟨rfl, rest⟩ := append_mark_inj (clear hi ri) (clear hj rj) h
      exact ⟨rfl, List.append_cancel_left rest⟩

/-- An invocation at the front of a text is read in one way only. -/
theorem code_append_injOn {i j : Invocation} (hi : i.Plain) (hj : j.Plain) {us vs : List Char}
    (h : i.code ++ us = j.code ++ vs) : i = j ∧ us = vs := by
  -- The marks are met in the order of the text, and each rest is what the next one is looked for in.
  simp only [code, List.append_assoc, List.cons_append] at h
  obtain ⟨heads, rest⟩ := append_mark_inj hi.not_mem_head hj.not_mem_head h
  obtain ⟨inner, rest⟩ := append_mark_inj hi.not_mem_arguments hj.not_mem_arguments rest
  obtain ⟨function, checked⟩ := hi.head_inj hj heads
  obtain ⟨report, after⟩ := hi.tail_inj hj checked (List.cons.inj rest).2
  have arguments : i.arguments = j.arguments := by
    have commaless {k : Invocation} (hk : k.Plain) : ∀ a ∈ k.arguments, ',' ∉ a :=
      fun a ha => not_mem_of_isWordChar (hk.arguments a ha) (by decide)
    rw [← List.splitOn_intercalate ',' (commaless hi) hi.nonempty, inner,
      List.splitOn_intercalate ',' (commaless hj) hj.nonempty]
  cases i
  cases j
  rw [Invocation.mk.injEq]
  exact ⟨⟨report, function, arguments⟩, after⟩

theorem code_ne_nil (i : Invocation) : i.code ≠ [] := by
  intro none
  have mark : '(' ∈ i.code := List.mem_append_right _ List.mem_cons_self
  rw [none] at mark
  exact List.not_mem_nil mark

/-- A run of invocations is read in one way only. -/
theorem code_flatMap_injOn {is js : List Invocation} (hi : ∀ i ∈ is, i.Plain) (hj : ∀ j ∈ js, j.Plain)
    (h : is.flatMap code = js.flatMap code) : is = js := by
  induction is generalizing js with
  | nil =>
    cases js with
    | nil => rfl
    | cons j js =>
      rw [List.flatMap_nil, List.flatMap_cons] at h
      exact absurd (List.append_eq_nil_iff.mp h.symm).1 j.code_ne_nil
  | cons i is ih =>
    cases js with
    | nil =>
      rw [List.flatMap_nil, List.flatMap_cons] at h
      exact absurd (List.append_eq_nil_iff.mp h).1 i.code_ne_nil
    | cons j js =>
      obtain ⟨plain, others⟩ := List.forall_mem_cons.mp hi
      obtain ⟨plain', others'⟩ := List.forall_mem_cons.mp hj
      rw [List.flatMap_cons, List.flatMap_cons] at h
      obtain ⟨rfl, rest⟩ := code_append_injOn plain plain' h
      rw [ih others others' rest]

end Invocation

end DsiPanel
