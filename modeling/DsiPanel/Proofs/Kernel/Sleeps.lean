import DsiPanel.Proofs.Kernel.Paragraphs
import Mathlib.Algebra.GroupWithZero.Nat

/-!
# Sleeps of a fragment

A wait is written as a line of its own, and that line can be told from all others by the trace of a
delay in it (`isSleepLine`). What else is in a fragment does not know of the waits: neither the actions
nor the cuts between paragraphs do. So the lines of a fragment are those of the actions, group by group,
with the sleeps filled in (`endedLines_timed`).

**The law** (`CommandSequence.synthesize_sleeps`): the sleeps are those of the waits above the threshold,
each after the statement of its operation, and each asks for its wait (`AsksFor`). Without them the text
is that of the sequence without waits.
-/

namespace DsiPanel

/-! ## Lines that sleep -/

/-- The line has the trace of a delay. -/
def isSleepLine (line : String) : Bool := decide (Feature.delay.Shows line.toList)

/-- No trace reaches from one line into the next. -/
theorem Feature.shows_textLines_iff {f : Feature} {text : String} :
    f.Shows text.toList ↔ ∃ line ∈ textLines text, f.Shows line.toList := by
  have general (lines : List String) (some : lines ≠ []) :
      f.Shows (String.intercalate "\n" lines).toList ↔ ∃ line ∈ lines, f.Shows line.toList := by
    induction lines with
    | nil => exact absurd rfl some
    | cons line lines ih =>
      cases lines with
      | nil => simp only [String.intercalate_singleton, List.mem_singleton, exists_eq_left]
      | cons next lines =>
        have cut : (String.intercalate "\n" (line :: next :: lines)).toList =
            line.toList ++ '\n' :: (String.intercalate "\n" (next :: lines)).toList := by
          rw [String.intercalate_cons_cons, String.toList_append, String.toList_append, List.append_assoc]
          rfl
        rw [cut, Feature.shows_lines_iff, ih (List.cons_ne_nil next lines)]
        simp only [List.mem_cons, exists_eq_or_imp]
  have whole := general (textLines text) (textLines_ne_nil text)
  rw [intercalate_textLines] at whole
  exact whole

theorem isSleepLine_delayLine (ms : Nat) : isSleepLine (delayLine ms) = true :=
  decide_eq_true ((shows_delayLine_iff ms .delay).mpr rfl)

theorem isSleepLine_empty : isSleepLine "" = false := by decide

/-- No line of an action sleeps. -/
theorem Action.Plain.not_isSleepLine {action : Action} (plain : action.Plain) (width : Nat) :
    ∀ line ∈ textLines (action.text width), isSleepLine line = false := by
  intro line mem
  apply decide_eq_false
  intro shows
  have inside : Feature.delay.Shows (action.text width).toList :=
    Feature.shows_textLines_iff.mpr ⟨line, mem, shows⟩
  have needed := (shows_action_iff plain width .delay).mp inside
  rw [action.not_contains_delay] at needed
  contradiction

/-! ## What a sleep asks for -/

/-- The line asks to sleep for so many milliseconds: a coarse sleep by its argument, and a fine one by a
range of microseconds that ends a thousand above where it starts. -/
inductive AsksFor : String → Nat → Prop
  | coarse (ms : Nat) : AsksFor ("\tmsleep(" ++ toString ms ++ ");") ms
  | fine (lower : Nat) :
      AsksFor ("\tusleep_range(" ++ toString lower ++ ", " ++ toString (lower + 1000) ++ ");") (lower / 1000)

/-- The sleep for a wait asks for it. -/
theorem asksFor_delayLine (ms : Nat) : AsksFor (delayLine ms) ms := by
  rw [delayLine_eq]
  split
  · exact .coarse ms
  · have range := AsksFor.fine (ms * 1000)
    rw [Nat.mul_div_cancel ms (by decide)] at range
    exact range

/-- The start of the range can be read off a fine sleep. -/
theorem fineSleep_inj {m n : Nat} {us vs : String}
    (h : "\tusleep_range(" ++ (toString m ++ (", " ++ us)) = "\tusleep_range(" ++ (toString n ++ (", " ++ vs))) :
    m = n := by
  have comma : ", ".toList = [',', ' '] := rfl
  have clear (k : Nat) : ',' ∉ (toString k).toList := (toString_isWord k).not_mem rfl
  have rest := congrArg String.toList ((String.append_right_inj _).mp h)
  simp only [String.toList_append, comma, List.cons_append] at rest
  exact toString_injective (String.toList_inj.mp (Invocation.append_mark_inj (clear m) (clear n) rest).1)

/-- A coarse sleep is no fine one. -/
theorem coarseSleep_ne_fineSleep (us vs : String) : "\tmsleep(" ++ us ≠ "\tusleep_range(" ++ vs := by
  have coarse : "\tmsleep(".toList = '\t' :: 'm' :: "sleep(".toList := by decide
  have fine : "\tusleep_range(".toList = '\t' :: 'u' :: "sleep_range(".toList := by decide
  intro same
  have chars := congrArg String.toList same
  simp only [String.toList_append, coarse, fine, List.cons_append, List.cons.injEq] at chars
  exact absurd chars.2.1 (by decide)

/-- A line asks for one time only. -/
theorem AsksFor.unique {line : String} {m n : Nat} (h : AsksFor line m) (h' : AsksFor line n) : m = n := by
  -- The text is named before the second sleep is told apart, since its two forms are no constructors.
  cases h with
  | coarse =>
    generalize own : "\tmsleep(" ++ toString m ++ ");" = text at h'
    cases h' with
    | coarse =>
      rw [String.append_left_inj, String.append_right_inj] at own
      exact toString_injective own
    | fine =>
      simp only [String.append_assoc] at own
      exact absurd own (coarseSleep_ne_fineSleep _ _)
  | fine lower =>
    generalize own : "\tusleep_range(" ++ toString lower ++ ", " ++ toString (lower + 1000) ++ ");" = text at h'
    cases h' with
    | coarse =>
      simp only [String.append_assoc] at own
      exact absurd own.symm (coarseSleep_ne_fineSleep _ _)
    | fine =>
      simp only [String.append_assoc] at own
      rw [fineSleep_inj own]

/-! ## Operations with their actions -/

/-- The entries are the operations, each with the action at its place. -/
def Performed (conservative : Bool) (operations : List Operation) (entries : List (Operation × Action)) : Prop :=
  List.Forall₂ (fun place entry => entry.1 = place.1 ∧ place.1.action conservative place.2 = .ok entry.2)
    operations.zipIdx entries

/-- The statement of an entry, with the sleep that is chosen for its operation. -/
def timed (delay : Operation → Option Nat) (entry : Operation × Action) : Statement where
  action := entry.2
  delay := delay entry.1

/-- The operation without a wait. -/
def Operation.unwaited (op : Operation) : Operation := { op with wait := 0 }

/-- The sequence without waits. -/
def CommandSequence.unwaited (s : CommandSequence) : CommandSequence :=
  { s with operations := s.operations.map Operation.unwaited }

namespace Performed

variable {conservative : Bool} {operations : List Operation} {entries : List (Operation × Action)}

theorem map_fst (h : Performed conservative operations entries) : entries.map Prod.fst = operations := by
  have columns : List.Forall₂ (· = ·) (operations.zipIdx.map Prod.fst) (entries.map Prod.fst) := by
    rw [List.forall₂_map_left_iff, List.forall₂_map_right_iff]
    exact h.imp fun _ _ own => own.1.symm
  rw [List.forall₂_eq_eq_eq, List.zipIdx_map_fst] at columns
  exact columns.symm

theorem plain (h : Performed conservative operations entries) : ∀ entry ∈ entries, entry.2.Plain :=
  forall_right_of_forall₂ h fun _ _ own => Operation.action_plain own.2

/-- An action does not ask for the wait of its operation. -/
theorem unwaited (h : Performed conservative operations entries) :
    Performed conservative (operations.map Operation.unwaited) (entries.map (Prod.map Operation.unwaited id)) := by
  unfold Performed
  rw [List.zipIdx_map, List.forall₂_map_left_iff, List.forall₂_map_right_iff]
  exact h.imp fun _ _ own => ⟨congrArg Operation.unwaited own.1, own.2⟩

end Performed

/-- The statements of a sequence are those of its operations with their actions and waits. -/
theorem CommandSequence.statements_of_performed {settings : Settings} {s : CommandSequence}
    {entries : List (Operation × Action)} (h : Performed settings.conservative s.operations entries) :
    s.statements settings = .ok (entries.map (timed fun op => effectiveDelay? settings.ignoreWait op.wait)) := by
  rw [CommandSequence.statements_ok_iff, List.forall₂_map_right_iff]
  refine h.imp fun place entry own => Operation.statement_ok_iff.mpr ⟨own.2, ?_⟩
  show effectiveDelay? settings.ignoreWait entry.1.wait = _
  rw [own.1]

theorem CommandSequence.exists_performed {settings : Settings} {s : CommandSequence} {statements : List Statement}
    (made : s.statements settings = .ok statements) :
    ∃ entries, Performed settings.conservative s.operations entries := by
  have each := CommandSequence.statements_ok_iff.mp made
  have some : ∀ place ∈ s.operations.zipIdx, ∃ entry : Operation × Action,
      entry.1 = place.1 ∧ place.1.action settings.conservative place.2 = .ok entry.2 :=
    forall_right_of_forall₂ each.flip fun statement place own =>
      ⟨(place.1, statement.action), rfl, (Operation.statement_ok_iff.mp own).1⟩
  exact exists_forall₂ some

/-! ## Lines of a fragment -/

/-- Groups of entries: an entry whose action opens a block stands alone. -/
def entryGroups (entries : List (Operation × Action)) : List (List (Operation × Action)) :=
  entries.splitBy fun a b => !(a.2.opensBlock || b.2.opensBlock)

/-- The lines of groups of entries: a blank line before each group, and for each entry the lines of its
action and after them the sleeps of its operation. -/
def entryLines (width : Nat) (sleeps : Operation → List String) (groups : List (List (Operation × Action))) :
    List String :=
  groups.flatMap fun group => "" :: group.flatMap fun entry => textLines (entry.2.text width) ++ sleeps entry.1

/-- What is made of the elements can be cut before or after it is made. -/
theorem splitBy_map {α β : Type} (f : α → β) (r : β → β → Bool) (l : List α) :
    (l.map f).splitBy r = (l.splitBy fun a b => r (f a) (f b)).map (List.map f) := by
  refine List.splitBy_eq_iff.mpr ⟨?_, ?_, ?_, ?_⟩
  · rw [← List.map_flatten, List.flatten_splitBy]
  · intro mem
    obtain ⟨group, own, none⟩ := List.mem_map.mp mem
    exact List.ne_nil_of_mem_splitBy own (List.map_eq_nil_iff.mp none)
  · intro group mem
    obtain ⟨group, own, rfl⟩ := List.mem_map.mp mem
    exact (List.isChain_map f).mpr (List.isChain_of_mem_splitBy own)
  · rw [List.isChain_map]
    refine (List.isChain_getLast_head_splitBy _ l).imp fun a b cut => ?_
    obtain ⟨some, some', apart⟩ := cut
    refine ⟨mt List.map_eq_nil_iff.mp some, mt List.map_eq_nil_iff.mp some', ?_⟩
    rw [List.getLast_map, List.head_map]
    exact apart

theorem textLines_timed (width : Nat) (delay : Operation → Option Nat) (entry : Operation × Action) :
    textLines ((timed delay entry).text width) =
      textLines (entry.2.text width) ++ (delay entry.1).toList.map delayLine := by
  unfold timed Statement.text
  cases delay entry.1 with
  | none => exact (List.append_nil _).symm
  | some ms =>
    rw [textLines_append, textLines_of_not_mem (not_mem_delayLine ms)]
    rfl

/-- The lines of a fragment are those of its actions with the sleeps filled in; where it is cut does not
depend on the sleeps. -/
theorem endedLines_timed (width : Nat) (delay : Operation → Option Nat) (entries : List (Operation × Action)) :
    endedLines (Fragment.ofStatements width (entries.map (timed delay))).text =
      entryLines width (fun op => (delay op).toList.map delayLine) (entryGroups entries) := by
  have groups : paragraphs (entries.map (timed delay)) = (entryGroups entries).map (List.map (timed delay)) :=
    splitBy_map (timed delay) Statement.joins entries
  rw [endedLines_fragment, groups, List.flatMap_map, entryLines]
  simp only [List.flatMap_map, textLines_timed]

theorem ended_endedLines_fragment (width : Nat) (statements : List Statement) :
    ended (endedLines (Fragment.ofStatements width statements).text) =
      (Fragment.ofStatements width statements).text := by
  rw [text_fragment, ended_endedLines_paragraphed]

section Lines

variable {width : Nat} {groups : List (List (Operation × Action))} {sleeps : Operation → List String}
  (plain : ∀ group ∈ groups, ∀ entry ∈ group, entry.2.Plain)
  (asleep : ∀ op, ∀ line ∈ sleeps op, isSleepLine line = true)

include plain asleep

/-- The lines that sleep are the sleeps of the operations, in order. -/
theorem filter_entryLines :
    (entryLines width sleeps groups).filter isSleepLine = groups.flatten.flatMap fun entry => sleeps entry.1 := by
  have blank : ¬ isSleepLine "" = true := Bool.eq_false_iff.mp isSleepLine_empty
  rw [entryLines, List.filter_flatMap, ← List.flatMap_id (L := groups), List.flatMap_assoc]
  refine List.flatMap_congr fun group mem => ?_
  rw [List.filter_cons_of_neg blank, List.filter_flatMap]
  refine List.flatMap_congr fun entry own => ?_
  have awake := (plain group mem entry own).not_isSleepLine width
  have none : (textLines (entry.2.text width)).filter isSleepLine = [] :=
    List.filter_eq_nil_iff.mpr fun line inside => Bool.eq_false_iff.mp (awake line inside)
  rw [List.filter_append, none, List.nil_append, List.filter_eq_self.mpr (asleep entry.1)]

/-- The other lines are those of the same groups without sleeps. -/
theorem filter_not_entryLines :
    (entryLines width sleeps groups).filter (!isSleepLine ·) = entryLines width (fun _ => []) groups := by
  rw [entryLines, entryLines, List.filter_flatMap]
  refine List.flatMap_congr fun group mem => ?_
  rw [List.filter_cons, isSleepLine_empty, Bool.not_false, if_pos rfl, List.filter_flatMap]
  refine congrArg ("" :: ·) (List.flatMap_congr fun entry own => ?_)
  have awake := (plain group mem entry own).not_isSleepLine width
  have all : (textLines (entry.2.text width)).filter (!isSleepLine ·) = textLines (entry.2.text width) :=
    List.filter_eq_self.mpr fun line inside => congrArg not (awake line inside)
  have none : (sleeps entry.1).filter (!isSleepLine ·) = [] :=
    List.filter_eq_nil_iff.mpr fun line inside => Bool.eq_false_iff.mp (congrArg not (asleep entry.1 line inside))
  rw [List.filter_append, all, none]

end Lines

/-- Fewer sleeps make fewer lines. -/
theorem entryLines_sublist {width : Nat} {fewer sleeps : Operation → List String}
    (less : ∀ op, (fewer op).Sublist (sleeps op)) (groups : List (List (Operation × Action))) :
    (entryLines width fewer groups).Sublist (entryLines width sleeps groups) := by
  refine List.Sublist.flatMap_right groups fun group _ => List.Sublist.cons_cons "" ?_
  exact List.Sublist.flatMap_right group fun entry _ => (List.Sublist.refl _).append (less entry.1)

/-! ## Waits -/

/-- The sleep after an operation that waits longer than the threshold. -/
def Operation.sleepLines (ignoreWait : Nat) (op : Operation) : List String :=
  if ignoreWait < op.wait.toNat then [delayLine op.wait.toNat] else []

theorem sleepLines_eq (ignoreWait : Nat) (op : Operation) :
    op.sleepLines ignoreWait = (effectiveDelay? ignoreWait op.wait).toList.map delayLine := by
  unfold Operation.sleepLines effectiveDelay?
  by_cases waits : ignoreWait < op.wait.toNat
  · have long : ¬ (op.wait.toNat = 0 ∨ op.wait.toNat ≤ ignoreWait) := by omega
    rw [if_pos waits, if_neg long]
    rfl
  · have short : op.wait.toNat = 0 ∨ op.wait.toNat ≤ ignoreWait := by omega
    rw [if_neg waits, if_pos short]
    rfl

theorem isSleepLine_of_mem_sleepLines (ignoreWait : Nat) (op : Operation) :
    ∀ line ∈ op.sleepLines ignoreWait, isSleepLine line = true := by
  unfold Operation.sleepLines
  split
  · exact List.forall_mem_singleton.mpr (isSleepLine_delayLine _)
  · exact List.forall_mem_nil _

/-- A higher threshold leaves out more sleeps. -/
theorem sleepLines_sublist {low high : Nat} (le : low ≤ high) (op : Operation) :
    (op.sleepLines high).Sublist (op.sleepLines low) := by
  unfold Operation.sleepLines
  by_cases waits : high < op.wait.toNat
  · rw [if_pos waits, if_pos (Nat.lt_of_le_of_lt le waits)]
  · rw [if_neg waits]
    exact List.nil_sublist _

/-- The operations that wait longer than the threshold. -/
def waiting (ignoreWait : Nat) (operations : List Operation) : List Operation :=
  operations.filter fun op => ignoreWait < op.wait.toNat

theorem waiting_cons (ignoreWait : Nat) (op : Operation) (operations : List Operation) :
    waiting ignoreWait (op :: operations) =
      if ignoreWait < op.wait.toNat then op :: waiting ignoreWait operations else waiting ignoreWait operations := by
  rw [waiting, List.filter_cons]
  simp only [decide_eq_true_eq, waiting]

theorem flatMap_sleepLines (ignoreWait : Nat) (operations : List Operation) :
    operations.flatMap (Operation.sleepLines ignoreWait) =
      (waiting ignoreWait operations).map fun op => delayLine op.wait.toNat := by
  induction operations with
  | nil => rfl
  | cons op operations ih =>
    rw [List.flatMap_cons, ih, Operation.sleepLines, waiting_cons]
    by_cases waits : ignoreWait < op.wait.toNat
    · rw [if_pos waits, if_pos waits]
      rfl
    · rw [if_neg waits, if_neg waits]
      rfl

/-- Operations without a wait add nothing. -/
theorem sum_waiting (operations : List Operation) :
    ((waiting 0 operations).map fun op => op.wait.toNat).sum = (operations.map fun op => op.wait.toNat).sum := by
  induction operations with
  | nil => rfl
  | cons op operations ih =>
    rw [List.map_cons, List.sum_cons, ← ih, waiting_cons]
    by_cases waits : 0 < op.wait.toNat
    · rw [if_pos waits, List.map_cons, List.sum_cons]
    · rw [if_neg waits]
      omega

/-- The total is the sum of the waits, as long as 32 bits hold it. -/
theorem CommandSequence.toNat_totalWait {s : CommandSequence}
    (fits : (s.operations.map fun op => op.wait.toNat).sum < 2 ^ 32) :
    s.totalWait.toNat = (s.operations.map fun op => op.wait.toNat).sum := by
  have general (operations : List Operation) (start : UInt32)
      (fits : start.toNat + (operations.map fun op => op.wait.toNat).sum < 2 ^ 32) :
      (operations.foldl (fun sum op => sum + op.wait.toUInt32) start).toNat =
        start.toNat + (operations.map fun op => op.wait.toNat).sum := by
    induction operations generalizing start with
    | nil => rfl
    | cons op operations ih =>
      rw [List.map_cons, List.sum_cons] at fits
      have step : (start + op.wait.toUInt32).toNat = start.toNat + op.wait.toNat := by
        rw [UInt32.toNat_add, UInt8.toNat_toUInt32]
        exact Nat.mod_eq_of_lt (by omega)
      rw [List.foldl_cons, ih _ (by omega), step, List.map_cons, List.sum_cons, Nat.add_assoc]
  have whole := general s.operations 0 (by rw [UInt32.toNat_zero]; omega)
  rw [UInt32.toNat_zero, Nat.zero_add] at whole
  exact whole

/-- What the sleeps of operations ask for is their waits. -/
theorem forall₂_asksFor_iff {operations : List Operation} {requests : List Nat} :
    List.Forall₂ AsksFor (operations.map fun op => delayLine op.wait.toNat) requests ↔
      requests = operations.map fun op => op.wait.toNat := by
  constructor
  · intro asked
    rw [List.forall₂_map_left_iff] at asked
    have same : List.Forall₂ (· = ·) requests (operations.map fun op => op.wait.toNat) := by
      rw [List.forall₂_map_right_iff]
      exact asked.flip.imp fun _ _ own => own.unique (asksFor_delayLine _)
    rwa [List.forall₂_eq_eq_eq] at same
  · rintro rfl
    rw [List.forall₂_map_left_iff, List.forall₂_map_right_iff, List.forall₂_same]
    exact fun op _ => asksFor_delayLine op.wait.toNat

/-! ## The law -/

/-- Which features an entry has does not depend on its sleep, but for the delay. -/
theorem contains_timed {feature : Feature} (other : feature ≠ .delay) (delay : Operation → Option Nat)
    (entry : Operation × Action) :
    (timed delay entry).features.contains feature = entry.2.features.contains feature := by
  have none (sleeps : Bool) : Features.contains { delay := sleeps } feature = false := by
    cases feature with
    | delay => exact absurd rfl other
    | _ => rfl
  rw [Statement.features, Features.contains_union, none, Bool.or_false]
  rfl

theorem contains_fragment_timed {feature : Feature} (other : feature ≠ .delay) (width : Nat)
    (delay delay' : Operation → Option Nat) (entries : List (Operation × Action)) :
    (Fragment.ofStatements width (entries.map (timed delay))).features.contains feature =
      (Fragment.ofStatements width (entries.map (timed delay'))).features.contains feature := by
  rw [Bool.eq_iff_iff, contains_fragment_iff, contains_fragment_iff]
  simp only [List.mem_map, exists_exists_and_eq_and, contains_timed other]

section Performed

variable {settings : Settings} {s : CommandSequence} {entries : List (Operation × Action)}
  (performed : Performed settings.conservative s.operations entries)

include performed

theorem CommandSequence.synthesize_of_performed (ignoreWait : Nat) :
    s.synthesize { settings with ignoreWait := ignoreWait } =
      .ok (.ofStatements settings.wrapWidth (entries.map (timed fun op => effectiveDelay? ignoreWait op.wait))) := by
  have again : Performed { settings with ignoreWait := ignoreWait }.conservative s.operations entries := performed
  exact CommandSequence.synthesize_ok_iff.mpr ⟨_, CommandSequence.statements_of_performed again, rfl⟩

/-- Without waits nothing sleeps. -/
theorem CommandSequence.synthesize_unwaited :
    s.unwaited.synthesize settings = .ok (.ofStatements settings.wrapWidth (entries.map (timed fun _ => none))) := by
  have made := CommandSequence.statements_of_performed (s := s.unwaited) performed.unwaited
  rw [List.map_map] at made
  exact CommandSequence.synthesize_ok_iff.mpr ⟨_, made, rfl⟩

end Performed

/-- How the waits of a sequence are written. The text is made of groups of entries, the operations in
order each with its action, and the lines of an entry are those of its action and after them the sleep
of its operation, if that waits longer than the threshold. So the lines that sleep are the sleeps of the
operations above the threshold, and the other lines are the text of the sequence without waits, which has
the same features but for the delay. The sleeps ask for the waits, and with no threshold their requests
add up to the total. A higher threshold only removes lines. -/
theorem CommandSequence.synthesize_sleeps {settings : Settings} {s : CommandSequence} {f : Fragment}
    (made : s.synthesize settings = .ok f) :
    ∃ groups g, Performed settings.conservative s.operations groups.flatten ∧
      s.unwaited.synthesize settings = .ok g ∧
      f.text = ended (endedLines f.text) ∧
      endedLines f.text = entryLines settings.wrapWidth (Operation.sleepLines settings.ignoreWait) groups ∧
      endedLines g.text = entryLines settings.wrapWidth (fun _ => []) groups ∧
      g.text = ended ((endedLines f.text).filter (!isSleepLine ·)) ∧
      (∀ feature ≠ .delay, f.features.contains feature = g.features.contains feature) ∧
      (endedLines f.text).filter isSleepLine =
        (waiting settings.ignoreWait s.operations).map (fun op => delayLine op.wait.toNat) ∧
      (∀ requests, List.Forall₂ AsksFor ((endedLines f.text).filter isSleepLine) requests ↔
        requests = (waiting settings.ignoreWait s.operations).map fun op => op.wait.toNat) ∧
      (settings.ignoreWait = 0 → (s.operations.map fun op => op.wait.toNat).sum < 2 ^ 32 →
        ∀ requests, List.Forall₂ AsksFor ((endedLines f.text).filter isSleepLine) requests →
          requests.sum = s.totalWait.toNat) ∧
      ∀ higher ≥ settings.ignoreWait, ∃ h, s.synthesize { settings with ignoreWait := higher } = .ok h ∧
        (endedLines h.text).Sublist (endedLines f.text) := by
  obtain ⟨statements, all, rfl⟩ := CommandSequence.synthesize_ok_iff.mp made
  -- All three fragments are made of the same entries, so they are compared through one list of groups.
  obtain ⟨entries, performed⟩ := CommandSequence.exists_performed all
  obtain rfl := Except.ok.inj (all.symm.trans (CommandSequence.statements_of_performed performed))
  have flat : (entryGroups entries).flatten = entries := List.flatten_splitBy _ _
  have lines (ignoreWait : Nat) :
      endedLines (Fragment.ofStatements settings.wrapWidth
        (entries.map (timed fun op => effectiveDelay? ignoreWait op.wait))).text =
          entryLines settings.wrapWidth (Operation.sleepLines ignoreWait) (entryGroups entries) := by
    rw [endedLines_timed, funext (sleepLines_eq ignoreWait)]
  have silent := endedLines_timed settings.wrapWidth (fun _ => none) entries
  have plain : ∀ group ∈ entryGroups entries, ∀ entry ∈ group, entry.2.Plain := by
    intro group mem entry own
    apply performed.plain
    rw [← flat]
    exact List.mem_flatten.mpr ⟨group, mem, own⟩
  have asleep := isSleepLine_of_mem_sleepLines settings.ignoreWait
  have sleeps : (entryLines settings.wrapWidth (Operation.sleepLines settings.ignoreWait)
      (entryGroups entries)).filter isSleepLine =
        (waiting settings.ignoreWait s.operations).map fun op => delayLine op.wait.toNat := by
    rw [filter_entryLines plain asleep, flat, ← flatMap_sleepLines, ← performed.map_fst, List.flatMap_map]
  refine ⟨entryGroups entries, _, flat.symm ▸ performed, CommandSequence.synthesize_unwaited performed,
    (ended_endedLines_fragment _ _).symm, lines settings.ignoreWait, silent, ?_, ?_, ?_, ?_, ?_, ?_⟩
  · rw [lines, filter_not_entryLines plain asleep, ← ended_endedLines_fragment, silent]
    rfl
  · intro feature other
    exact contains_fragment_timed other _ _ _ entries
  · rw [lines, sleeps]
  · intro requests
    rw [lines, sleeps, forall₂_asksFor_iff]
  · intro standard fits requests asked
    rw [lines, sleeps, forall₂_asksFor_iff] at asked
    rw [asked, standard, sum_waiting, CommandSequence.toNat_totalWait fits]
  · intro higher above
    refine ⟨_, CommandSequence.synthesize_of_performed performed higher, ?_⟩
    rw [lines, lines]
    exact entryLines_sublist (sleepLines_sublist above) (entryGroups entries)

/-- A write with a short wait, a command with a helper and a long wait, and a write without a wait. -/
def waitsAroundBlock : List Operation :=
  [{ opcode := 0x39, wait := 5, payload := [0xb0, 0x04] }, { opcode := 0x05, wait := 120, payload := [0x11] },
    { opcode := 0x39, payload := [0xb0, 0x03] }]

/-- The short wait is a fine sleep and the long one a coarse sleep, and both together are the total. -/
theorem CommandSequence.synthesize_sleeps_two :
    ∃ f g, CommandSequence.synthesize .standard ⟨"on", .lowPower, waitsAroundBlock⟩ = .ok f ∧
      CommandSequence.synthesize .standard (CommandSequence.unwaited ⟨"on", .lowPower, waitsAroundBlock⟩) = .ok g ∧
      (endedLines f.text).filter isSleepLine = ["\tusleep_range(5000, 6000);", "\tmsleep(120);"] ∧
      g.text = ended ((endedLines f.text).filter (!isSleepLine ·)) ∧
      (∀ requests, List.Forall₂ AsksFor ((endedLines f.text).filter isSleepLine) requests → requests.sum = 125) ∧
      ∃ h, CommandSequence.synthesize { ignoreWait := 5 } ⟨"on", .lowPower, waitsAroundBlock⟩ = .ok h ∧
        (endedLines h.text).Sublist (endedLines f.text) := by
  have all : CommandSequence.statements .standard ⟨"on", .lowPower, waitsAroundBlock⟩ = .ok _ := rfl
  have made := CommandSequence.synthesize_ok_iff.mpr ⟨_, all, rfl⟩
  obtain ⟨-, g, -, silent, -, -, -, without, -, sleeps, -, total, fewer⟩ := CommandSequence.synthesize_sleeps made
  have texts : (waiting 0 waitsAroundBlock).map (fun op => delayLine op.wait.toNat) =
      ["\tusleep_range(5000, 6000);", "\tmsleep(120);"] := by
    decide +kernel
  exact ⟨_, g, made, silent, sleeps.trans texts, without, total rfl (by decide), fewer 5 (Nat.zero_le 5)⟩

end DsiPanel
