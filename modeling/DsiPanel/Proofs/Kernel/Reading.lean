import DsiPanel.Proofs.Kernel.Actions
import DsiPanel.Proofs.Kernel.Fragments
import DsiPanel.Proofs.Kernel.Invocation
import DsiPanel.Proofs.Text.Wrapping

/-!
# Reading fragments back

Without its blanks, the text of statements that send something is a run of invocations
(`unspaced_statement_text`). No width leaves a trace in it: wrapping moves white space alone. A sleep
is an invocation as well, of a function that nothing else calls, so the run can be cut into
statements again. **The law** (`fragment_determines`): the text of a fragment determines what each of
its statements invokes and how long it sleeps.
-/

namespace DsiPanel

theorem Call.check_eq (c : Call) : c.check = reportOpening ++ inWords c.subject ++ reportClosing := rfl

/-! ## Invocations of statements -/

/-- The checked call, as it is read in the text. -/
def Call.invocation (c : Call) : Invocation where
  report := some (unspaced (inWords c.subject).toList)
  function := c.function.toList
  arguments := ("dsi" :: c.arguments).map String.toList

/-- The write of literals, as it is read in the text. -/
def writeInvocation (family : WriteFamily) (literals : List String) : Invocation where
  report := none
  function := family.function.toList
  arguments := ("dsi" :: literals).map String.toList

/-- The sleep, as it is read in the text. -/
def sleepInvocation (ms : Nat) : Invocation where
  report := none
  function := (if coarseSleepThreshold ≤ ms then "msleep" else "usleep_range").toList
  arguments :=
    (if coarseSleepThreshold ≤ ms then [ms] else [ms * 1000, ms * 1000 + 1000]).map fun n =>
      (toString n).toList

/-- What an action invokes; a comment invokes nothing. -/
def Action.invocation? : Action → Option Invocation
  | call c => some c.invocation
  | writeBytes family payload => some (writeInvocation family (byteLiterals payload))
  | writeCommand command arguments =>
    some (writeInvocation .dcs (command.identifier :: byteLiterals arguments))
  | ignored _ => none
  | unknown _ => none

/-- The invocations of a statement, in the order of the text. -/
def Statement.invocations (s : Statement) : List Invocation :=
  s.action.invocation?.toList ++ s.delay.toList.map sleepInvocation

/-! ## Their words -/

theorem Call.invocation_plain {c : Call} (h : c.Plain) : c.invocation.Plain := by
  refine ⟨fun _ hc => (mem_kernelFunctions h.function hc).1, List.cons_ne_nil _ _, ?_, ?_⟩
  · intro a mem
    obtain ⟨text, own, rfl⟩ := List.mem_map.mp mem
    rcases List.mem_cons.mp own with rfl | own
    · decide
    · exact (h.arguments text own).isWord
  · intro words mem c hc
    cases mem
    obtain ⟨own, shown⟩ := List.mem_filter.mp hc
    rcases mem_inWords h.subject own with rfl | ⟨word, _⟩
    · exact absurd shown (by decide)
    · exact word

theorem writeInvocation_plain (family : WriteFamily) {literals : List String}
    (words : ∀ literal ∈ literals, IsWord literal) : (writeInvocation family literals).Plain := by
  have function : IsWord family.function := by cases family <;> decide
  refine ⟨function, List.cons_ne_nil _ _, ?_, fun _ mem => (nomatch mem)⟩
  intro a mem
  obtain ⟨text, own, rfl⟩ := List.mem_map.mp mem
  rcases List.mem_cons.mp own with rfl | own
  · decide
  · exact words text own

theorem sleepInvocation_plain (ms : Nat) : (sleepInvocation ms).Plain := by
  have words : ∀ c ∈ (if coarseSleepThreshold ≤ ms then "msleep" else "usleep_range").toList,
      isWordChar c = true := by
    split <;> decide
  refine ⟨words, ?_, ?_, fun _ mem => (nomatch mem)⟩
  · unfold sleepInvocation
    split <;> exact List.cons_ne_nil _ _
  · intro a mem
    obtain ⟨n, _, rfl⟩ := List.mem_map.mp mem
    exact toString_isWord n

theorem Action.invocation_plain {action : Action} (plain : action.Plain) {i : Invocation}
    (h : action.invocation? = some i) : i.Plain := by
  cases plain with
  | call hc =>
    cases h
    exact Call.invocation_plain hc
  | writeBytes family payload =>
    cases h
    exact writeInvocation_plain family byteLiterals_isWord
  | writeCommand command arguments =>
    cases h
    exact writeInvocation_plain .dcs
      (List.forall_mem_cons.mpr ⟨command.identifier_isWord, byteLiterals_isWord⟩)
  | ignored => contradiction
  | unknown => contradiction

/-! ## Their text -/

theorem argumentFrame_separator (head : String) : (argumentFrame head).separator ≠ "" :=
  (by decide : "," ≠ "")

/-- Without blanks an argument list of names and literals is them with commas between. -/
theorem unspaced_argumentList (head : String) (force : Option Nat) (width : Nat) {items : List String}
    (ne : items ≠ []) (words : ∀ item ∈ items, IsWord item) :
    unspaced ((argumentFrame head).render force width items).toList =
      unspaced head.toList ++ ([','].intercalate (items.map String.toList) ++ [')', ';']) := by
  have comma : unspaced ",".toList = [','] := by decide
  have closing : unspaced ");".toList = [')', ';'] := by decide
  have own : items.map (fun item => unspaced item.toList) = items.map String.toList :=
    List.map_congr_left fun item mem => unspaced_of_forall (words item mem).blankless
  rw [unspaced_render (argumentFrame head) (argumentFrame_separator head) force width ne, own]
  show unspaced head.toList ++ ((unspaced ",".toList).intercalate _ ++ unspaced ");".toList) = _
  rw [comma, closing]

/-- Without blanks a write is its invocation. -/
theorem unspaced_writeLine (family : WriteFamily) {literals : List String}
    (words : ∀ literal ∈ literals, IsWord literal) (width : Nat) :
    unspaced (writeLine family literals width).toList = (writeInvocation family literals).code := by
  have items : ∀ item ∈ "dsi" :: literals, IsWord item := List.forall_mem_cons.mpr ⟨by decide, words⟩
  have head : unspaced (toString "\t" ++ toString family.function ++ toString "(").toList =
      family.function.toList ++ ['('] := by
    cases family <;> decide
  rw [writeLine, unspaced_argumentList _ _ _ (List.cons_ne_nil _ _) items, writeInvocation,
    Invocation.code_unchecked, head, List.append_assoc]

/-- Without blanks a checked call is its invocation. -/
theorem unspaced_call {c : Call} (plain : c.Plain) (width : Nat) :
    unspaced (c.line width ++ "\n" ++ c.check).toList = c.invocation.code := by
  have items : ∀ item ∈ "dsi" :: c.arguments, IsWord item :=
    List.forall_mem_cons.mpr ⟨by decide, fun text mem => (plain.arguments text mem).isWord⟩
  have name : unspaced c.function.toList = c.function.toList :=
    unspaced_of_forall fun _ hc => isBlank_of_isWordChar (mem_kernelFunctions plain.function hc).1
  have result : unspaced "\tret = ".toList = ['r', 'e', 't', '='] := by decide
  have opened : unspaced "(".toList = ['('] := by decide
  have head : unspaced (toString "\tret = " ++ toString c.function ++ toString "(").toList =
      'r' :: 'e' :: 't' :: '=' :: c.function.toList ++ ['('] := by
    show unspaced ("\tret = " ++ c.function ++ "(").toList = _
    simp only [String.toList_append, unspaced_append, name, result, opened]
    rfl
  have line : unspaced "\n".toList = [] := by decide
  have check : unspaced c.check.toList =
      unspaced reportOpening.toList ++
        (unspaced (inWords c.subject).toList ++ unspaced reportClosing.toList) := by
    rw [Call.check_eq, String.toList_append, String.toList_append, unspaced_append, unspaced_append,
      List.append_assoc]
  rw [String.toList_append, String.toList_append, unspaced_append, unspaced_append, line, check, Call.line,
    unspaced_argumentList _ _ _ (List.cons_ne_nil _ _) items, head, Call.invocation,
    Invocation.code_checked]
  simp only [List.append_assoc, List.cons_append, List.nil_append]

/-- The line of a coarse sleep, and that of a fine one. -/
theorem delayLine_eq (ms : Nat) :
    delayLine ms =
      if coarseSleepThreshold ≤ ms then "\tmsleep(" ++ toString ms ++ ");"
      else "\tusleep_range(" ++ toString (ms * 1000) ++ ", " ++ toString (ms * 1000 + 1000) ++ ");" := by
  have plain (s : String) : toString s = s := rfl
  have closing : ");" = ")" ++ ";" := by decide
  unfold delayLine sleepCall
  split
  · have opening : "\tmsleep(" = "\t" ++ "msleep(" := by decide
    simp only [plain, opening, closing, String.append_assoc]
  · have opening : "\tusleep_range(" = "\t" ++ "usleep_range(" := by decide
    simp only [plain, opening, closing, String.append_assoc]

/-- Without blanks the text of an action is its invocation, at every width. -/
theorem unspaced_action_text {action : Action} (plain : action.Plain) {i : Invocation}
    (h : action.invocation? = some i) (width : Nat) : unspaced (action.text width).toList = i.code := by
  cases plain with
  | call hc =>
    cases h
    exact unspaced_call hc width
  | writeBytes family payload =>
    cases h
    exact unspaced_writeLine family byteLiterals_isWord width
  | writeCommand command arguments =>
    cases h
    exact unspaced_writeLine .dcs
      (List.forall_mem_cons.mpr ⟨command.identifier_isWord, byteLiterals_isWord⟩) width
  | ignored => contradiction
  | unknown => contradiction

theorem unspaced_delayLine (ms : Nat) : unspaced (delayLine ms).toList = (sleepInvocation ms).code := by
  have number (n : Nat) : unspaced (toString n).toList = (toString n).toList :=
    unspaced_of_forall (toString_isWord n).blankless
  have closing : unspaced ");".toList = [')', ';'] := by decide
  rw [delayLine_eq]
  unfold sleepInvocation
  split
  next coarse =>
    have opening : unspaced "\tmsleep(".toList = "msleep".toList ++ ['('] := by decide
    simp only [String.toList_append, unspaced_append, opening, closing, number, Invocation.code_unchecked,
      List.map_cons, List.map_nil, List.intercalate_singleton, List.append_assoc]
  next fine =>
    have opening : unspaced "\tusleep_range(".toList = "usleep_range".toList ++ ['('] := by decide
    have comma : unspaced ", ".toList = [','] := by decide
    simp only [String.toList_append, unspaced_append, opening, comma, closing, number,
      Invocation.code_unchecked, List.map_cons, List.map_nil, List.intercalate_cons_cons,
      List.intercalate_singleton, List.append_assoc]

/-- Without blanks the text of a statement is its invocations, one after another. -/
theorem unspaced_statement_text {s : Statement} (plain : s.action.Plain) {i : Invocation}
    (h : s.action.invocation? = some i) (width : Nat) :
    unspaced (s.text width).toList = s.invocations.flatMap Invocation.code := by
  have action := unspaced_action_text plain h width
  have line : unspaced "\n".toList = [] := by decide
  unfold Statement.text Statement.invocations
  rw [h]
  cases s.delay with
  | none =>
    rw [action]
    simp
  | some ms =>
    simp only [String.toList_append, unspaced_append, action, line, unspaced_delayLine]
    simp

/-! ## Cutting the run -/

/-- The functions that sleep. -/
def sleepFunctions : List (List Char) := ["msleep".toList, "usleep_range".toList]

theorem sleepInvocation_function (ms : Nat) : (sleepInvocation ms).function ∈ sleepFunctions := by
  unfold sleepInvocation
  split <;> simp [sleepFunctions]

/-- The milliseconds can be read off a sleep. -/
theorem sleepInvocation_injective : Function.Injective sleepInvocation := by
  intro a b h
  have names : "msleep".toList ≠ "usleep_range".toList := by decide
  have digits {m n : Nat} (h : (toString m).toList = (toString n).toList) : m = n :=
    toString_injective (String.toList_inj.mp h)
  obtain ⟨-, function, arguments⟩ := Invocation.mk.inj h
  by_cases coarse : coarseSleepThreshold ≤ a
  · by_cases coarse' : coarseSleepThreshold ≤ b
    · rw [if_pos coarse, if_pos coarse'] at arguments
      exact digits (List.cons.inj arguments).1
    · rw [if_pos coarse, if_neg coarse'] at function
      exact absurd function names
  · by_cases coarse' : coarseSleepThreshold ≤ b
    · rw [if_neg coarse, if_pos coarse'] at function
      exact absurd function.symm names
    · rw [if_neg coarse, if_neg coarse'] at arguments
      have micros := digits (List.cons.inj arguments).1
      omega

/-- An action that sends something is no sleep. -/
theorem Action.invocation_function {action : Action} (plain : action.Plain) {i : Invocation}
    (h : action.invocation? = some i) : i.function ∉ sleepFunctions := by
  have write (family : WriteFamily) : family.function.toList ∉ sleepFunctions := by
    cases family <;> decide
  cases plain with
  | call hc =>
    cases h
    have started : ∀ sleep ∈ sleepFunctions, ∃ start ∈ sleepPrefixes, start <+: sleep := by decide
    intro sleep
    obtain ⟨start, mem, inside⟩ := started _ sleep
    exact kernelFunctions_not_sleep hc.function mem inside.isInfix
  | writeBytes family payload =>
    cases h
    exact write family
  | writeCommand command arguments =>
    cases h
    exact write .dcs
  | ignored => contradiction
  | unknown => contradiction

/-- A statement that sends something. -/
def Statement.Sends (s : Statement) : Prop := s.action.Plain ∧ ∃ i, s.action.invocation? = some i

/-- Two statements invoke the same and sleep alike. -/
def Statement.Alike (a b : Statement) : Prop :=
  a.action.invocation? = b.action.invocation? ∧ a.delay = b.delay

theorem Statement.invocations_plain {s : Statement} (h : s.Sends) : ∀ i ∈ s.invocations, i.Plain := by
  intro i mem
  rcases List.mem_append.mp mem with own | sleep
  · exact Action.invocation_plain h.1 (Option.mem_toList.mp own)
  · obtain ⟨ms, _, rfl⟩ := List.mem_map.mp sleep
    exact sleepInvocation_plain ms

/-- A run of statements does not start with a sleep. -/
theorem flatMap_invocations_ne {statements : List Statement} (h : ∀ s ∈ statements, s.Sends) (ms : Nat)
    (rest : List Invocation) : statements.flatMap Statement.invocations ≠ sleepInvocation ms :: rest := by
  cases statements with
  | nil => exact (List.cons_ne_nil _ _).symm
  | cons s statements =>
    obtain ⟨plain, i, hi⟩ := h s List.mem_cons_self
    intro heq
    rw [List.flatMap_cons, Statement.invocations, hi] at heq
    have first : i = sleepInvocation ms := (List.cons.inj heq).1
    exact Action.invocation_function plain hi (first ▸ sleepInvocation_function ms)

/-- The run of invocations can be cut into statements in one way only. -/
theorem flatMap_invocations_injOn {ss ts : List Statement} (hs : ∀ s ∈ ss, s.Sends)
    (ht : ∀ t ∈ ts, t.Sends) (h : ss.flatMap Statement.invocations = ts.flatMap Statement.invocations) :
    List.Forall₂ Statement.Alike ss ts := by
  induction ss generalizing ts with
  | nil =>
    cases ts with
    | nil => exact .nil
    | cons t ts =>
      obtain ⟨⟨_, j, hj⟩, _⟩ := List.forall_mem_cons.mp ht
      rw [List.flatMap_nil, List.flatMap_cons, Statement.invocations, hj] at h
      exact absurd h.symm (List.cons_ne_nil _ _)
  | cons s ss ih =>
    obtain ⟨⟨_, i, hi⟩, others⟩ := List.forall_mem_cons.mp hs
    cases ts with
    | nil =>
      rw [List.flatMap_nil, List.flatMap_cons, Statement.invocations, hi] at h
      exact absurd h (List.cons_ne_nil _ _)
    | cons t ts =>
      obtain ⟨⟨_, j, hj⟩, others'⟩ := List.forall_mem_cons.mp ht
      rw [List.flatMap_cons, List.flatMap_cons, Statement.invocations, Statement.invocations, hi, hj] at h
      obtain ⟨rfl, rest⟩ := List.cons.inj h
      have action : s.action.invocation? = t.action.invocation? := hi.trans hj.symm
      -- Where only one of the two sleeps, the other run would have to go on with a sleep.
      cases ds : s.delay with
      | none =>
        cases dt : t.delay with
        | none =>
          rw [ds, dt] at rest
          exact .cons ⟨action, ds.trans dt.symm⟩ (ih others others' rest)
        | some ms =>
          rw [ds, dt] at rest
          exact absurd rest (flatMap_invocations_ne others ms _)
      | some ms =>
        cases dt : t.delay with
        | none =>
          rw [ds, dt] at rest
          exact absurd rest.symm (flatMap_invocations_ne others' ms _)
        | some ms' =>
          rw [ds, dt] at rest
          obtain ⟨sleep, rest⟩ := List.cons.inj rest
          have same : ms = ms' := sleepInvocation_injective sleep
          exact .cons ⟨action, by rw [ds, dt, same]⟩ (ih others others' rest)

/-- The text of a fragment determines what each of its statements invokes and how long it sleeps. -/
theorem fragment_determines {width : Nat} {ss ts : List Statement} (hs : ∀ s ∈ ss, s.Sends)
    (ht : ∀ t ∈ ts, t.Sends)
    (h : (Fragment.ofStatements width ss).text = (Fragment.ofStatements width ts).text) :
    List.Forall₂ Statement.Alike ss ts := by
  -- Blanks are all that the width changes, so both texts are compared without them.
  have run {us : List Statement} (hu : ∀ u ∈ us, u.Sends) :
      unspaced (Fragment.ofStatements width us).text.toList =
        (us.flatMap Statement.invocations).flatMap Invocation.code := by
    rw [unspaced_fragment, List.flatMap_assoc]
    refine List.flatMap_congr fun u mem => ?_
    obtain ⟨plain, i, hi⟩ := hu u mem
    exact unspaced_statement_text plain hi width
  have plain {us : List Statement} (hu : ∀ u ∈ us, u.Sends) :
      ∀ i ∈ us.flatMap Statement.invocations, i.Plain := by
    intro i mem
    obtain ⟨u, hmem, mem⟩ := List.mem_flatMap.mp mem
    exact Statement.invocations_plain (hu u hmem) i mem
  have codes := (run hs).symm.trans ((congrArg (fun text => unspaced text.toList) h).trans (run ht))
  exact flatMap_invocations_injOn hs ht (Invocation.code_flatMap_injOn (plain hs) (plain ht) codes)

end DsiPanel
