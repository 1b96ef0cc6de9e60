import DsiPanel.Kernel.Fragment
import DsiPanel.Proofs.Text.Spaced
import DsiPanel.Proofs.Traversal
import Mathlib.Data.List.SplitBy

/-!
# Fragments and their statements

A fragment has the statement of each operation in order (`CommandSequence.synthesize_ok_iff`), and its
text adds line breaks only. So what a law asks of the text of a fragment can be asked of the texts of
its statements one by one. What is read line by line, such as the text without its blanks, is read off
them one after another (`read_fragment`), and a pattern without a line break occurs in the fragment
exactly if it occurs in one of them (`infix_fragment_iff`).
-/

namespace DsiPanel

/-! ## Statements of a sequence -/

/-- An operation has the statement of its action and of its wait. -/
theorem Operation.statement_ok_iff {settings : Settings} {index : Nat} {op : Operation}
    {statement : Statement} :
    op.statement settings index = .ok statement ↔
      op.action settings.conservative index = .ok statement.action ∧
        statement.delay = effectiveDelay? settings.ignoreWait op.wait := by
  unfold Operation.statement
  cases op.action settings.conservative index with
  | error e => exact ⟨fun h => (nomatch h), fun h => (nomatch h.1)⟩
  | ok action =>
    obtain ⟨action', delay⟩ := statement
    constructor
    · intro h
      cases h
      exact ⟨rfl, rfl⟩
    · rintro ⟨haction, hdelay⟩
      cases haction
      cases hdelay
      rfl

/-- A sequence has the statements of its operations, each at its place. -/
theorem CommandSequence.statements_ok_iff {settings : Settings} {s : CommandSequence}
    {statements : List Statement} :
    s.statements settings = .ok statements ↔
      List.Forall₂ (fun entry statement => entry.1.statement settings entry.2 = .ok statement)
        s.operations.zipIdx statements := mapM_ok_iff_forall₂

/-- A sequence has the fragment of its statements. -/
theorem CommandSequence.synthesize_ok_iff {settings : Settings} {s : CommandSequence}
    {fragment : Fragment} :
    s.synthesize settings = .ok fragment ↔
      ∃ statements, s.statements settings = .ok statements ∧
        fragment = Fragment.ofStatements settings.wrapWidth statements := by
  unfold CommandSequence.synthesize
  cases s.statements settings with
  | error e => exact ⟨fun h => (nomatch h), fun ⟨_, h, _⟩ => (nomatch h)⟩
  | ok statements =>
    constructor
    · intro h
      exact ⟨statements, rfl, (Except.ok.inj h).symm⟩
    · rintro ⟨_, h, rfl⟩
      cases h
      rfl

/-- Operations and their statements, wherever they stand. -/
theorem CommandSequence.forall₂_statements {settings : Settings} {s : CommandSequence}
    {statements : List Statement} (h : s.statements settings = .ok statements) :
    List.Forall₂ (fun op statement => ∃ index, op.statement settings index = .ok statement)
      s.operations statements := by
  have zipped : List.Forall₂ (fun op statement => ∃ index, op.statement settings index = .ok statement)
      (s.operations.zipIdx.map Prod.fst) statements := by
    rw [List.forall₂_map_left_iff]
    exact (CommandSequence.statements_ok_iff.mp h).imp fun entry _ made => ⟨entry.2, made⟩
  rw [List.zipIdx_map_fst] at zipped
  exact zipped

/-- Every statement was made for an operation. -/
theorem CommandSequence.of_mem_statements {settings : Settings} {s : CommandSequence}
    {statements : List Statement} (h : s.statements settings = .ok statements) {statement : Statement}
    (mem : statement ∈ statements) :
    ∃ (op : Operation) (index : Nat), op.statement settings index = .ok statement := by
  have own : ∀ (op : Operation) statement, (∃ index, op.statement settings index = .ok statement) →
      ∃ (op : Operation) (index : Nat), op.statement settings index = .ok statement :=
    fun op _ made => ⟨op, made⟩
  exact forall_right_of_forall₂ (CommandSequence.forall₂_statements h) own statement mem

/-! ## Text of a fragment -/

theorem paragraphs_flatten (statements : List Statement) : (paragraphs statements).flatten = statements :=
  List.flatten_splitBy _ _

theorem toList_paragraphText (width : Nat) (paragraph : List Statement) :
    (paragraphText width paragraph).toList =
      '\n' :: paragraph.flatMap fun s => (s.text width).toList ++ ['\n'] := by
  rw [paragraphText, String.toList_append, String.toList_join, List.flatMap_map]
  simp only [String.toList_append]
  rfl

theorem toList_fragment (width : Nat) (statements : List Statement) :
    (Fragment.ofStatements width statements).text.toList =
      (paragraphs statements).flatMap fun paragraph =>
        '\n' :: paragraph.flatMap fun s => (s.text width).toList ++ ['\n'] := by
  rw [Fragment.ofStatements, String.toList_join, List.flatMap_map]
  simp only [toList_paragraphText]

/-- What is read off a text line by line is read off a fragment statement by statement. -/
theorem read_fragment {α : Type} {read : List Char → List α} (none : read [] = [])
    (lines : ∀ cs ds, read (cs ++ '\n' :: ds) = read cs ++ read ds) (width : Nat) (statements : List Statement) :
    read (Fragment.ofStatements width statements).text.toList =
      statements.flatMap fun s => read (s.text width).toList := by
  have blank (cs : List Char) : read ('\n' :: cs) = read cs := by
    have cut := lines [] cs
    rwa [none, List.nil_append, List.nil_append] at cut
  have inner (paragraph : List Statement) (rest : List Char) :
      read ((paragraph.flatMap fun s => (s.text width).toList ++ ['\n']) ++ rest) =
        (paragraph.flatMap fun s => read (s.text width).toList) ++ read rest := by
    induction paragraph with
    | nil => rfl
    | cons s paragraph ih =>
      rw [List.flatMap_cons, List.append_assoc, List.append_assoc, List.singleton_append, lines, ih,
        List.flatMap_cons, List.append_assoc]
  rw [toList_fragment]
  -- Where the paragraphs are cut does not matter, so the induction is on any run of them.
  conv_rhs => rw [← paragraphs_flatten statements]
  generalize paragraphs statements = blocks
  induction blocks with
  | nil => exact none
  | cons paragraph rest ih =>
    rw [List.flatMap_cons, List.cons_append, blank, inner, ih, List.flatten_cons, List.flatMap_append]

/-- Without blanks a fragment is its statements, one after another. -/
theorem unspaced_fragment (width : Nat) (statements : List Statement) :
    unspaced (Fragment.ofStatements width statements).text.toList =
      statements.flatMap fun s => unspaced (s.text width).toList := by
  refine read_fragment unspaced_nil (fun cs ds => ?_) width statements
  rw [unspaced_append]
  rfl

/-- A pattern without a line break occurs in a fragment exactly if it occurs in a statement. -/
theorem infix_fragment_iff {pattern : List Char} (ne : pattern ≠ []) (clear : '\n' ∉ pattern)
    (width : Nat) (statements : List Statement) :
    pattern <:+: (Fragment.ofStatements width statements).text.toList ↔
      ∃ s ∈ statements, pattern <:+: (s.text width).toList := by
  have lines (paragraph : List Statement) (rest : List Char) :
      pattern <:+: (paragraph.flatMap fun s => (s.text width).toList ++ ['\n']) ++ rest ↔
        (∃ s ∈ paragraph, pattern <:+: (s.text width).toList) ∨ pattern <:+: rest := by
    induction paragraph with
    | nil => simp
    | cons s paragraph ih =>
      rw [List.flatMap_cons, List.append_assoc, List.append_assoc, List.singleton_append,
        infix_append_cons_iff ne clear, ih]
      simp only [List.mem_cons, exists_eq_or_imp, or_assoc]
  rw [toList_fragment]
  conv_rhs => rw [← paragraphs_flatten statements]
  generalize paragraphs statements = blocks
  induction blocks with
  | nil => simpa using ne
  | cons paragraph rest ih =>
    rw [List.flatMap_cons, List.cons_append, infix_mark_cons_iff ne clear, lines, ih]
    simp only [List.flatten_cons, List.mem_append, or_and_right, exists_or]

end DsiPanel
