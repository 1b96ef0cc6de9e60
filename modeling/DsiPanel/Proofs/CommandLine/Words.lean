import DsiPanel.CommandLine.Options

/-!
# How a command line is read

The words of a command line are read from the front, one option at a time. `Options.Reads` says what each
reading takes and does, and `Options.readWords?_eq_some_iff` that there is no other; what holds of a command
line is then shown by induction on its reading.

So a file to read the dump from can be exchanged for a dump (`Options.exists_words_of_file`): its option is
taken out, wherever it stands, and the dump is put behind all words, where it can have any text.
-/

namespace DsiPanel

namespace Options

/-- The options `p` are those that the words make of `o`. -/
inductive Reads : Options → List String → Options → Prop
  | done (o : Options) : Reads o [] o
  | ended (o p : Options) (rest : List String) (dumps : o.readDumps? rest = some p) : Reads o ("--" :: rest) p
  | dump (o next p : Options) (word : String) (rest : List String) (unended : word ≠ "--")
      (plain : looksLikeOption word = false) (put : o.setDump? word = some next) (later : Reads next rest p) :
      Reads o (word :: rest) p
  | inWord (o next p : Options) (option : OptionName) (value word : String) (rest : List String)
      (unended : word ≠ "--") (marked : looksLikeOption word = true)
      (named : ofWord? word.toList = some (option, some value)) (put : o.setValue? value option = some next)
      (later : Reads next rest p) : Reads o (word :: rest) p
  | flag (o next p : Options) (option : OptionName) (word : String) (rest : List String)
      (unended : word ≠ "--") (marked : looksLikeOption word = true)
      (named : ofWord? word.toList = some (option, none)) (bare : option.takesValue = false)
      (put : o.setFlag? option = some next) (later : Reads next rest p) : Reads o (word :: rest) p
  | nextWord (o next p : Options) (option : OptionName) (value word : String) (rest : List String)
      (unended : word ≠ "--") (marked : looksLikeOption word = true)
      (named : ofWord? word.toList = some (option, none)) (valued : option.takesValue = true)
      (plain : looksLikeOption value = false) (put : o.setValue? value option = some next)
      (later : Reads next rest p) : Reads o (word :: value :: rest) p

theorem readWords?_eq_some_iff {o p : Options} {words : List String} :
    o.readWords? words = some p ↔ Reads o words p := by
  constructor
  · intro h
    induction o, words using readWords?.induct with
    | case1 o =>
      cases h
      exact .done _
    | case2 o rest => exact .ended o p rest h
    | case3 o word rest unended plain ih =>
      unfold readWords? at h
      rw [if_neg unended, if_pos plain] at h
      obtain ⟨next, put, later⟩ := Option.bind_eq_some_iff.mp h
      exact .dump o next p word rest unended (Bool.not_eq_true' _ ▸ plain) put (ih next later)
    | case4 o word rest unended marked unnamed =>
      unfold readWords? at h
      rw [if_neg unended, if_neg marked] at h
      simp only [unnamed, reduceCtorEq] at h
    | case5 o word unended marked option value rest named ih =>
      unfold readWords? at h
      rw [if_neg unended, if_neg marked] at h
      simp only [named] at h
      obtain ⟨next, put, later⟩ := Option.bind_eq_some_iff.mp h
      exact .inWord o next p option value word rest unended (by simpa using marked) named put (ih next later)
    | case6 o word unended marked option rest named bare ih =>
      unfold readWords? at h
      rw [if_neg unended, if_neg marked] at h
      simp only [named, if_pos bare] at h
      obtain ⟨next, put, later⟩ := Option.bind_eq_some_iff.mp h
      exact .flag o next p option word rest unended (by simpa using marked) named (by simpa using bare) put
        (ih next later)
    | case7 o word unended marked option named valued =>
      unfold readWords? at h
      rw [if_neg unended, if_neg marked] at h
      simp only [named, if_neg valued, reduceCtorEq] at h
    | case8 o word unended marked option named valued value rest looks =>
      unfold readWords? at h
      rw [if_neg unended, if_neg marked] at h
      simp only [named, if_neg valued, if_pos looks, reduceCtorEq] at h
    | case9 o word unended marked option named valued value rest plain ih =>
      unfold readWords? at h
      rw [if_neg unended, if_neg marked] at h
      simp only [named, if_neg valued, if_neg plain] at h
      obtain ⟨next, put, later⟩ := Option.bind_eq_some_iff.mp h
      exact .nextWord o next p option value word rest unended (by simpa using marked) named
        (by simpa using valued) (by simpa using plain) put (ih next later)
  · intro h
    induction h with
    | done o => rfl
    | ended o p rest dumps => exact dumps
    | dump o next p word rest unended plain put _ ih =>
      unfold readWords?
      simp only [if_neg unended, plain, Bool.not_false, if_true, put, Option.bind_eq_bind, Option.bind_some, ih]
    | inWord o next p option value word rest unended marked named put _ ih =>
      unfold readWords?
      simp only [if_neg unended, marked, Bool.not_true, Bool.false_eq_true, if_false, named, put,
        Option.bind_eq_bind, Option.bind_some, ih]
    | flag o next p option word rest unended marked named bare put _ ih =>
      unfold readWords?
      simp only [if_neg unended, marked, Bool.not_true, Bool.false_eq_true, if_false, named, bare,
        Bool.not_false, if_true, put, Option.bind_eq_bind, Option.bind_some, ih]
    | nextWord o next p option value word rest unended marked named valued plain put _ ih =>
      unfold readWords?
      simp only [if_neg unended, marked, Bool.not_true, Bool.false_eq_true, if_false, named, valued, plain,
        put, Option.bind_eq_bind, Option.bind_some, ih]

/-! ## The dump and its file -/

section Dump

variable {o p : Options} {option : OptionName} {text : String}

theorem setDump?_eq_some_iff : o.setDump? text = some p ↔ o.dump = none ∧ { o with dump := some text } = p := by
  unfold setDump? once?
  cases o.dump <;>
    simp only [Option.isSome_none, Option.isSome_some, Bool.false_eq_true, if_true, if_false, Option.map_none,
      Option.map_some, Option.some.injEq, reduceCtorEq, true_and, false_and]

/-- The words behind those that end the options are a dump or nothing. -/
theorem readDumps?_eq_some_iff {words : List String} :
    o.readDumps? words = some p ↔
      words = [] ∧ o = p ∨ ∃ text, words = [text] ∧ o.setDump? text = some p := by
  match words with
  | [] => simp only [readDumps?, List.foldlM_nil, pure, Option.some.injEq, true_and, reduceCtorEq, false_and,
      exists_false, or_false]
  | [text] => simp only [readDumps?, List.foldlM_cons, List.foldlM_nil, Option.bind_eq_bind, pure,
      Option.bind_fun_some, reduceCtorEq, false_and, List.cons.injEq, and_true, exists_eq_left', false_or]
  | first :: second :: rest =>
    refine iff_of_false (fun read => ?_) (by simp only [reduceCtorEq, List.cons.injEq, and_false, false_and,
      exists_false, or_false, not_false_eq_true])
    -- The second word comes upon the dump that the first one is.
    obtain ⟨next, put, later⟩ := Option.bind_eq_some_iff.mp read
    obtain ⟨last, again, -⟩ := Option.bind_eq_some_iff.mp later
    obtain ⟨-, rfl⟩ := setDump?_eq_some_iff.mp put
    cases (setDump?_eq_some_iff.mp again).1

/-- The option that names a file is taken out; any other is set the same without the file. -/
theorem setValue?_without_file (put : o.setValue? text option = some p) :
    p.dump = o.dump ∧
      ({ p with file := none } = { o with file := none } ∨
        setValue? { o with file := none } text option = some { p with file := none }) := by
  cases option with
  | file =>
    obtain ⟨value, -, rfl⟩ := Option.map_eq_some_iff.mp put
    exact ⟨rfl, .inl rfl⟩
  | conservative => cases put
  | ignoreWait =>
    obtain ⟨free, put⟩ := Option.ite_none_left_eq_some.mp put
    obtain ⟨value, own, rfl⟩ := Option.map_eq_some_iff.mp put
    exact ⟨rfl, .inr (Option.ite_none_left_eq_some.mpr ⟨free, Option.map_eq_some_iff.mpr ⟨value, own, rfl⟩⟩)⟩
  | _ =>
    obtain ⟨value, own, rfl⟩ := Option.map_eq_some_iff.mp put
    exact ⟨rfl, .inr (Option.map_eq_some_iff.mpr ⟨value, own, rfl⟩)⟩

theorem setFlag?_without_file (put : o.setFlag? option = some p) :
    p.dump = o.dump ∧ setFlag? { o with file := none } option = some { p with file := none } := by
  cases option with
  | conservative =>
    obtain ⟨free, put⟩ := Option.ite_none_left_eq_some.mp put
    cases put
    exact ⟨rfl, Option.ite_none_left_eq_some.mpr ⟨free, rfl⟩⟩
  | _ => cases put

/-- A dump that is given stays. -/
theorem Reads.dump_eq_none {words : List String} (h : Reads o words p) (undumped : p.dump = none) :
    o.dump = none := by
  induction h with
  | done => exact undumped
  | ended o p rest dumps =>
    rcases readDumps?_eq_some_iff.mp dumps with ⟨-, rfl⟩ | ⟨text, -, put⟩
    · exact undumped
    · exact (setDump?_eq_some_iff.mp put).1
  | dump o next p word rest unended plain put => exact (setDump?_eq_some_iff.mp put).1
  | inWord o next p option value word rest unended marked named put _ ih =>
    exact (setValue?_without_file put).1.symm.trans (ih undumped)
  | flag o next p option word rest unended marked named bare put _ ih =>
    exact (setFlag?_without_file put).1.symm.trans (ih undumped)
  | nextWord o next p option value word rest unended marked named valued plain put _ ih =>
    exact (setValue?_without_file put).1.symm.trans (ih undumped)

/-- Without the option that names a file, and with a dump behind the words, they are read to the same
options but for the two. -/
theorem Reads.exists_without_file {words : List String} (h : Reads o words p) (undumped : p.dump = none)
    (text : String) :
    ∃ others, Reads { o with file := none } others { p with file := none, dump := some text } := by
  have behind (o : Options) (undumped : o.dump = none) :
      Reads { o with file := none } ["--", text] { o with file := none, dump := some text } :=
    .ended _ _ [text] (readDumps?_eq_some_iff.mpr (.inr ⟨text, rfl, setDump?_eq_some_iff.mpr ⟨undumped, rfl⟩⟩))
  induction h with
  | done o => exact ⟨["--", text], behind o undumped⟩
  | ended o p rest dumps =>
    rcases readDumps?_eq_some_iff.mp dumps with ⟨-, rfl⟩ | ⟨dump, -, put⟩
    · exact ⟨["--", text], behind o undumped⟩
    · obtain ⟨-, rfl⟩ := setDump?_eq_some_iff.mp put
      cases undumped
  | dump o next p word rest unended plain put later =>
    obtain ⟨-, rfl⟩ := setDump?_eq_some_iff.mp put
    cases later.dump_eq_none undumped
  | inWord o next p option value word rest unended marked named put _ ih =>
    obtain ⟨others, read⟩ := ih undumped
    rcases (setValue?_without_file put).2 with same | put
    · exact ⟨others, same ▸ read⟩
    · exact ⟨word :: others, .inWord _ _ _ option value word others unended marked named put read⟩
  | flag o next p option word rest unended marked named bare put _ ih =>
    obtain ⟨others, read⟩ := ih undumped
    exact ⟨word :: others, .flag _ _ _ option word others unended marked named bare
      (setFlag?_without_file put).2 read⟩
  | nextWord o next p option value word rest unended marked named valued plain put _ ih =>
    obtain ⟨others, read⟩ := ih undumped
    rcases (setValue?_without_file put).2 with same | put
    · exact ⟨others, same ▸ read⟩
    · exact ⟨word :: value :: others, .nextWord _ _ _ option value word others unended marked named valued
        plain put read⟩

/-- A dump has a command line of its own, whichever reads it from a file. -/
theorem exists_words_of_file {words : List String} {path : String} (accepted : ofWords? words = some o)
    (named : o.file = some path) (text : String) :
    ∃ others, ofWords? others = some { o with file := none, dump := some text } := by
  obtain ⟨read, single⟩ := Option.filter_eq_some_iff.mp accepted
  have undumped : o.dump = none := by
    rw [named] at single
    simpa using single
  obtain ⟨others, read⟩ := (readWords?_eq_some_iff.mp read).exists_without_file undumped text
  exact ⟨others, Option.filter_eq_some_iff.mpr ⟨readWords?_eq_some_iff.mpr read, rfl⟩⟩

end Dump

end Options

end DsiPanel
