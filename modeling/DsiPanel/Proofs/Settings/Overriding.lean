import DsiPanel.Proofs.Settings.Layers
import DsiPanel.Proofs.Text.Numeral

/-!
# Overriding that fails midway

Variables replace settings one after another, and a variable that says nothing ends the run where it stands. So
a failure leaves settings behind that are partly replaced, and the law is about them as much as about the error.

**The law** (`Settings.override_delimited`): overriding has one of three outcomes (`Settings.Overridden`). All
fields are taken and the width is not zero; or all are taken, the width is zero, and it stays stored while it is
told; or the first field whose variable says nothing is told, the fields before it are taken, and it and the
fields after it are left. Nothing but the three variables is asked.

What a text says of a field is told apart from how it is read (`SettingsField.Says`): a number is digits, with
one plus sign at most, within the bound of the field, a flag is one of eight words in any case, and blanks
around either count for nothing.
-/

namespace DsiPanel

/-! ## What a text says -/

/-- The words that say a flag. -/
def flagWords : Bool → List String
  | true => ["1", "true", "yes", "on"]
  | false => ["0", "false", "no", "off"]

/-- The text is a word for the flag, its letters in any case, with blanks around it. -/
def WritesFlag (text : String) (flag : Bool) : Prop :=
  ∃ word, BlanksAround word text.toList ∧ ∃ small ∈ flagWords flag, word.map Char.toLower = small.toList

theorem toLower_of_isBlank {c : Char} (h : isBlank c = true) : c.toLower = c := by
  unfold Char.toLower
  split
  next upper =>
    have letter : isWordChar c = true := isWordChar_iff.mpr (.inl ⟨upper.1, upper.2⟩)
    exact absurd (h.symm.trans (isBlank_of_isWordChar letter)) (by decide)
  next => rfl

/-- A flag is read where the text without its blanks is one of the words, but for the case of its letters. -/
theorem readFlag?_eq_some_iff_mem {text : String} {flag : Bool} :
    readFlag? text = some flag ↔
      String.ofList ((trimBlanks text.toList).map Char.toLower) ∈ flagWords flag := by
  have apart : ∀ word ∈ flagWords false, word ∉ flagWords true := by decide
  unfold readFlag?
  extract_lets word
  simp only [List.contains_iff_mem]
  split
  next yes =>
    cases flag with
    | true => exact iff_of_true rfl yes
    | false => exact iff_of_false (nomatch ·) fun no => apart word no yes
  next notYes =>
    split
    next no =>
      cases flag with
      | true => exact iff_of_false (nomatch ·) notYes
      | false => exact iff_of_true rfl no
    next notNo =>
      cases flag with
      | true => exact iff_of_false (nomatch ·) notYes
      | false => exact iff_of_false (nomatch ·) notNo

theorem readFlag?_eq_some_iff {text : String} {flag : Bool} :
    readFlag? text = some flag ↔ WritesFlag text flag := by
  have shown : ∀ flag, ∀ small ∈ flagWords flag, ∀ c ∈ small.toList, isBlank c = false := by decide
  rw [readFlag?_eq_some_iff_mem]
  constructor
  · intro word
    exact ⟨_, blanksAround_trimBlanks text.toList, _, word, (String.toList_ofList).symm⟩
  · rintro ⟨word, around, small, mem, lower⟩
    have solid : ∀ c ∈ word, isBlank c = false := by
      intro c inWord
      by_contra blank
      have blank : isBlank c = true := Bool.not_eq_false _ ▸ blank
      have letter : c.toLower ∈ small.toList := lower ▸ List.mem_map_of_mem inWord
      rw [toLower_of_isBlank blank] at letter
      exact absurd (blank.symm.trans (shown flag small mem c letter)) (by decide)
    rw [around.trimBlanks_eq solid, lower, String.ofList_toList]
    exact mem

namespace SettingsField

/-- What the text of a variable says of a field. -/
inductive Says (text : String) : SettingsField → SettingsValue → Prop
  | ignoreWait {n : Nat} (number : WritesNumber 4294967296 text n) : Says text ignoreWait (.number n)
  | conservative {flag : Bool} (word : WritesFlag text flag) : Says text conservative (.flag flag)
  | wrapWidth {n : Nat} (number : WritesNumber 18446744073709551616 text n) : Says text wrapWidth (.number n)

theorem ofText?_eq_some_iff {text : String} {field : SettingsField} {value : SettingsValue} :
    field.ofText? text = some value ↔ field.Says text value := by
  constructor
  · intro h
    cases field with
    | ignoreWait =>
      obtain ⟨n, number, rfl⟩ := Option.map_eq_some_iff.mp h
      exact .ignoreWait (readUnsigned?_eq_some_iff.mp number)
    | conservative =>
      obtain ⟨flag, word, rfl⟩ := Option.map_eq_some_iff.mp h
      exact .conservative (readFlag?_eq_some_iff.mp word)
    | wrapWidth =>
      obtain ⟨n, number, rfl⟩ := Option.map_eq_some_iff.mp h
      exact .wrapWidth (readUnsigned?_eq_some_iff.mp number)
  · intro h
    cases h with
    | ignoreWait number => exact Option.map_eq_some_iff.mpr ⟨_, readUnsigned?_eq_some_iff.mpr number, rfl⟩
    | conservative word => exact Option.map_eq_some_iff.mpr ⟨_, readFlag?_eq_some_iff.mpr word, rfl⟩
    | wrapWidth number => exact Option.map_eq_some_iff.mpr ⟨_, readUnsigned?_eq_some_iff.mpr number, rfl⟩

theorem ofText?_eq_none_iff {text : String} {field : SettingsField} :
    field.ofText? text = none ↔ ∀ value, ¬ field.Says text value := by
  simp only [Option.eq_none_iff_forall_ne_some, ne_eq, ofText?_eq_some_iff]

/-- What a field is after its variable: what the variable says where it is set, and what it was otherwise. -/
inductive After (lookup : String → Option String) (field : SettingsField) (before : SettingsValue) :
    SettingsValue → Prop
  | unset (missing : lookup field.variableName = none) : After lookup field before before
  | replaced {text : String} {value : SettingsValue} (given : lookup field.variableName = some text)
      (said : field.Says text value) : After lookup field before value

theorem After.exists_said {lookup : String → Option String} {field : SettingsField}
    {before value : SettingsValue} {text : String} (h : field.After lookup before value)
    (given : lookup field.variableName = some text) : ∃ own, field.Says text own := by
  cases h with
  | unset missing => cases missing.symm.trans given
  | replaced found said =>
    cases found.symm.trans given
    exact ⟨_, said⟩

theorem fromVariable_iff {lookup : String → Option String} {field : SettingsField}
    {before value : SettingsValue} :
    field.FromVariable lookup (· = before) value ↔ field.After lookup before value := by
  unfold FromVariable
  constructor
  · intro h
    cases found : lookup field.variableName with
    | none =>
      obtain rfl := h.missing found
      exact .unset found
    | some text => exact .replaced found (ofText?_eq_some_iff.mp (h.given text found))
  · intro h
    cases h with
    | unset missing => rw [missing, layer_none_iff]
    | replaced given said =>
      rw [given, layer_some_iff]
      exact ofText?_eq_some_iff.mpr said

end SettingsField

namespace Settings

/-! ## Outcomes -/

/-- What overriding leaves behind and what it tells. -/
inductive Overridden (lookup : String → Option String) (s : Settings) : Settings → Option SettingsError → Prop
  | whole {t : Settings}
      (each : ∀ field, SettingsField.After lookup field (field.valueIn s) (field.valueIn t))
      (width : t.wrapWidth ≠ 0) : Overridden lookup s t none
  | zeroWidth {t : Settings}
      (each : ∀ field, SettingsField.After lookup field (field.valueIn s) (field.valueIn t))
      (zero : t.wrapWidth = 0) : Overridden lookup s t (some (.invalid .wrapWidth "0"))
  | silent {t : Settings} {done rest : List SettingsField} {field : SettingsField} {text : String}
      (order : [.ignoreWait, .conservative, .wrapWidth] = done ++ field :: rest)
      (each : ∀ other ∈ done, other.After lookup (other.valueIn s) (other.valueIn t))
      (given : lookup field.variableName = some text) (nothing : ∀ value, ¬ field.Says text value)
      (left : ∀ other ∈ field :: rest, other.valueIn t = other.valueIn s) :
      Overridden lookup s t (some (.invalid field text))

section Outcomes

variable {lookup : String → Option String} {s t : Settings} {result : Option SettingsError}

theorem taken_all_iff :
    Taken lookup SettingsField.all s t ↔
      ∀ field, SettingsField.After lookup field (field.valueIn s) (field.valueIn t) := by
  simp only [← SettingsField.fromVariable_iff]
  exact ⟨fun h field => h.own field field.mem_all,
    fun own => ⟨fun field _ => own field, fun field out => absurd field.mem_all out⟩⟩

/-- A run stops at the first variable that says nothing, with the settings that it has made so far. -/
theorem replaceFields_of_silent {done rest : List SettingsField} {field : SettingsField} {text : String}
    (nodup : done.Nodup) (taken : Taken lookup done s t) (given : lookup field.variableName = some text)
    (silent : field.ofText? text = none) :
    replaceFields lookup (done ++ field :: rest) s = (t, some (.invalid field text)) := by
  rw [replaceFields_append nodup taken]
  rcases replaceFields_cons lookup field rest t with ⟨said, found, -, stop⟩ | ⟨u, own, -, -⟩
  · obtain rfl := Option.some.inj (given.symm.trans found)
    exact stop
  · exact absurd (silent.symm.trans (own.given text given)) (nomatch ·)

theorem override_of_taken (taken : Taken lookup SettingsField.all s t) : s.override lookup = (t, t.fault?) := by
  have run : replaceFields lookup SettingsField.all s = (t, none) := replaceFields_append (by decide) taken []
  rw [override, run]

theorem override_iff : s.override lookup = (t, result) ↔ Overridden lookup s t result := by
  have nodup : SettingsField.all.Nodup := by decide
  constructor
  · intro h
    rcases replaceFields_cases nodup s with
      ⟨u, taken, -⟩ | ⟨done, field, rest, text, u, order, taken, given, silent, run⟩
    · rw [override_of_taken taken] at h
      obtain ⟨rfl, rfl⟩ := Prod.mk.inj h
      by_cases zero : u.wrapWidth = 0
      · rw [fault?_of_zero zero]
        exact .zeroWidth (taken_all_iff.mp taken) zero
      · rw [fault?_eq_none_iff.mpr zero]
        exact .whole (taken_all_iff.mp taken) zero
    · rw [override, run] at h
      obtain ⟨rfl, rfl⟩ := Prod.mk.inj h
      have apart := (List.nodup_append.mp (order ▸ nodup)).2.2
      refine .silent order (fun other mem => SettingsField.fromVariable_iff.mp (taken.own other mem)) given
        (SettingsField.ofText?_eq_none_iff.mp silent) fun other mem => taken.left other fun before => ?_
      exact apart other before other mem rfl
  · intro h
    cases h with
    | whole each width => rw [override_of_taken (taken_all_iff.mpr each), fault?_eq_none_iff.mpr width]
    | zeroWidth each zero => rw [override_of_taken (taken_all_iff.mpr each), fault?_of_zero zero]
    | @silent done rest field text order each given nothing left =>
      have all : SettingsField.all = done ++ field :: rest := order
      have taken : Taken lookup done s t := by
        refine ⟨fun other mem => SettingsField.fromVariable_iff.mpr (each other mem), fun other out => ?_⟩
        exact left other ((List.mem_append.mp (all ▸ other.mem_all)).resolve_left out)
      have first : done.Nodup := (List.nodup_append.mp (all ▸ nodup)).1
      have silent : field.ofText? text = none := SettingsField.ofText?_eq_none_iff.mpr nothing
      rw [override, all, replaceFields_of_silent first taken given silent]

/-- Overriding succeeds exactly if every variable that is set says something of its field and leaves no width of
zero. -/
theorem override_ok_iff :
    (s.override lookup).2 = none ↔
      (∀ field text, lookup (SettingsField.variableName field) = some text → ∃ value, field.Says text value) ∧
        (s.override lookup).1.wrapWidth ≠ 0 := by
  cases made : s.override lookup with
  | mk t result =>
    cases override_iff.mp made with
    | whole each width => exact iff_of_true rfl ⟨fun field text given => (each field).exists_said given, width⟩
    | zeroWidth _ zero => exact iff_of_false (nomatch ·) fun ⟨_, width⟩ => width zero
    | silent _ _ given nothing _ =>
      refine iff_of_false (nomatch ·) fun ⟨said, _⟩ => ?_
      obtain ⟨value, own⟩ := said _ _ given
      exact nothing value own

end Outcomes

/-- What overriding leaves and tells, whatever the settings were and whatever the variables say. It succeeds
exactly if every variable that is set says something and the final width is not zero; and no variable but those
of the three fields is asked. -/
theorem override_delimited (lookup : String → Option String) (s : Settings) :
    ((s.override lookup).2 = none ↔
      (∀ field text, lookup (SettingsField.variableName field) = some text → ∃ value, field.Says text value) ∧
        (s.override lookup).1.wrapWidth ≠ 0) ∧
    (∀ t result, s.override lookup = (t, result) ↔ Overridden lookup s t result) ∧
    ∀ other : String → Option String,
      (∀ name ∈ ["DSIGEN_IGNORE_WAIT", "DSIGEN_CONSERVATIVE_DCS", "DSIGEN_WRAP_WIDTH"],
        other name = lookup name) →
        s.override other = s.override lookup := by
  refine ⟨override_ok_iff, fun t result => override_iff, fun other same => ?_⟩
  have fields : ∀ field ∈ SettingsField.all, other field.variableName = lookup field.variableName :=
    fun field mem => same field.variableName (List.mem_map_of_mem mem)
  rw [override, override, replaceFields_congr fields]

/-- A wait with a plus sign is taken, the flag behind it says nothing, and the width of zero is not reached.
Alone, this width is stored and told, whatever a further variable says. -/
theorem override_delimited_flag :
    Settings.standard.override (fun name => List.lookup name
        [("DSIGEN_IGNORE_WAIT", " +07"), ("DSIGEN_CONSERVATIVE_DCS", "maybe"), ("DSIGEN_WRAP_WIDTH", "0")]) =
      ({ ignoreWait := 7 }, some (.invalid .conservative "maybe")) ∧
    ∀ text, Settings.standard.override (fun name => List.lookup name
        [("DSIGEN_CONFIG", text), ("DSIGEN_WRAP_WIDTH", "0")]) =
      ({ wrapWidth := 0 }, some (.invalid .wrapWidth "0")) := by
  constructor
  · obtain ⟨-, outcomes, -⟩ := override_delimited
      (fun name => List.lookup name
        [("DSIGEN_IGNORE_WAIT", " +07"), ("DSIGEN_CONSERVATIVE_DCS", "maybe"), ("DSIGEN_WRAP_WIDTH", "0")])
      .standard
    have seven : WritesNumber 4294967296 " +07" 7 :=
      ⟨['+'], ['0', '7'], ⟨[' '], [], rfl, by decide, by decide⟩, .inr rfl, by decide, by decide, rfl,
        by decide⟩
    have order : [.ignoreWait, .conservative, .wrapWidth] =
        [SettingsField.ignoreWait] ++ .conservative :: [.wrapWidth] := rfl
    have unsaid : SettingsField.conservative.ofText? "maybe" = none := by decide
    refine (outcomes _ _).mpr (.silent order (fun other mem => ?_) rfl
      (SettingsField.ofText?_eq_none_iff.mp unsaid) (by decide))
    obtain rfl := List.mem_singleton.mp mem
    exact .replaced rfl (.ignoreWait seven)
  · intro text
    obtain ⟨-, outcomes, unasked⟩ := override_delimited (fun name => List.lookup name
      [("DSIGEN_WRAP_WIDTH", "0")]) .standard
    have zero : WritesNumber 18446744073709551616 "0" 0 :=
      ⟨[], ['0'], ⟨[], [], rfl, by decide, by decide⟩, .inl rfl, by decide, by decide, rfl, by decide⟩
    refine (unasked _ fun name mem => ?_).trans ((outcomes _ _).mpr (.zeroWidth (fun field => ?_) rfl))
    · have other : name ≠ "DSIGEN_CONFIG" := by
        rintro rfl
        exact absurd mem (by decide)
      rw [List.lookup_cons, beq_eq_false_iff_ne.mpr other]
    · cases field with
      | ignoreWait => exact .unset rfl
      | conservative => exact .unset rfl
      | wrapWidth => exact .replaced rfl (.wrapWidth zero)

end Settings

end DsiPanel
