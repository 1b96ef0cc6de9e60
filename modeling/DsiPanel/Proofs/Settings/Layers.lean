import DsiPanel.Proofs.Traversal
import DsiPanel.Settings.Document

/-!
# The layers of settings

A setting is found in a variable, in a file or nowhere, and it is looked for in this order. Each place is a
layer (`Layer`): what it has says the value, and where it has nothing the layers below are asked. The
three settings are alike in that, so a layer is told for any field (`SettingsField.FromVariable`,
`SettingsField.FromFile`), and settings are compared field by field (`Settings.ext_values`).

**The law** (`Settings.load_ok_iff`): there are settings exactly if the file is whole, should it be there,
if the variables that are set say something, and if neither leaves a width of zero; and then each field is
what the first layer with a word on it says. A file that is there and is broken is told before any variable
is looked at (`Settings.load_of_broken`), also where the variables would replace all that is wrong in it.

How the text of a document is read is not asked here: its entries are what `Toml.read?` gives.
-/

namespace DsiPanel

open Toml (Value)

/-! ## Fields -/

/-- What a setting may be. -/
inductive SettingsValue where
  | number (n : Nat)
  | flag (b : Bool)
deriving DecidableEq, Repr

namespace SettingsField

/-- The value of a field. -/
def valueIn (s : Settings) : SettingsField → SettingsValue
  | ignoreWait => .number s.ignoreWait
  | conservative => .flag s.conservative
  | wrapWidth => .number s.wrapWidth

/-- The value that the text of a variable says. -/
def ofText? (text : String) : SettingsField → Option SettingsValue
  | ignoreWait => (readUnsigned? ignoreWaitBound text).map .number
  | conservative => (readFlag? text).map .flag
  | wrapWidth => (readUnsigned? wrapWidthBound text).map .number

/-- The value that an entry of a file says. -/
def ofEntry? (entry : Value) : SettingsField → Option SettingsValue
  | ignoreWait => (naturalValue? ignoreWaitBound entry).map .number
  | conservative => (flagValue? entry).map .flag
  | wrapWidth => (naturalValue? wrapWidthBound entry).map .number

theorem mem_all (field : SettingsField) : field ∈ all := by
  cases field <;> decide

end SettingsField

/-- Settings are told by the values of their fields. -/
theorem Settings.ext_values {s t : Settings} (h : ∀ field, SettingsField.valueIn s field = field.valueIn t) :
    s = t := by
  have wait := h .ignoreWait
  have flag := h .conservative
  have width := h .wrapWidth
  cases s
  cases t
  cases wait
  cases flag
  cases width
  rfl

/-- Settings that differ from others in one field at most are told by this field. -/
theorem Settings.eq_iff_valueIn {s t u : Settings} {field : SettingsField}
    (others : ∀ other ≠ field, other.valueIn u = other.valueIn s) :
    u = t ↔ field.valueIn u = field.valueIn t ∧ ∀ other ≠ field, other.valueIn t = other.valueIn s := by
  constructor
  · rintro rfl
    exact ⟨rfl, others⟩
  · rintro ⟨own, same⟩
    refine Settings.ext_values fun other => ?_
    by_cases h : other = field
    · exact h ▸ own
    · exact (others other h).trans (same other h).symm

/-! ## Layers -/

/-- The value of a layer is what it reads from what it has found; where it has found nothing it is one of
those below. -/
structure Layer {α : Type} (found : Option α) (reads : α → Option SettingsValue)
    (below : SettingsValue → Prop) (value : SettingsValue) : Prop where
  given : ∀ a, found = some a → reads a = some value
  missing : found = none → below value

section Layer

variable {α : Type} {found : Option α} {reads : α → Option SettingsValue} {below : SettingsValue → Prop}
  {value other : SettingsValue}

theorem layer_none_iff : Layer none reads below value ↔ below value :=
  ⟨fun h => h.missing rfl, fun h => ⟨fun _ given => (nomatch given), fun _ => h⟩⟩

theorem layer_some_iff {a : α} : Layer (some a) reads below value ↔ reads a = some value :=
  ⟨fun h => h.given a rfl, fun h => ⟨fun _ given => Option.some.inj given ▸ h, fun missing => (nomatch missing)⟩⟩

/-- A layer has one value if the layers below do. -/
theorem Layer.unique (lower : ∀ v w, below v → below w → v = w) (h : Layer found reads below value)
    (h' : Layer found reads below other) : value = other := by
  cases found with
  | none => exact lower value other (h.missing rfl) (h'.missing rfl)
  | some a => exact Option.some.inj ((h.given a rfl).symm.trans (h'.given a rfl))

end Layer

/-! ## Variables -/

namespace SettingsField

/-- The field is replaced by what the text says, and the others are left. -/
theorem replace?_eq_some_iff {field : SettingsField} {text : String} {s t : Settings} :
    field.replace? text s = some t ↔
      field.ofText? text = some (field.valueIn t) ∧ ∀ other ≠ field, other.valueIn t = other.valueIn s := by
  have put {α : Type} (read : Option α) (put : α → Settings)
      (others : ∀ a, ∀ other ≠ field, other.valueIn (put a) = other.valueIn s) :
      read.map put = some t ↔ read.map (fun a => field.valueIn (put a)) = some (field.valueIn t) ∧
        ∀ other ≠ field, other.valueIn t = other.valueIn s := by
    cases read with
    | none => simp only [Option.map_none, reduceCtorEq, false_and]
    | some a =>
      simp only [Option.map_some, Option.some.injEq]
      exact Settings.eq_iff_valueIn (others a)
  cases field <;> exact put _ _ fun _ other ne => by cases other <;> first | rfl | exact absurd rfl ne

theorem replace?_eq_none_iff {field : SettingsField} {text : String} {s : Settings} :
    field.replace? text s = none ↔ field.ofText? text = none := by
  cases field <;> simp only [replace?, ofText?, Option.map_eq_none_iff]

/-- The layer of a variable. -/
abbrev FromVariable (lookup : String → Option String) (field : SettingsField) :
    (SettingsValue → Prop) → SettingsValue → Prop :=
  Layer (lookup field.variableName) fun text => field.ofText? text

end SettingsField

namespace Settings

/-- Settings after the variables of some fields: each of these is what its variable makes of it, and all other
fields are left. -/
structure Taken (lookup : String → Option String) (fields : List SettingsField) (s t : Settings) : Prop where
  own : ∀ field ∈ fields, field.FromVariable lookup (· = field.valueIn s) (field.valueIn t)
  left : ∀ field ∉ fields, field.valueIn t = field.valueIn s

section Variables

variable {lookup : String → Option String} {fields : List SettingsField} {s t : Settings}

theorem Taken.eq_of_nil (h : Taken lookup [] s t) : s = t :=
  Settings.ext_values fun field => (h.left field List.not_mem_nil).symm

/-- No field stands twice, so what the first one has become is left by those after it. -/
theorem taken_cons_iff {field : SettingsField} {rest : List SettingsField} {u : Settings} (fresh : field ∉ rest)
    (own : field.FromVariable lookup (· = field.valueIn s) (field.valueIn u))
    (others : ∀ other ≠ field, other.valueIn u = other.valueIn s) :
    Taken lookup (field :: rest) s t ↔ Taken lookup rest u t := by
  constructor
  · rintro ⟨taken, left⟩
    obtain ⟨first, later⟩ := List.forall_mem_cons.mp taken
    refine ⟨fun other mem => ?_, fun other out => ?_⟩
    · rw [others other fun same => fresh (same ▸ mem)]
      exact later other mem
    · by_cases same : other = field
      · subst same
        exact first.unique (fun _ _ same same' => same.trans same'.symm) own
      · exact (left other (List.not_mem_cons_of_ne_of_not_mem same out)).trans (others other same).symm
  · rintro ⟨taken, left⟩
    refine ⟨List.forall_mem_cons.mpr ⟨left field fresh ▸ own, fun other mem => ?_⟩, fun other out => ?_⟩
    · rw [← others other fun same => fresh (same ▸ mem)]
      exact taken other mem
    · exact (left other (List.not_mem_of_not_mem_cons out)).trans (others other (List.ne_of_not_mem_cons out))

/-- The step of a run: the variable of the first field says nothing and the run ends, or it is taken and those
of the other fields follow. -/
theorem replaceFields_cons (lookup : String → Option String) (field : SettingsField) (rest : List SettingsField)
    (s : Settings) :
    (∃ text, lookup field.variableName = some text ∧ field.ofText? text = none ∧
      replaceFields lookup (field :: rest) s = (s, some (.invalid field text))) ∨
    ∃ u, field.FromVariable lookup (· = field.valueIn s) (field.valueIn u) ∧
      (∀ other ≠ field, other.valueIn u = other.valueIn s) ∧
      replaceFields lookup (field :: rest) s = replaceFields lookup rest u := by
  rw [replaceFields]
  cases said : lookup field.variableName with
  | none =>
    refine .inr ⟨s, ?_, fun _ _ => rfl, rfl⟩
    rw [SettingsField.FromVariable, said, layer_none_iff]
  | some text =>
    cases replaced : field.replace? text s with
    | none => exact .inl ⟨text, rfl, SettingsField.replace?_eq_none_iff.mp replaced, by simp only [replaced]⟩
    | some u =>
      obtain ⟨own, others⟩ := SettingsField.replace?_eq_some_iff.mp replaced
      refine .inr ⟨u, ?_, others, by simp only [replaced]⟩
      rw [SettingsField.FromVariable, said, layer_some_iff]
      exact own

/-- A run takes the variables of all its fields, or of those before the first one that says nothing. -/
theorem replaceFields_cases (nodup : fields.Nodup) (s : Settings) :
    (∃ t, Taken lookup fields s t ∧ replaceFields lookup fields s = (t, none)) ∨
    ∃ done field rest text t, fields = done ++ field :: rest ∧ Taken lookup done s t ∧
      lookup field.variableName = some text ∧ field.ofText? text = none ∧
      replaceFields lookup fields s = (t, some (.invalid field text)) := by
  induction fields generalizing s with
  | nil => exact .inl ⟨s, ⟨List.forall_mem_nil _, fun _ _ => rfl⟩, rfl⟩
  | cons first fields ih =>
    obtain ⟨fresh, nodup⟩ := List.nodup_cons.mp nodup
    rcases replaceFields_cons lookup first fields s with ⟨text, said, silent, stop⟩ | ⟨u, own, others, step⟩
    · exact .inr ⟨[], first, fields, text, s, rfl, ⟨List.forall_mem_nil _, fun _ _ => rfl⟩, said, silent, stop⟩
    · rw [step]
      rcases ih nodup u with ⟨t, taken, run⟩ | ⟨done, field, rest, text, t, order, taken, stop⟩
      · exact .inl ⟨t, (taken_cons_iff fresh own others).mpr taken, run⟩
      · have fresh : first ∉ done := fun mem => fresh (order ▸ List.mem_append_left _ mem)
        exact .inr ⟨first :: done, field, rest, text, t, congrArg (first :: ·) order,
          (taken_cons_iff fresh own others).mpr taken, stop⟩

/-- A run goes on from the settings after the variables that it has taken. -/
theorem replaceFields_append {done : List SettingsField} (nodup : done.Nodup) (h : Taken lookup done s t)
    (rest : List SettingsField) : replaceFields lookup (done ++ rest) s = replaceFields lookup rest t := by
  induction done generalizing s with
  | nil =>
    obtain rfl := h.eq_of_nil
    rfl
  | cons field done ih =>
    obtain ⟨fresh, nodup⟩ := List.nodup_cons.mp nodup
    rcases replaceFields_cons lookup field (done ++ rest) s with
      ⟨text, said, silent, -⟩ | ⟨u, own, others, step⟩
    · have value := (h.own field List.mem_cons_self).given text said
      exact absurd (silent.symm.trans value) (nomatch ·)
    · exact step.trans (ih nodup ((taken_cons_iff fresh own others).mp h))

theorem replaceFields_congr {other : String → Option String}
    (same : ∀ field ∈ fields, other field.variableName = lookup field.variableName) :
    replaceFields other fields s = replaceFields lookup fields s := by
  induction fields generalizing s with
  | nil => rfl
  | cons field rest ih =>
    obtain ⟨own, later⟩ := List.forall_mem_cons.mp same
    simp only [replaceFields, own, ih later]

theorem fault?_eq_none_iff : s.fault? = none ↔ s.wrapWidth ≠ 0 := by
  unfold fault?
  split
  next zero => exact ⟨fun h => (nomatch h), fun h => absurd zero h⟩
  next width => exact iff_of_true rfl width

theorem fault?_of_zero (zero : s.wrapWidth = 0) : s.fault? = some (.invalid .wrapWidth "0") := by
  rw [fault?, if_pos zero, zero]
  rfl

/-- Overriding succeeds exactly if every variable that is set says something and the width is not zero; then
each field is what its variable makes of it. -/
theorem override_eq_none_iff :
    s.override lookup = (t, none) ↔
      (∀ field, SettingsField.FromVariable lookup field (· = field.valueIn s) (field.valueIn t)) ∧
        t.wrapWidth ≠ 0 := by
  have nodup : SettingsField.all.Nodup := by decide
  unfold override
  constructor
  · intro h
    rcases replaceFields_cases nodup s with ⟨u, taken, run⟩ | ⟨_, _, _, _, u, -, -, -, -, stop⟩
    · rw [run, Prod.mk.injEq, fault?_eq_none_iff] at h
      obtain ⟨rfl, width⟩ := h
      exact ⟨fun field => taken.own field field.mem_all, width⟩
    · rw [stop] at h
      cases h
  · rintro ⟨own, width⟩
    have taken : Taken lookup SettingsField.all s t :=
      ⟨fun field _ => own field, fun field out => absurd field.mem_all out⟩
    have run : replaceFields lookup SettingsField.all s = (t, none) := replaceFields_append nodup taken []
    rw [run]
    exact congrArg (t, ·) (fault?_eq_none_iff.mpr width)

end Variables

end Settings

/-! ## Files -/

/-- The layer of a file, with the standard below. -/
abbrev SettingsField.FromFile (entries : List (String × Value)) (field : SettingsField) :
    SettingsValue → Prop :=
  Layer (entries.lookup field.name) (fun entry => field.ofEntry? entry) (· = field.valueIn .standard)

/-- Every entry for a field says a value of it. -/
def WellTyped (entries : List (String × Value)) : Prop :=
  ∀ field entry, entries.lookup (SettingsField.name field) = some entry → field.ofEntry? entry ≠ none

/-- What the file of settings at a path gives: its entries, if it is there and can be read, and none where no
file is there. -/
inductive FileGives (around : Surroundings) (path : String) : List (String × Value) → Prop
  | absent (missing : around.isThere path = false) : FileGives around path []
  | present (text : String) (entries : List (String × Value)) (there : around.isThere path = true)
      (readable : textOf (around.read path) = .ok text) (parsed : Toml.read? text = some entries) :
      FileGives around path entries

/-- Why a file that is there gives no settings: its text cannot be read, it is no document or has an entry
that says nothing of its field, or it is whole and sets the width to zero. -/
inductive FileFault (path : String) (read : Except ReadFault Bytes) : SettingsError → Prop
  | unreadable (fault : ReadFault) (failed : textOf read = .error fault) :
      FileFault path read (.unreadable path fault)
  | malformed (text : String) (readable : textOf read = .ok text)
      (broken : ∀ entries, Toml.read? text = some entries → ¬ WellTyped entries) :
      FileFault path read .malformed
  | zeroWidth (text : String) (entries : List (String × Value)) (readable : textOf read = .ok text)
      (parsed : Toml.read? text = some entries) (typed : WellTyped entries)
      (zero : entries.lookup "wrap_width" = some (.integer 0)) :
      FileFault path read (.invalid .wrapWidth "0")

section Reader

variable {α : Type} {entries : List (String × Value)} {read : Value → Option α} {wrap : α → SettingsValue}

/-- How a field is found in a file by its reader and its standard. -/
theorem SettingsField.fromFile_iff {field : SettingsField}
    (own : ∀ entry, field.ofEntry? entry = (read entry).map wrap) (injective : Function.Injective wrap)
    {standard value : α}
    (usual : field.valueIn .standard = wrap standard) :
    field.FromFile entries (wrap value) ↔
      (match entries.lookup field.name with
        | none => some standard
        | some entry => read entry) = some value := by
  unfold SettingsField.FromFile
  cases entries.lookup field.name with
  | none => rw [layer_none_iff, usual, injective.eq_iff, Option.some.injEq, eq_comm]
  | some entry =>
    rw [layer_some_iff, own, Option.map_eq_some_iff]
    simp only [injective.eq_iff, exists_eq_right]

/-- A well-typed file has a value of the field. -/
theorem WellTyped.exists_value (h : WellTyped entries) (field : SettingsField)
    (own : ∀ entry, field.ofEntry? entry = (read entry).map wrap) (standard : α) :
    ∃ value, (match entries.lookup field.name with
      | none => some standard
      | some entry => read entry) = some value := by
  cases found : entries.lookup field.name with
  | none => exact ⟨standard, rfl⟩
  | some entry =>
    have said := h field entry found
    rw [own, ne_eq, Option.map_eq_none_iff] at said
    exact Option.ne_none_iff_exists'.mp said

end Reader

theorem SettingsValue.number_injective : Function.Injective SettingsValue.number :=
  fun _ _ same => SettingsValue.number.inj same

theorem SettingsValue.flag_injective : Function.Injective SettingsValue.flag :=
  fun _ _ same => SettingsValue.flag.inj same

namespace Settings

/-- The entries of a file say the settings field by field. -/
theorem ofEntries?_eq_some_iff {entries : List (String × Value)} {s : Settings} :
    ofEntries? entries = some s ↔ ∀ field, SettingsField.FromFile entries field (field.valueIn s) := by
  have wait {n : Nat} : SettingsField.FromFile entries .ignoreWait (.number n) ↔ _ :=
    SettingsField.fromFile_iff (fun _ => rfl) SettingsValue.number_injective rfl
  have flag {b : Bool} : SettingsField.FromFile entries .conservative (.flag b) ↔ _ :=
    SettingsField.fromFile_iff (fun _ => rfl) SettingsValue.flag_injective rfl
  have width {n : Nat} : SettingsField.FromFile entries .wrapWidth (.number n) ↔ _ :=
    SettingsField.fromFile_iff (fun _ => rfl) SettingsValue.number_injective rfl
  unfold ofEntries?
  simp only [Option.bind_eq_bind, Option.bind_eq_some_iff]
  constructor
  · rintro ⟨n, hn, b, hb, m, hm, made⟩ field
    cases made
    cases field with
    | ignoreWait => exact wait.mpr hn
    | conservative => exact flag.mpr hb
    | wrapWidth => exact width.mpr hm
  · intro h
    exact ⟨_, wait.mp (h .ignoreWait), _, flag.mp (h .conservative), _, width.mp (h .wrapWidth), rfl⟩

theorem exists_ofEntries?_iff {entries : List (String × Value)} :
    (∃ s, ofEntries? entries = some s) ↔ WellTyped entries := by
  constructor
  · rintro ⟨s, said⟩ field entry found silent
    have own := (ofEntries?_eq_some_iff.mp said field).given entry found
    exact absurd (silent.symm.trans own) (nomatch ·)
  · intro typed
    obtain ⟨n, wait⟩ := typed.exists_value .ignoreWait (fun _ => rfl) standard.ignoreWait
    obtain ⟨b, flag⟩ := typed.exists_value .conservative (fun _ => rfl) standard.conservative
    obtain ⟨m, width⟩ := typed.exists_value .wrapWidth (fun _ => rfl) standard.wrapWidth
    refine ⟨⟨n, b, m⟩, ?_⟩
    unfold ofEntries?
    simp only [Option.bind_eq_bind, Option.bind_eq_some_iff]
    exact ⟨n, wait, b, flag, m, width, rfl⟩

end Settings

theorem naturalValue?_eq_zero_iff {bound : Nat} (positive : 0 < bound) {entry : Value} :
    naturalValue? bound entry = some 0 ↔ entry = .integer 0 := by
  cases entry with
  | integer n =>
    simp only [naturalValue?, Option.ite_none_right_eq_some, Option.some.injEq, Value.integer.injEq]
    omega
  | _ => simp only [naturalValue?, reduceCtorEq]

namespace Settings

/-! ## Whole files -/

/-- The width is zero only where the file says so. -/
theorem wrapWidth_eq_zero_iff {entries : List (String × Value)} {s : Settings}
    (said : ofEntries? entries = some s) :
    s.wrapWidth = 0 ↔ entries.lookup "wrap_width" = some (.integer 0) := by
  have file : SettingsField.FromFile entries .wrapWidth (.number s.wrapWidth) :=
    ofEntries?_eq_some_iff.mp said .wrapWidth
  have own := (SettingsField.fromFile_iff (fun _ => rfl) SettingsValue.number_injective rfl).mp file
  rw [SettingsField.name] at own
  cases found : entries.lookup "wrap_width" with
  | none =>
    rw [found] at own
    have width : standard.wrapWidth = s.wrapWidth := Option.some.inj own
    rw [← width]
    exact ⟨fun h => absurd h (by decide), fun h => (nomatch h)⟩
  | some entry =>
    rw [found] at own
    rw [Option.some.injEq, ← naturalValue?_eq_zero_iff (by decide : 0 < wrapWidthBound)]
    exact ⟨fun zero => zero ▸ own, fun none => Option.some.inj (own.symm.trans none)⟩

theorem checked_ok_iff {s t : Settings} : s.checked = .ok t ↔ s = t ∧ s.wrapWidth ≠ 0 := by
  rw [← fault?_eq_none_iff, checked]
  cases s.fault? with
  | none => simp only [Except.ok.injEq, and_true]
  | some error => simp only [reduceCtorEq, and_false]

theorem checked_error_iff {s : Settings} {error : SettingsError} :
    s.checked = .error error ↔ s.wrapWidth = 0 ∧ error = .invalid .wrapWidth "0" := by
  unfold checked
  by_cases zero : s.wrapWidth = 0
  · simp only [fault?_of_zero zero, Except.error.injEq, zero, true_and, eq_comm]
  · simp only [fault?_eq_none_iff.mpr zero, reduceCtorEq, zero, false_and]

section File

variable {around : Surroundings} {path text : String} {s : Settings} {error : SettingsError}

/-- The settings of a document are those of its entries, and their width is not zero. -/
theorem ofDocument_ok_iff :
    ofDocument text = .ok s ↔
      ∃ entries, Toml.read? text = some entries ∧ ofEntries? entries = some s ∧ s.wrapWidth ≠ 0 := by
  simp only [← and_assoc, ← Option.bind_eq_some_iff, exists_and_right]
  unfold ofDocument
  cases (Toml.read? text).bind ofEntries? with
  | none => simp only [reduceCtorEq, false_and]
  | some t =>
    simp only [checked_ok_iff, Option.some.injEq]
    exact and_congr_right fun same => by rw [same]

/-- A document has no settings if it is broken or if it is whole and says a width of zero. -/
theorem ofDocument_error_iff :
    ofDocument text = .error error ↔
      ((∀ entries, Toml.read? text = some entries → ¬ WellTyped entries) ∧ error = .malformed) ∨
        ∃ entries, Toml.read? text = some entries ∧ WellTyped entries ∧
          entries.lookup "wrap_width" = some (.integer 0) ∧ error = .invalid .wrapWidth "0" := by
  unfold ofDocument
  cases Toml.read? text with
  | none => simp only [Option.bind_none, Except.error.injEq, reduceCtorEq, false_implies, implies_true,
      true_and, false_and, exists_false, or_false, eq_comm]
  | some entries =>
    simp only [Option.bind_some, Option.some.injEq, forall_eq', exists_eq_left', ← exists_ofEntries?_iff]
    cases said : ofEntries? entries with
    | none => simp only [Except.error.injEq, reduceCtorEq, exists_false, not_false_eq_true, true_and,
        false_and, or_false, eq_comm]
    | some t =>
      simp only [checked_error_iff, wrapWidth_eq_zero_iff said, Option.some.injEq, exists_eq',
        not_true_eq_false, false_and, true_and, false_or]

/-- The settings of a file are those of its document. -/
theorem ofFile_ok_iff :
    ofFile around path = .ok s ↔ ∃ text, textOf (around.read path) = .ok text ∧ ofDocument text = .ok s := by
  unfold ofFile
  cases textOf (around.read path) with
  | error fault => simp only [reduceCtorEq, false_and, exists_false]
  | ok text => simp only [Except.ok.injEq, exists_eq_left']

/-- A file has no settings exactly for a fault of its own. -/
theorem ofFile_error_iff :
    ofFile around path = .error error ↔ FileFault path (around.read path) error := by
  unfold ofFile
  constructor
  · intro h
    split at h
    next fault failed =>
      cases h
      exact .unreadable fault failed
    next text readable =>
      rcases ofDocument_error_iff.mp h with ⟨broken, rfl⟩ | ⟨entries, parsed, typed, zero, rfl⟩
      · exact .malformed text readable broken
      · exact .zeroWidth text entries readable parsed typed zero
  · intro h
    cases h with
    | unreadable fault failed => rw [failed]
    | malformed text readable broken =>
      rw [readable]
      exact ofDocument_error_iff.mpr (.inl ⟨broken, rfl⟩)
    | zeroWidth text entries readable parsed typed zero =>
      rw [readable]
      exact ofDocument_error_iff.mpr (.inr ⟨entries, parsed, typed, zero, rfl⟩)

end File

end Settings

/-! ## The file and the variables -/

/-- Settings can be made of the entries: each says a value of its field, and the width is not zero. -/
structure Usable (entries : List (String × Value)) : Prop where
  typed : WellTyped entries
  width : entries.lookup "wrap_width" ≠ some (.integer 0)

theorem usable_iff {entries : List (String × Value)} :
    Usable entries ↔ ∃ s, Settings.ofEntries? entries = some s ∧ s.wrapWidth ≠ 0 := by
  constructor
  · rintro ⟨typed, width⟩
    obtain ⟨s, said⟩ := Settings.exists_ofEntries?_iff.mpr typed
    exact ⟨s, said, mt (Settings.wrapWidth_eq_zero_iff said).mp width⟩
  · rintro ⟨s, said, width⟩
    exact ⟨Settings.exists_ofEntries?_iff.mp ⟨s, said⟩, mt (Settings.wrapWidth_eq_zero_iff said).mpr width⟩

/-- The layers of a field: its variable, the file, and the standard. -/
abbrev SettingsField.Layered (lookup : String → Option String) (entries : List (String × Value))
    (field : SettingsField) : SettingsValue → Prop :=
  field.FromVariable lookup (field.FromFile entries)

/-- Where the file says a value it is all that stands below the variable. -/
theorem SettingsField.layered_iff {lookup : String → Option String} {entries : List (String × Value)}
    {field : SettingsField} {before after : SettingsValue} (file : field.FromFile entries before) :
    field.Layered lookup entries after ↔ field.FromVariable lookup (· = before) after := by
  have only : field.FromFile entries = (· = before) := by
    funext value
    refine propext ⟨fun h => h.unique (fun _ _ same same' => same.trans same'.symm) file, ?_⟩
    rintro rfl
    exact file
  rw [SettingsField.Layered, only]

namespace Settings

section Load

variable {around : Surroundings} {s : Settings} {error : SettingsError}

theorem base_ok_iff :
    base around = .ok s ↔
      ∃ entries, FileGives around (path around) entries ∧ ofEntries? entries = some s ∧
        s.wrapWidth ≠ 0 := by
  simp only [base]
  split
  next there =>
    simp only [ofFile_ok_iff, ofDocument_ok_iff]
    constructor
    · rintro ⟨text, readable, entries, parsed, own⟩
      exact ⟨entries, .present text entries there readable parsed, own⟩
    · rintro ⟨entries, gives, own⟩
      cases gives with
      | absent missing => exact absurd (there.symm.trans missing) (nomatch ·)
      | present text entries _ readable parsed => exact ⟨text, readable, entries, parsed, own⟩
  next missing =>
    constructor
    · intro h
      cases h
      exact ⟨[], .absent (Bool.eq_false_iff.mpr missing), rfl, by decide⟩
    · rintro ⟨entries, gives, said, -⟩
      cases gives with
      | absent => exact congrArg Except.ok (Option.some.inj said)
      | present text entries there => exact absurd there missing

/-- Which settings there are: those whose every field is what the first layer with a word on it says. -/
theorem load_ok_iff :
    load around = .ok s ↔
      s.wrapWidth ≠ 0 ∧ ∃ entries, FileGives around (path around) entries ∧ Usable entries ∧
        ∀ field, SettingsField.Layered around.lookup entries field (field.valueIn s) := by
  have stages : load around = .ok s ↔ ∃ before, base around = .ok before ∧
      before.override around.lookup = (s, none) := by
    refine bind_eq_ok_iff.trans (exists_congr fun before => and_congr_right fun _ => ?_)
    split
    next own => simp only [own, Except.ok.injEq, Prod.mk.injEq, and_true]
    next own => simp only [own, reduceCtorEq, Prod.mk.injEq, and_false]
  simp only [stages, base_ok_iff, override_eq_none_iff, usable_iff]
  constructor
  · rintro ⟨before, ⟨entries, gives, said, positive⟩, own, width⟩
    have file := ofEntries?_eq_some_iff.mp said
    exact ⟨width, entries, gives, ⟨before, said, positive⟩,
      fun field => (SettingsField.layered_iff (file field)).mpr (own field)⟩
  · rintro ⟨width, entries, gives, ⟨before, said, positive⟩, own⟩
    have file := ofEntries?_eq_some_iff.mp said
    exact ⟨before, ⟨entries, gives, said, positive⟩,
      fun field => (SettingsField.layered_iff (file field)).mp (own field), width⟩

/-- A file that is there and has no settings ends the loading with its fault, whatever the variables. -/
theorem load_of_broken (there : around.isThere (path around) = true)
    (broken : ofFile around (path around) = .error error) : load around = .error error := by
  rw [load, base, if_pos there, broken]
  rfl

/-- Of the surroundings only the variables of settings and the file that they name are asked. -/
theorem load_congr {other : Surroundings}
    (named : ∀ name ∈ pathVariable :: SettingsField.all.map SettingsField.variableName,
      other.lookup name = around.lookup name)
    (found : other.isThere (path around) = around.isThere (path around))
    (file : other.read (path around) = around.read (path around)) : load other = load around := by
  obtain ⟨own, fields⟩ := List.forall_mem_cons.mp named
  have place : path other = path around := by rw [path, path, own]
  have before : base other = base around := by
    simp only [base, ofFile, place, found, file]
  have override (s : Settings) : s.override other.lookup = s.override around.lookup := by
    rw [Settings.override, Settings.override, replaceFields_congr (List.forall_mem_map.mp fields)]
  rw [load, load, before]
  simp only [override]

end Load

end Settings

end DsiPanel
