import DsiPanel.Proofs.CommandLine.Stages
import DsiPanel.Proofs.Note.Truncations

/-!
# The log of a run

What a run writes begins with the text of its log, so what can be said of the rest alone needs a log that
writes nothing (`Surroundings.Silent`). Which notes the log is given does not depend on what it makes of them.

**The law** (`Options.info_of_makes`): for its user a run whose stages succeed tells the count of its bytes and
then its operations, each once and in their order. Everything else that is told is a warning or is there for
debugging, so this is also what the log writes where it is given no directives and there is nothing to warn of.
-/

namespace DsiPanel

/-! ## Silence -/

theorem join_of_empty {lines : List String} (empty : ∀ line ∈ lines, line = "") : String.join lines = "" := by
  induction lines with
  | nil => rfl
  | cons line lines ih =>
    obtain ⟨rfl, rest⟩ := List.forall_mem_cons.mp empty
    rw [String.join_cons, ih rest, String.empty_append]

namespace Surroundings

/-- The log writes nothing here, whatever it is told. -/
def Silent (around : Surroundings) : Prop :=
  ∀ index note, around.log.entry (around.lookup logVariable) index note = ""

variable {around : Surroundings}

/-- A log is silent where its directives ask for no note. -/
theorem silent_of_writes (none : ∀ note, around.log.writes (around.lookup logVariable) note = false) :
    around.Silent := by
  intro index note
  rw [Log.entry, none]
  rfl

theorem logged_of_silent (silent : around.Silent) (notes : List Note) : around.logged notes = "" := by
  refine join_of_empty fun line mem => ?_
  obtain ⟨entry, -, rfl⟩ := List.mem_map.mp mem
  exact silent entry.2 entry.1

end Surroundings

/-! ## Notes that are not for the user -/

/-- None of the notes is for the user. -/
def Aside (notes : List Note) : Prop := ∀ note ∈ notes, note.level ≠ .info

namespace Aside

variable {note : Note} {notes more : List Note}

theorem nil : Aside [] := List.forall_mem_nil _

theorem cons (other : note.level ≠ .info) (h : Aside notes) : Aside (note :: notes) :=
  List.forall_mem_cons.mpr ⟨other, h⟩

theorem single (other : note.level ≠ .info) : Aside [note] := .cons other .nil

theorem append (h : Aside notes) (h' : Aside more) : Aside (notes ++ more) := List.forall_mem_append.mpr ⟨h, h'⟩

theorem notesAt_eq_nil (h : Aside notes) : notesAt .info notes = [] :=
  List.filter_eq_nil_iff.mpr fun note mem => by
    rw [decide_eq_true_eq]
    exact h note mem

end Aside

theorem Settings.aside_loadNotes (around : Surroundings) : Aside (Settings.loadNotes around) := by
  rw [Settings.loadNotes]
  show Aside (if _ then _ else _)
  split
  · exact .nil
  · exact .single nofun

theorem SignalingMode.aside_propertyNotes (raw : Bytes) : Aside (SignalingMode.propertyNotes raw) := by
  unfold SignalingMode.propertyNotes
  split
  · exact .nil
  · refine .cons nofun ?_
    split
    · exact .single nofun
    · exact .single nofun

theorem Frame.aside_truncation? {f : Frame} {index : Nat} {note : Note} (h : f.truncation? index = some note) :
    note.level ≠ .info := by
  rw [(truncation?_eq_some_iff.mp h).level]
  nofun

theorem CommandSequence.aside_decodeNotes (name : String) (mode : SignalingMode) (segments : List Bytes) :
    Aside (CommandSequence.decodeNotes name mode segments) := by
  unfold CommandSequence.decodeNotes
  split
  · exact .single nofun
  · refine .append (fun note mem => ?_) ?_
    · obtain ⟨entry, -, told⟩ := List.mem_filterMap.mp mem
      exact Frame.aside_truncation? told
    · split
      · exact .nil
      · intro note mem
        obtain ⟨op, -, rfl⟩ := List.mem_map.mp mem
        nofun

theorem Transaction.aside_warnings (conservative : Bool) (payload : Bytes) (t : Transaction) :
    Aside (t.warnings conservative payload) := by
  unfold Transaction.warnings
  split
  · split
    · exact .single nofun
    · unfold Resolution.notes
      cases (resolve conservative payload).mismatch? with
      | none => exact .nil
      | some found => exact .single nofun
  · exact .single nofun
  · exact .nil

theorem Operation.aside_notes (conservative : Bool) (index : Nat) (op : Operation) :
    Aside (op.notes conservative index) := by
  unfold Operation.notes
  split
  · exact .single nofun
  · exact .cons nofun (Transaction.aside_warnings _ _ _)

theorem aside_operationNotes (conservative : Bool) (index : Nat) (operations : List Operation) :
    Aside (operationNotes conservative index operations) := by
  induction operations generalizing index with
  | nil => exact .nil
  | cons op rest ih =>
    refine (op.aside_notes conservative index).append ?_
    split
    · exact ih (index + 1)
    · exact .nil

theorem CommandSequence.aside_notes (settings : Settings) (s : CommandSequence) : Aside (s.notes settings) := by
  refine (aside_operationNotes settings.conservative 0 s.operations).append ?_
  split
  · exact .nil
  · exact .single nofun

/-! ## Notes for the user -/

namespace Options

variable {o : Options} {around : Surroundings}

/-- What is told of a run whose stages succeed. -/
theorem notes_of_makes {r : StageResults} (h : o.Makes around r) :
    o.notes around =
      (if o.config.isSome then [] else Settings.loadNotes around) ++
        (SignalingMode.propertyNotes o.modeProperty ++
          .decoding o.sequenceName r.bytes.length r.mode ::
            (CommandSequence.decodeNotes o.sequenceName r.mode [r.bytes] ++
              (r.operations.zipIdx.map (fun (op, index) => .listed index op) ++
                (r.sequence o).notes r.settings))) := by
  have bytes : o.dumpBytes around = .ok r.bytes := dumpBytes_ok_iff.mpr ⟨r.dump, h.dump, h.bytes⟩
  have sequence : CommandSequence.decode o.sequenceName r.mode [r.bytes] = .ok (r.sequence o) :=
    decode_segment_ok_iff.mpr ⟨r.operations, h.operations, rfl⟩
  simp only [notes, h.settings, bytes, h.mode, sequenceNotes, sequence]
  rfl

/-- A run whose stages succeed tells its user how many bytes it decodes, and each of its operations. -/
theorem info_of_makes {r : StageResults} (h : o.Makes around r) :
    notesAt .info (o.notes around) =
      .decoding o.sequenceName r.bytes.length r.mode ::
        r.operations.zipIdx.map fun (op, index) => .listed index op := by
  have loading : Aside (if o.config.isSome then [] else Settings.loadNotes around) := by
    split
    · exact .nil
    · exact Settings.aside_loadNotes around
  have listing : notesAt .info (r.operations.zipIdx.map fun (op, index) => Note.listed index op) =
      r.operations.zipIdx.map fun (op, index) => .listed index op := by
    refine notesAt_eq_self fun note mem => ?_
    obtain ⟨entry, -, rfl⟩ := List.mem_map.mp mem
    rfl
  rw [notes_of_makes h, notesAt_append, notesAt_append, loading.notesAt_eq_nil,
    (SignalingMode.aside_propertyNotes o.modeProperty).notesAt_eq_nil, List.nil_append, List.nil_append]
  refine congrArg (_ :: ·) ?_
  show notesAt .info (_ ++ _) = _
  rw [notesAt_append, notesAt_append, listing,
    (CommandSequence.aside_decodeNotes o.sequenceName r.mode [r.bytes]).notesAt_eq_nil,
    (CommandSequence.aside_notes r.settings (r.sequence o)).notesAt_eq_nil, List.nil_append, List.append_nil]

end Options

end DsiPanel
