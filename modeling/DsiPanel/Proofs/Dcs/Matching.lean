import DsiPanel.Dcs.Resolution
import DsiPanel.Proofs.Dcs.Arguments

/-!
# Resolving a payload

A payload names a command where matching lets that command through (`Names`); there is at most one. What
the payload resolves to is then decided by the count of its arguments and, for a tear mode alone, by the
argument itself (`resolve_of_names`, `DcsCommand.decode_error_iff`).

**The law** (`resolve_exact`): which payloads are matched, which mismatch is told otherwise, and that the
literals of a match read back to the argument bytes (`ArgumentCodec.readBack?`), so that none is lost. A helper
is called with as many values as it has parameters.
-/

namespace DsiPanel

/-! ## Resolution, read backwards -/

/-- The payload is the byte of a command with these bytes behind it, and matching lets the command through. -/
structure Names (conservative : Bool) (payload : Bytes) (command : DcsCommand) (arguments : Bytes) : Prop where
  spelled : payload = command.opcode :: arguments
  through : conservative = true → command.isConservative = true

section Resolution

variable {conservative : Bool} {payload arguments : Bytes} {command : DcsCommand}

theorem resolve_of_names (h : Names conservative payload command arguments) :
    resolve conservative payload =
      if command.arity.accepts arguments.length then
        match command.codec.decode arguments with
        | .ok literals => .matched command literals
        | .error fault => .unmatched (some (.undecodable command arguments fault))
      else .unmatched (some (.arity command arguments.length)) := by
  obtain ⟨rfl, through⟩ := h
  have free : (conservative && !command.isConservative) = false := by
    cases conservative with
    | false => rfl
    | true => rw [through rfl, Bool.not_true, Bool.and_false]
  simp only [resolve, DcsCommand.ofOpcode?_opcode, free, Bool.false_eq_true, if_false]
  cases command.arity.accepts arguments.length <;> rfl

theorem resolve_of_unnamed (h : ∀ command arguments, ¬ Names conservative payload command arguments) :
    resolve conservative payload = .unmatched none := by
  unfold resolve
  split
  next => rfl
  next opcode arguments =>
    split
    next => rfl
    next command known =>
      have spelled : opcode :: arguments = command.opcode :: arguments := by
        rw [(DcsCommand.ofOpcode?_eq_some_iff opcode command).mp known]
      refine if_pos ?_
      cases conservative with
      | false => exact absurd ⟨spelled, fun held => (nomatch held)⟩ (h command arguments)
      | true =>
        rw [Bool.true_and, Bool.not_eq_true']
        exact Bool.eq_false_iff.mpr fun through => h command arguments ⟨spelled, fun _ => through⟩

/-- A payload names one command at most. -/
theorem Names.unique {other : DcsCommand} {others : Bytes} (h : Names conservative payload command arguments)
    (h' : Names conservative payload other others) : command = other ∧ arguments = others := by
  obtain ⟨byte, rest⟩ := List.cons.inj (h.spelled.symm.trans h'.spelled)
  have same := DcsCommand.ofOpcode?_opcode command
  rw [byte, DcsCommand.ofOpcode?_opcode, Option.some.injEq] at same
  exact ⟨same.symm, rest⟩

/-- What a payload resolves to other than to nothing, it resolves to by the command that it names. -/
theorem exists_names_of_resolve {resolution : Resolution} (h : resolve conservative payload = resolution)
    (told : resolution ≠ .unmatched none) :
    ∃ command arguments, Names conservative payload command arguments := by
  by_contra unnamed
  push Not at unnamed
  exact told (h.symm.trans (resolve_of_unnamed unnamed))

/-- A payload resolves to a command exactly if it starts with its byte, the command is let through,
and the bytes after it fit its arity and have these literals. -/
theorem resolve_eq_matched_iff {literals : List String} :
    resolve conservative payload = .matched command literals ↔
      ∃ arguments, payload = command.opcode :: arguments ∧
        (conservative = true → command.isConservative = true) ∧
        command.arity.accepts arguments.length = true ∧
        command.codec.decode arguments = .ok literals := by
  constructor
  · intro h
    obtain ⟨own, arguments, named⟩ := exists_names_of_resolve h (nomatch ·)
    rw [resolve_of_names named] at h
    split at h
    next fits =>
      split at h
      next decoded =>
        cases h
        exact ⟨arguments, named.spelled, named.through, fits, decoded⟩
      next => cases h
    next => cases h
  · rintro ⟨arguments, spelled, through, fits, decoded⟩
    rw [resolve_of_names ⟨spelled, through⟩, if_pos fits, decoded]

/-- A count is told as wrong exactly if it is that of the arguments of a command that does not take it. -/
theorem resolve_eq_arity_iff {count : Nat} :
    resolve conservative payload = .unmatched (some (.arity command count)) ↔
      ∃ arguments, Names conservative payload command arguments ∧ count = arguments.length ∧
        command.arity.accepts count = false := by
  constructor
  · intro h
    obtain ⟨own, arguments, named⟩ := exists_names_of_resolve h (nomatch ·)
    rw [resolve_of_names named] at h
    split at h
    next => split at h <;> cases h
    next refused =>
      cases h
      exact ⟨arguments, named, rfl, Bool.eq_false_iff.mpr refused⟩
  · rintro ⟨arguments, named, rfl, refused⟩
    rw [resolve_of_names named, refused]
    rfl

/-- Arguments are told to have no literals exactly if their count is taken and the codec says why. -/
theorem resolve_eq_undecodable_iff {fault : ArgumentFault} :
    resolve conservative payload = .unmatched (some (.undecodable command arguments fault)) ↔
      Names conservative payload command arguments ∧ command.arity.accepts arguments.length = true ∧
        command.codec.decode arguments = .error fault := by
  constructor
  · intro h
    obtain ⟨own, others, named⟩ := exists_names_of_resolve h (nomatch ·)
    rw [resolve_of_names named] at h
    split at h
    next fits =>
      split at h
      next => cases h
      next failed =>
        cases h
        exact ⟨named, fits, failed⟩
    next => cases h
  · rintro ⟨named, fits, failed⟩
    rw [resolve_of_names named, if_pos fits, failed]

/-- Nothing is told exactly of a payload that names no command. -/
theorem resolve_eq_unnamed_iff :
    resolve conservative payload = .unmatched none ↔
      ∀ command arguments, ¬ Names conservative payload command arguments := by
  refine ⟨fun h command arguments named => ?_, resolve_of_unnamed⟩
  rw [resolve_of_names named] at h
  split at h
  next => split at h <;> cases h
  next => cases h

end Resolution

/-! ## The law -/

/-- What a payload resolves to. It is matched exactly if it names a command that takes the count of its
arguments and, as a tear mode, is zero or one; a count that is not taken is told, a tear mode that has no name
is told where matching is free, and of other payloads nothing is told. The codec of a command that takes the
count misses no byte and leaves none out: what the literals write are the arguments, and a helper gets as many
of them as it takes. -/
theorem resolve_exact (conservative : Bool) (payload : Bytes) :
    (∀ command, (∃ literals, resolve conservative payload = .matched command literals) ↔
      ∃ arguments, Names conservative payload command arguments ∧
        command.arity.accepts arguments.length = true ∧
        (command = .setTearOn → arguments = [0] ∨ arguments = [1])) ∧
    (∀ command count, resolve conservative payload = .unmatched (some (.arity command count)) ↔
      ∃ arguments, Names conservative payload command arguments ∧ count = arguments.length ∧
        command.arity.accepts count = false) ∧
    (∀ command arguments fault,
      resolve conservative payload = .unmatched (some (.undecodable command arguments fault)) ↔
        conservative = false ∧ ∃ b, 2 ≤ b ∧ payload = [0x35, b] ∧ command = .setTearOn ∧ arguments = [b] ∧
          fault = .invalidTearMode b) ∧
    (resolve conservative payload = .unmatched none ↔
      ∀ command arguments, ¬ Names conservative payload command arguments) ∧
    ∀ command arguments, Names conservative payload command arguments →
      command.arity.accepts arguments.length = true →
      command.codec.decode arguments ≠ .error .missingValue ∧
      (∀ width order, command.codec = .integers width order →
        arguments.length < width ∨ width ∣ arguments.length) ∧
      ∀ literals, resolve conservative payload = .matched command literals →
        command.codec.readBack? literals = some (command.writtenArguments arguments) ∧
        (command.helper? ≠ none → literals.length = command.helperArguments) := by
  refine ⟨fun command => ?_, fun command count => resolve_eq_arity_iff, fun command arguments fault => ?_,
    resolve_eq_unnamed_iff, fun command arguments named fits =>
      ⟨fun missing => ?_, fun width order integers => ?_, fun literals matched => ?_⟩⟩
  · constructor
    · rintro ⟨literals, matched⟩
      obtain ⟨arguments, spelled, through, fits, decoded⟩ := resolve_eq_matched_iff.mp matched
      exact ⟨arguments, ⟨spelled, through⟩, fits, (DcsCommand.exists_decode_iff fits).mp ⟨literals, decoded⟩⟩
    · rintro ⟨arguments, ⟨spelled, through⟩, fits, tear⟩
      obtain ⟨literals, decoded⟩ := (DcsCommand.exists_decode_iff fits).mpr tear
      exact ⟨literals, resolve_eq_matched_iff.mpr ⟨arguments, spelled, through, fits, decoded⟩⟩
  · rw [resolve_eq_undecodable_iff]
    constructor
    · rintro ⟨⟨spelled, through⟩, fits, failed⟩
      obtain ⟨rfl, b, large, rfl, rfl⟩ := (DcsCommand.decode_error_iff fits).mp failed
      -- The tear mode is not among the commands that conservative matching lets through.
      have free : conservative = false := Bool.eq_false_iff.mpr fun held => absurd (through held) (by decide)
      exact ⟨free, b, large, spelled, rfl, rfl, rfl⟩
    · rintro ⟨rfl, b, large, spelled, rfl, rfl, rfl⟩
      have fits : DcsCommand.setTearOn.arity.accepts [b].length = true := Arity.accepts_singleton.mpr rfl
      exact ⟨⟨spelled, fun held => (nomatch held)⟩, fits,
        (DcsCommand.decode_error_iff fits).mpr ⟨rfl, b, large, rfl, rfl⟩⟩
  · obtain ⟨-, b, -, -, other⟩ := (DcsCommand.decode_error_iff fits).mp missing
    cases other
  · obtain ⟨rfl, ⟨even, -⟩ | ⟨-, -, single⟩⟩ := DcsCommand.whole_integers fits integers
    · exact .inr even
    · exact .inl (single ▸ by decide)
  · obtain ⟨others, spelled, through, -, decoded⟩ := resolve_eq_matched_iff.mp matched
    obtain ⟨-, rfl⟩ := named.unique ⟨spelled, through⟩
    exact ⟨DcsCommand.readBack?_decode fits decoded, DcsCommand.length_decode_of_helper fits decoded⟩

/-- A brightness of one byte is written in one literal of two bytes for its helper. With a byte too many, a tear
mode without a name, and a command that conservative matching holds back, the three ways not to match. -/
theorem resolve_exact_brightness :
    resolve false [0x51, 0x80] = .matched .setDisplayBrightness ["0x0080"] ∧
    ArgumentCodec.readBack? (.integers 2 .little) ["0x0080"] = some [0x80, 0x00] ∧
    ["0x0080"].length = DcsCommand.setDisplayBrightness.helperArguments ∧
    resolve false [0x51, 0x80, 0x07, 0x00] = .unmatched (some (.arity .setDisplayBrightness 3)) ∧
    resolve false [0x35, 0x02] = .unmatched (some (.undecodable .setTearOn [0x02] (.invalidTearMode 0x02))) ∧
    resolve true [0x51, 0x80] = .unmatched none := by
  have matched : resolve false [0x51, 0x80] = .matched .setDisplayBrightness ["0x0080"] := by decide
  obtain ⟨-, -, -, -, written⟩ := resolve_exact false [0x51, 0x80]
  obtain ⟨-, -, literals⟩ := written .setDisplayBrightness [0x80] ⟨rfl, fun held => (nomatch held)⟩ (by decide)
  obtain ⟨back, count⟩ := literals ["0x0080"] matched
  obtain ⟨-, counted, -⟩ := resolve_exact false [0x51, 0x80, 0x07, 0x00]
  obtain ⟨-, -, undecodable, -⟩ := resolve_exact false [0x35, 0x02]
  obtain ⟨-, -, -, unnamed, -⟩ := resolve_exact true [0x51, 0x80]
  refine ⟨matched, back, count (by decide), ?_, ?_, ?_⟩
  · exact (counted _ _).mpr ⟨[0x80, 0x07, 0x00], ⟨rfl, fun held => (nomatch held)⟩, rfl, by decide⟩
  · exact (undecodable _ _ _).mpr ⟨rfl, 2, by decide, rfl, rfl, rfl, rfl⟩
  · refine unnamed.mpr fun command arguments ⟨spelled, through⟩ => ?_
    have byte := (DcsCommand.ofOpcode?_eq_some_iff 0x51 command).mpr (List.cons.inj spelled).1.symm
    cases byte
    exact absurd (through rfl) (by decide)

end DsiPanel
