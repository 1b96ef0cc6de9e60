import DsiPanel.Proofs.Wire.Grammar
import DsiPanel.Sequence.Basic

/-!
# Arrays one after another

Decoding goes from front to back and keeps nothing but the count of the frames and the place that it
has reached. So what a first array gives does not depend on what follows, and what a second one gives
is shifted by the first and else the same.

**The law** (`decode_concatenation`): after an array that decodes, decoding goes on as if it began
there (`resumed`); a bad channel is told the same whatever follows; and where a whole decodes that is
cut in two, the front ends in a frame that is cut off, after as many frames as lie whole in it
(`wholeFrames`). Beginning at an offset is going on after no frames, and how an array is divided into
segments does not count.

All of it follows from the grammar of command arrays: frames at the front of an array are the first
frames of it, and a fault needs no more of the bytes behind it than it has seen.
-/

namespace DsiPanel

/-! ## Going on after frames -/

/-- The error as it is told where `frames` frames and `bytes` bytes stand before the array. -/
def DecodeError.shifted (frames bytes : Nat) : DecodeError → DecodeError
  | truncated index offset need available => truncated (index + frames) (offset + bytes) need available
  | invalidChannel index offset value => invalidChannel (index + frames) (offset + bytes) value
  | other => other

/-- What decoding gives that has read `operations` from `bytes` bytes and goes on. -/
def resumed (operations : List Operation) (bytes : Nat) :
    Except DecodeError (List Operation) → Except DecodeError (List Operation)
  | .ok later => .ok (operations ++ later)
  | .error error => .error (error.shifted operations.length bytes)

theorem FirstFault.shifted {index offset : Nat} {rest : Bytes} {error : DecodeError}
    (h : FirstFault index offset rest error) (frames bytes : Nat) :
    FirstFault (index + frames) (offset + bytes) rest (error.shifted frames bytes) := by
  cases h with
  | header _ more short => exact .header rest more short
  | channel opcode last channel ack wait high low body bad =>
    exact .channel opcode last channel ack wait high low body bad
  | payload opcode last channel ack wait high low body good short =>
    exact .payload opcode last channel ack wait high low body good short

/-- Decoding goes on after complete frames as it would begin there. -/
theorem decodeFrom_resumed {offset : Nat} {data rest : Bytes} {frames : List Frame}
    (complete : ∀ f ∈ frames, f.Complete)
    (h : data.drop (min offset data.length) = arrayBytes frames ++ rest) :
    decodeFrom offset data = resumed (frames.map Frame.operation)
      (min offset data.length + (arrayBytes frames).length) (decode rest) := by
  have both {more : List Frame} (completeM : ∀ f ∈ more, f.Complete) :
      ∀ f ∈ frames ++ more, f.Complete :=
    List.forall_mem_append.mpr ⟨complete, completeM⟩
  cases hrest : decode rest with
  | ok later =>
    obtain ⟨more, completeM, rfl, rfl⟩ := decode_ok_iff.mp hrest
    refine decodeFrom_ok_iff.mpr ⟨frames ++ more, both completeM, ?_, ?_⟩
    · rw [h, arrayBytes_append]
    · rw [List.map_append]
  | error error =>
    obtain ⟨more, tail, completeM, rfl, fault⟩ := decode_error_iff.mp hrest
    refine decodeFrom_error_iff.mpr ⟨frames ++ more, tail, both completeM, ?_, ?_⟩
    · rw [h, arrayBytes_append, List.append_assoc]
    · have later := fault.shifted frames.length (min offset data.length + (arrayBytes frames).length)
      rw [List.length_map, List.length_append, arrayBytes_append, List.length_append, ← Nat.add_assoc,
        Nat.add_comm frames.length, Nat.add_comm (min offset data.length + _)]
      exact later

theorem decode_append_of_ok {a : Bytes} {operations : List Operation} (h : decode a = .ok operations)
    (b : Bytes) : decode (a ++ b) = resumed operations a.length (decode b) := by
  obtain ⟨frames, complete, rfl, rfl⟩ := decode_ok_iff.mp h
  have front : (arrayBytes frames ++ b).drop (min 0 (arrayBytes frames ++ b).length) =
      arrayBytes frames ++ b := by
    rw [Nat.zero_min, List.drop_zero]
  have whole := decodeFrom_resumed complete front
  rwa [Nat.zero_min, Nat.zero_add] at whole

theorem decodeFrom_eq_resumed {offset : Nat} {data : Bytes} (h : offset ≤ data.length) :
    decodeFrom offset data = resumed [] offset (decode (data.drop offset)) := by
  have inside : min offset data.length = offset := Nat.min_eq_left h
  have none : data.drop (min offset data.length) = arrayBytes [] ++ data.drop offset := by
    rw [inside, arrayBytes_nil, List.nil_append]
  have whole := decodeFrom_resumed (List.forall_mem_nil _) none
  rwa [inside] at whole

/-! ## Faults at the front -/

/-- A bad channel stands in a header that is complete, so nothing behind it counts. -/
theorem FirstFault.channel_append {index offset index' offset' : Nat} {rest : Bytes} {value : UInt8}
    (h : FirstFault index offset rest (.invalidChannel index' offset' value)) (b : Bytes) :
    FirstFault index offset (rest ++ b) (.invalidChannel index' offset' value) := by
  cases h with
  | channel opcode last _ ack wait high low body bad =>
    exact .channel opcode last value ack wait high low (body ++ b) bad

theorem decode_append_of_channel {a : Bytes} {index offset : Nat} {value : UInt8}
    (h : decode a = .error (.invalidChannel index offset value)) (b : Bytes) :
    decode (a ++ b) = .error (.invalidChannel index offset value) := by
  obtain ⟨frames, rest, complete, rfl, fault⟩ := decode_error_iff.mp h
  refine decode_error_iff.mpr ⟨frames, rest ++ b, complete, ?_, fault.channel_append b⟩
  rw [List.append_assoc]

/-- Where a frame starts with the bytes of a fault, it ends behind them. -/
theorem FirstFault.length_lt {index offset : Nat} {rest : Bytes} {error : DecodeError}
    (h : FirstFault index offset rest error) {f : Frame} (complete : f.Complete) {b after : Bytes}
    (heq : rest ++ b = f.bytes ++ after) : rest.length < f.bytes.length := by
  by_contra long
  have inside : f.bytes <+: rest :=
    List.prefix_of_prefix_length_le ⟨after, heq.symm⟩ (List.prefix_append rest b) (Nat.le_of_not_lt long)
  obtain ⟨tail, rfl⟩ := inside
  obtain ⟨-, fault, failed, -⟩ := (firstFault_iff (c := ⟨offset, f.bytes ++ tail⟩)).mp h
  rw [readFrame_bytes complete] at failed
  contradiction

/-! ## Frames that lie whole in a front -/

/-- How many of the frames of an array end within its first `length` bytes. -/
def wholeFrames (frames : List Frame) (length : Nat) : Nat :=
  (List.range frames.length).countP fun i => (arrayBytes (frames.take (i + 1))).length ≤ length

/-- The frames up to the one that is cut are those that lie whole in the front. -/
theorem wholeFrames_append_cons {inside after : List Frame} {cut : Frame} {length : Nat}
    (fits : (arrayBytes inside).length ≤ length)
    (short : length < (arrayBytes inside).length + cut.bytes.length) :
    wholeFrames (inside ++ cut :: after) length = inside.length := by
  have before : ∀ i ∈ List.range inside.length,
      decide ((arrayBytes ((inside ++ cut :: after).take (i + 1))).length ≤ length) = true := by
    intro i hi
    have le : i + 1 ≤ inside.length := List.mem_range.mp hi
    have parts := congrArg List.length (arrayBytes_append (inside.take (i + 1)) (inside.drop (i + 1)))
    rw [List.take_append_drop, List.length_append] at parts
    rw [decide_eq_true_iff, List.take_append_of_le_length le]
    omega
  have behind : ∀ j ∈ List.range (after.length + 1), ¬ decide ((arrayBytes
      ((inside ++ cut :: after).take (inside.length + j + 1))).length ≤ length) = true := by
    intro j _
    have start : (inside ++ cut :: after).take (inside.length + j + 1) = inside ++ cut :: after.take j := by
      rw [Nat.add_assoc, List.take_length_add_append, List.take_succ_cons]
    rw [decide_eq_true_iff, start, arrayBytes_append, arrayBytes_cons, List.length_append,
      List.length_append]
    omega
  rw [wholeFrames, List.length_append, List.length_cons, List.range_add, List.countP_append,
    List.countP_eq_length.mpr before, List.length_range, List.countP_map, Nat.add_eq_left]
  exact List.countP_eq_zero.mpr behind

/-- The front of an array that decodes is cut off in the first frame that does not lie whole in it. -/
theorem truncated_of_decode_append {a b : Bytes} {operations : List Operation} {error : DecodeError}
    (whole : decode (a ++ b) = .ok operations) (front : decode a = .error error) :
    ∃ frames, (∀ f ∈ frames, f.Complete) ∧ a ++ b = arrayBytes frames ∧
      ∃ offset need available,
        error = .truncated (wholeFrames frames a.length) offset need available := by
  obtain ⟨frames, complete, bytes, -⟩ := decode_ok_iff.mp whole
  obtain ⟨inside, rest, completeI, rfl, fault⟩ := decode_error_iff.mp front
  rw [List.append_assoc] at bytes
  obtain ⟨later, rfl, tail⟩ := exists_of_arrayBytes_append completeI complete bytes.symm
  refine ⟨inside ++ later, complete, by rw [List.append_assoc, bytes], ?_⟩
  rcases fault.eq_truncated_or_channel with ⟨need, available, rfl⟩ | ⟨value, rfl⟩
  · cases later with
    | nil =>
      have none : rest = [] := (List.append_eq_nil_iff.mp tail).1
      have more : rest ≠ [] := ((firstFault_iff (c := ⟨_, rest⟩)).mp fault).1
      exact absurd none more
    | cons cut after =>
      have own : cut.Complete := complete cut (List.mem_append_right inside List.mem_cons_self)
      have short := fault.length_lt own tail
      have fits : (arrayBytes inside).length ≤ (arrayBytes inside ++ rest).length := by
        rw [List.length_append]
        exact Nat.le_add_right _ _
      have cuts : (arrayBytes inside ++ rest).length < (arrayBytes inside).length + cut.bytes.length := by
        rw [List.length_append]
        exact Nat.add_lt_add_left short _
      rw [wholeFrames_append_cons fits cuts]
      exact ⟨(arrayBytes inside).length, need, available, rfl⟩
  · have failed := decode_append_of_channel front b
    rw [whole] at failed
    contradiction

/-! ## The law -/

/-- A sequence has the operations of its segments put together. -/
theorem CommandSequence.decode_eq (name : String) (mode : SignalingMode) (segments : List Bytes) :
    CommandSequence.decode name mode segments =
      (DsiPanel.decode segments.flatten).map fun operations => { name, mode, operations } := by
  unfold CommandSequence.decode
  cases DsiPanel.decode segments.flatten <;> rfl

/-- Decoding keeps to the order of its bytes. After an array that decodes it goes on with what
follows, whose error is told with more frames and bytes before it. A bad channel is told the same
whatever follows. Where an array that decodes is cut, its front is told to be cut off after as many
frames as lie whole in it. Beginning at an offset is going on after that many bytes and no frame. And
a sequence has the operations of its array, however that is divided into segments. -/
theorem decode_concatenation :
    (∀ a b operations, decode a = .ok operations →
      decode (a ++ b) = resumed operations a.length (decode b)) ∧
    (∀ a b index offset value, decode a = .error (.invalidChannel index offset value) →
      decode (a ++ b) = .error (.invalidChannel index offset value)) ∧
    (∀ a b operations error, decode (a ++ b) = .ok operations → decode a = .error error →
      ∃ frames, (∀ f ∈ frames, f.Complete) ∧ a ++ b = arrayBytes frames ∧
        ∃ offset need available,
          error = .truncated (wholeFrames frames a.length) offset need available) ∧
    (∀ data offset, offset ≤ data.length →
      decodeFrom offset data = resumed [] offset (decode (data.drop offset))) ∧
    ∀ name mode (segments others : List Bytes),
      CommandSequence.decode name mode segments =
          (decode segments.flatten).map (fun operations => { name, mode, operations }) ∧
        (segments.flatten = others.flatten →
          CommandSequence.decode name mode segments = CommandSequence.decode name mode others) := by
  refine ⟨fun a b operations => (decode_append_of_ok · b),
    fun a b index offset value => (decode_append_of_channel · b),
    fun a b operations error => truncated_of_decode_append,
    fun data offset => decodeFrom_eq_resumed, fun name mode segments others => ⟨?_, fun same => ?_⟩⟩
  · exact CommandSequence.decode_eq name mode segments
  · rw [CommandSequence.decode_eq, CommandSequence.decode_eq, same]

/-- A short and a long write. -/
def twoFrames : List Frame := [⟨0x05, 1, 0, 0, 0x78, [0x11]⟩, ⟨0x39, 1, 0, 0, 0, [0xb0, 0x04]⟩]

/-- The short write, and three bytes of the header after it. -/
def cutFront : Bytes := [0x05, 1, 0, 0, 0x78, 0, 1, 0x11, 0x39, 1, 0]

/-- What stands behind the cut. -/
def cutBack : Bytes := [0, 0, 0, 2, 0xb0, 0x04]

/-- A frame that is cut off is counted after the frames before it, a bad channel stays where it was
found, and a cut in a header ends the front after one whole frame, which does not matter to segments. -/
theorem decode_concatenation_cut :
    (∃ operations, decode (cutFront.take 8) = .ok operations ∧
      decode (cutFront.take 8 ++ [0x39]) = .error (.truncated 1 8 7 1)) ∧
    decode ([0x05, 0, 4, 0, 0, 0, 0] ++ [0x11]) = .error (.invalidChannel 0 0 4) ∧
    (∃ operations error offset need available, decode (cutFront ++ cutBack) = .ok operations ∧
      decode cutFront = .error error ∧ error = .truncated 1 offset need available) ∧
    (∃ operations, decodeFrom 8 (cutFront ++ cutBack) = .ok operations ∧ operations.length = 1) ∧
    CommandSequence.decode "on" .lowPower [cutFront, cutBack] =
      CommandSequence.decode "on" .lowPower [cutFront ++ cutBack] := by
  obtain ⟨append, channel, front, offset, segments⟩ := decode_concatenation
  refine ⟨?_, ?_, ?_, ?_, (segments "on" .lowPower _ _).2 rfl⟩
  · have first : decode (cutFront.take 8) = .ok [{ opcode := 5, last := true, wait := 0x78, payload := [0x11] }] := by
      cbv
    have later : decode [0x39] = .error (.truncated 0 0 7 1) := by cbv
    have whole := append _ [0x39] _ first
    rw [later] at whole
    exact ⟨_, first, whole⟩
  · exact channel _ _ _ _ _ (by cbv)
  · have complete : ∀ f ∈ twoFrames, f.Complete :=
      List.forall_mem_cons.mpr ⟨⟨by decide, by decide⟩, List.forall_mem_singleton.mpr ⟨by decide, by decide⟩⟩
    have whole : decode (cutFront ++ cutBack) = .ok (twoFrames.map Frame.operation) :=
      decode_ok_iff.mpr ⟨twoFrames, complete, rfl, rfl⟩
    have cut : decode cutFront = .error (.truncated 1 8 7 3) := by cbv
    obtain ⟨frames, completeF, bytes, place, need, available, told⟩ := front _ _ _ _ whole cut
    have same : arrayBytes frames = arrayBytes twoFrames := bytes.symm
    obtain rfl := arrayBytes_injOn complete completeF same
    exact ⟨_, _, place, need, available, whole, cut, told⟩
  · have later : decode ((cutFront ++ cutBack).drop 8) =
        .ok [{ opcode := 0x39, last := true, payload := [0xb0, 0x04] }] := by
      cbv
    have behind := offset (cutFront ++ cutBack) 8 (by decide)
    rw [later] at behind
    exact ⟨_, behind, rfl⟩

end DsiPanel
