import DsiPanel.Wire.Decode
import Mathlib.Data.List.Forall2

/-!
# The grammar of command arrays

A command array is a run of complete frames, and the decoder answers with their operations. This
module states that language without the decoder: which frames are complete (`Frame.Complete`), what
operation a frame stands for (`Frame.Denotes`) and why no further frame starts at a place
(`FirstFault`).

**The law** (`decodeFrom_grammar`): decoding from an offset succeeds exactly on runs of complete
frames, with one operation for each of them in order; on any other bytes it answers with the fault
of the first frame that is not complete, its number and its place in the whole array.

The proof leans on two facts about one reading step. A complete frame is read off the front of any
bytes (`readFrame_bytes`), and what is read off the front is a complete frame (`readFrame_ok`). Runs
of frames follow by induction on the run, resp. on the reading itself.
-/

namespace DsiPanel

/-! ## Complete frames -/

/-- The frame can stand in an array: it names one of the four channels, and the two bytes of the
length field can give the length of its payload. -/
structure Frame.Complete (f : Frame) : Prop where
  channel : f.channel ≤ 3
  length : f.payload.length < 65536

/-- The bytes of frames one after another. -/
def arrayBytes (frames : List Frame) : Bytes := (frames.map Frame.bytes).flatten

@[simp] theorem arrayBytes_nil : arrayBytes [] = [] := rfl

@[simp] theorem arrayBytes_cons (f : Frame) (frames : List Frame) :
    arrayBytes (f :: frames) = f.bytes ++ arrayBytes frames := rfl

/-- The bytes of a payload that the transaction of `opcode` carries: as many as its bound allows, and
all of them where there is no bound or no transaction. -/
structure Kept (opcode : UInt8) (payload kept : Bytes) : Prop where
  bounded : ∀ t : Transaction, t.opcode = opcode → ∀ max, t.limit = .atMost max → kept = payload.take max
  whole : (∀ t : Transaction, t.opcode = opcode → t.limit = .unbounded) → kept = payload

/-- The operation that a frame stands for. -/
structure Frame.Denotes (f : Frame) (op : Operation) : Prop where
  opcode : op.opcode = f.opcode
  last : op.last = true ↔ f.last ≠ 0
  channel : op.channel = f.channel
  ack : op.ack = true ↔ f.ack ≠ 0
  wait : op.wait = f.wait
  payload : Kept f.opcode f.payload op.payload

/-- The bytes at a place start no complete frame. The error counts the `index` frames before it and
gives its place `offset`; a header that is cut off goes before a channel past the third, and that
before a payload that is cut off. -/
inductive FirstFault (index offset : Nat) : Bytes → DecodeError → Prop
  | header (rest : Bytes) (more : rest ≠ []) (short : rest.length < 7) :
      FirstFault index offset rest (.truncated index offset 7 rest.length)
  | channel (opcode last channel ack wait high low : UInt8) (body : Bytes) (bad : 3 < channel) :
      FirstFault index offset (opcode :: last :: channel :: ack :: wait :: high :: low :: body)
        (.invalidChannel index offset channel)
  | payload (opcode last channel ack wait high low : UInt8) (body : Bytes) (good : channel ≤ 3)
      (short : body.length < Bytes.word high low) :
      FirstFault index offset (opcode :: last :: channel :: ack :: wait :: high :: low :: body)
        (.truncated index offset (Bytes.word high low) body.length)

/-- A fault is told as bytes that are cut off or as a channel, with the number and place of its frame. -/
theorem FirstFault.eq_truncated_or_channel {index offset : Nat} {rest : Bytes} {error : DecodeError}
    (h : FirstFault index offset rest error) :
    (∃ need available, error = .truncated index offset need available) ∨
      ∃ value, error = .invalidChannel index offset value := by
  cases h with
  | header => exact .inl ⟨_, _, rfl⟩
  | channel => exact .inr ⟨_, rfl⟩
  | payload => exact .inl ⟨_, _, rfl⟩

/-! ## The operation of a frame -/

/-- The decoder keeps of a payload what its transaction carries. -/
theorem kept_iff {opcode : UInt8} {payload kept : Bytes} :
    Kept opcode payload kept ↔ kept = keptPayload opcode payload := by
  cases known : Transaction.ofOpcode? opcode with
  | none =>
    have unknown := (Transaction.ofOpcode?_eq_none_iff opcode).mp known
    rw [keptPayload_of_unknown known]
    constructor
    · intro h
      exact h.whole fun t ht => absurd ht (unknown t)
    · intro h
      exact ⟨fun t ht => absurd ht (unknown t), fun _ => h⟩
  | some t =>
    have ht : t.opcode = opcode := (Transaction.ofOpcode?_eq_some_iff opcode t).mp known
    have only {u : Transaction} (hu : u.opcode = opcode) : u = t :=
      Transaction.opcode_injective (hu.trans ht.symm)
    rw [← ht, keptPayload_opcode, ht]
    cases limit : t.limit with
    | atMost max =>
      constructor
      · intro h
        exact h.bounded t ht max limit
      · intro h
        refine ⟨fun u hu m hm => ?_, fun free => ?_⟩
        · rw [only hu, limit] at hm
          cases hm
          exact h
        · rw [free t ht] at limit
          contradiction
    | unbounded =>
      constructor
      · intro h
        refine h.whole fun u hu => ?_
        rw [only hu, limit]
      · intro h
        refine ⟨fun u hu m hm => ?_, fun _ => h⟩
        rw [only hu, limit] at hm
        contradiction

theorem and_channelMask (channel : UInt8) : channel &&& channelMask = channel % 4 := by
  apply UInt8.toNat_inj.mp
  rw [UInt8.toNat_and, UInt8.toNat_mod]
  exact Nat.and_two_pow_sub_one_eq_mod channel.toNat 2

theorem and_channelMask_of_le {channel : UInt8} (h : channel ≤ 3) :
    channel &&& channelMask = channel := by
  have le : channel.toNat ≤ 3 := UInt8.le_iff_toNat_le.mp h
  rw [and_channelMask]
  apply UInt8.toNat_inj.mp
  rw [UInt8.toNat_mod]
  exact Nat.mod_eq_of_lt (Nat.lt_succ_of_le le)

theorem and_channelMask_le (channel : UInt8) : channel &&& channelMask ≤ 3 := by
  rw [UInt8.le_iff_toNat_le, UInt8.toNat_and]
  exact Nat.and_le_right

/-- A complete frame stands for the operation that the decoder makes of it, and for no other. -/
theorem Frame.Complete.denotes_iff {f : Frame} (h : f.Complete) {op : Operation} :
    f.Denotes op ↔ op = f.operation := by
  have mask := and_channelMask_of_le h.channel
  constructor
  · intro d
    obtain ⟨opcode, last, channel, ack, wait, payload⟩ := op
    obtain ⟨hopcode, hlast, hchannel, hack, hwait, hpayload⟩ := d
    simp only [Frame.operation, mask, Operation.mk.injEq]
    refine ⟨hopcode, ?_, hchannel, ?_, hwait, kept_iff.mp hpayload⟩
    · rw [Bool.eq_iff_iff, bne_iff_ne]
      exact hlast
    · rw [Bool.eq_iff_iff, bne_iff_ne]
      exact hack
  · rintro rfl
    exact ⟨rfl, bne_iff_ne, mask, bne_iff_ne, rfl, kept_iff.mpr rfl⟩

/-- Frames stand for operations one by one. -/
theorem forall₂_denotes_iff {frames : List Frame} (h : ∀ f ∈ frames, f.Complete)
    {operations : List Operation} :
    List.Forall₂ Frame.Denotes frames operations ↔ operations = frames.map Frame.operation := by
  induction frames generalizing operations with
  | nil => simp
  | cons f frames ih =>
    have tail := @ih fun g hg => h g (List.mem_cons_of_mem f hg)
    cases operations with
    | nil => simp
    | cons op operations =>
      have head : f.Denotes op ↔ op = f.operation := (h f List.mem_cons_self).denotes_iff
      simp only [List.forall₂_cons, List.map_cons, List.cons.injEq, head, tail]

/-! ## Reading one frame -/

theorem Frame.length_bytes (f : Frame) : f.bytes.length = headerSize + f.payload.length := by
  simp only [Frame.bytes, Bytes.bigEndian16, headerSize, List.length_append, List.length_cons,
    List.length_nil]

/-- A complete frame is read off the front of any bytes. -/
theorem readFrame_bytes {f : Frame} (h : f.Complete) (position : Nat) (rest : Bytes) :
    Cursor.readFrame { position, rest := f.bytes ++ rest } =
      .ok (f, { position := position + f.bytes.length, rest }) := by
  have good : ¬ channelMask < f.channel := UInt8.not_lt.mpr h.channel
  have declared := Bytes.word_ofNat h.length
  have enough : f.payload.length ≤ Cursor.remaining
      { position := position + headerSize, rest := f.payload ++ rest } := by
    simp only [Cursor.remaining, List.length_append]
    omega
  rw [Frame.length_bytes]
  simp only [Frame.bytes, Bytes.bigEndian16, List.cons_append, List.nil_append, Cursor.readFrame,
    if_neg good, declared, Cursor.readBytes_of_le enough, List.take_left, List.drop_left,
    Nat.add_assoc]

/-- What is read off the front is a complete frame. -/
theorem readFrame_ok {c next : Cursor} {f : Frame} (h : c.readFrame = .ok (f, next)) :
    f.Complete ∧ c.rest = f.bytes ++ next.rest ∧ next.position = c.position + f.bytes.length := by
  unfold Cursor.readFrame at h
  split at h
  next opcode last channel ack wait high low body hrest =>
    split at h
    · contradiction
    next good =>
      split at h
      next payload after hread =>
        cases h
        obtain ⟨enough, rfl, rfl⟩ := Cursor.readBytes_ok hread
        have declared : (body.take (Bytes.word high low)).length = Bytes.word high low :=
          List.length_take_of_le enough
        refine ⟨⟨UInt8.not_lt.mp good, ?_⟩, ?_, ?_⟩
        · show (body.take (Bytes.word high low)).length < 65536
          rw [declared]
          exact Bytes.word_lt high low
        · simp only [Frame.bytes, declared, Bytes.bigEndian16_word, hrest, List.cons_append,
            List.nil_append, List.take_append_drop]
        · rw [Frame.length_bytes, ← Nat.add_assoc]
          show c.position + headerSize + _ = c.position + headerSize + _
          rw [declared]
      next => contradiction
  next => contradiction

/-- A reading step fails exactly where no complete frame starts, and with that fault. -/
theorem firstFault_iff {index : Nat} {c : Cursor} {error : DecodeError} :
    FirstFault index c.position c.rest error ↔
      c.rest ≠ [] ∧ ∃ fault, c.readFrame = .error fault ∧ error = fault.error index c.position := by
  obtain ⟨position, rest⟩ := c
  constructor
  · intro h
    cases h with
    | header _ more short =>
      refine ⟨more, .short { need := headerSize, available := rest.length }, ?_, rfl⟩
      unfold Cursor.readFrame
      split
      next hrest =>
        simp only at hrest
        subst hrest
        simp only [List.length_cons] at short
        omega
      next => rfl
    | channel opcode last channel ack wait high low body bad =>
      refine ⟨List.cons_ne_nil _ _, .channel channel, ?_, rfl⟩
      exact if_pos bad
    | payload opcode last channel ack wait high low body good short =>
      refine ⟨List.cons_ne_nil _ _, .short { need := Bytes.word high low, available := body.length },
        ?_, rfl⟩
      have good : ¬ channelMask < channel := UInt8.not_lt.mpr good
      have short : Cursor.remaining { position := position + headerSize, rest := body } <
        Bytes.word high low := short
      simp only [Cursor.readFrame, if_neg good, Cursor.readBytes_of_lt short, Cursor.remaining]
  · rintro ⟨more, fault, hread, rfl⟩
    unfold Cursor.readFrame at hread
    split at hread
    next opcode last channel ack wait high low body hrest =>
      simp only at hrest
      subst hrest
      split at hread
      next bad =>
        cases hread
        exact .channel opcode last channel ack wait high low body bad
      next good =>
        split at hread
        · contradiction
        next shortfall hbytes =>
          cases hread
          obtain ⟨short, rfl⟩ := Cursor.readBytes_error hbytes
          exact .payload opcode last channel ack wait high low body (UInt8.not_lt.mp good) short
    next notHeader =>
      cases hread
      refine .header rest more ?_
      -- The pattern of a header fails on up to six bytes and on nothing else.
      match rest, notHeader with
      | [], _ | [_], _ | [_, _], _ | [_, _, _], _ | [_, _, _, _], _ | [_, _, _, _, _], _
      | [_, _, _, _, _, _], _ => simp
      | a :: b :: c :: d :: e :: f :: g :: body, notHeader =>
        exact absurd rfl (notHeader a b c d e f g body)

/-! ## Reading a run of frames -/

/-- Complete frames at the front are read, and reading goes on after them. -/
theorem readFrames_append {frames : List Frame} (h : ∀ f ∈ frames, f.Complete) (position : Nat)
    (rest : Bytes) :
    let later := Cursor.readFrames { position := position + (arrayBytes frames).length, rest }
    Cursor.readFrames { position, rest := arrayBytes frames ++ rest } =
      { later with frames := frames ++ later.frames } := by
  -- The position moves on with each frame, so it is general in the induction.
  induction frames generalizing position with
  | nil => rfl
  | cons f frames ih =>
    have head := h f List.mem_cons_self
    have tail := ih fun g hg => h g (List.mem_cons_of_mem f hg)
    have some : (f.bytes ++ (arrayBytes frames ++ rest)).isEmpty = false := by
      rw [List.isEmpty_eq_false_iff_exists_mem]
      exact ⟨f.opcode, by simp [Frame.bytes]⟩
    intro later
    rw [arrayBytes_cons, List.append_assoc, Cursor.readFrames]
    simp only [some, Bool.false_eq_true, if_false]
    split
    next hread =>
      rw [readFrame_bytes head] at hread
      contradiction
    next g next hread =>
      rw [readFrame_bytes head] at hread
      cases hread
      rw [tail]
      simp only [later, arrayBytes_cons, List.length_append, Nat.add_assoc, List.cons_append]

/-- Reading stops after a run of complete frames: at the end of the bytes, or where no further frame
can be read. -/
theorem readFrames_stop (c : Cursor) :
    ∃ stop : Cursor, c.rest = arrayBytes c.readFrames.frames ++ stop.rest ∧
      stop.position = c.position + (arrayBytes c.readFrames.frames).length ∧
      (∀ f ∈ c.readFrames.frames, f.Complete) ∧
      (stop.rest = [] ∧ c.readFrames.fault = none ∨
        stop.rest ≠ [] ∧ ∃ fault, stop.readFrame = .error fault ∧
          c.readFrames.fault = some (stop.position, fault)) := by
  fun_induction Cursor.readFrames c with
  | case1 c empty =>
    have empty : c.rest = [] := List.isEmpty_iff.mp empty
    exact ⟨c, rfl, rfl, List.forall_mem_nil _, .inl ⟨empty, rfl⟩⟩
  | case2 c more fault hread =>
    have more : c.rest ≠ [] := mt List.isEmpty_iff.mpr more
    exact ⟨c, rfl, rfl, List.forall_mem_nil _, .inr ⟨more, fault, hread, rfl⟩⟩
  | case3 c _ f next hread later ih =>
    obtain ⟨complete, hrest, hposition⟩ := readFrame_ok hread
    obtain ⟨stop, stopRest, stopPosition, frames, ends⟩ := ih
    refine ⟨stop, ?_, ?_, List.forall_mem_cons.mpr ⟨complete, frames⟩, ends⟩
    · rw [hrest, stopRest, arrayBytes_cons, List.append_assoc]
    · rw [stopPosition, hposition, arrayBytes_cons, List.length_append, Nat.add_assoc]

/-! ## A run is told by its bytes -/

/-- The bytes at the front tell which complete frame stands there. -/
theorem Frame.Complete.bytes_append_inj {f g : Frame} (hf : f.Complete) (hg : g.Complete)
    {xs ys : Bytes} (h : f.bytes ++ xs = g.bytes ++ ys) : f = g ∧ xs = ys := by
  have read := readFrame_bytes hf 0 xs
  rw [h, readFrame_bytes hg 0 ys] at read
  cases read
  exact ⟨rfl, rfl⟩

@[simp] theorem arrayBytes_append (frames later : List Frame) :
    arrayBytes (frames ++ later) = arrayBytes frames ++ arrayBytes later := by
  simp only [arrayBytes, List.map_append, List.flatten_append]

theorem arrayBytes_eq_nil_iff {frames : List Frame} : arrayBytes frames = [] ↔ frames = [] := by
  cases frames with
  | nil => simp
  | cons f frames => simp [Frame.bytes]

/-- A run that starts with the bytes of complete frames starts with these frames. -/
theorem exists_of_arrayBytes_append {frames run : List Frame} (hf : ∀ f ∈ frames, f.Complete)
    (hr : ∀ f ∈ run, f.Complete) {rest : Bytes} (h : arrayBytes run = arrayBytes frames ++ rest) :
    ∃ later, run = frames ++ later ∧ rest = arrayBytes later := by
  induction frames generalizing run with
  | nil => exact ⟨run, rfl, h.symm⟩
  | cons f frames ih =>
    obtain ⟨head, tail⟩ := List.forall_mem_cons.mp hf
    cases run with
    | nil =>
      have none := (List.append_eq_nil_iff.mp h.symm).1
      exact absurd (arrayBytes_eq_nil_iff.mp none) (List.cons_ne_nil f frames)
    | cons g run =>
      obtain ⟨headR, tailR⟩ := List.forall_mem_cons.mp hr
      rw [arrayBytes_cons, arrayBytes_cons, List.append_assoc] at h
      obtain ⟨rfl, same⟩ := headR.bytes_append_inj head h
      obtain ⟨later, rfl, hrest⟩ := ih tail tailR same
      exact ⟨later, rfl, hrest⟩

/-- Two runs of complete frames with the same bytes are the same run. -/
theorem arrayBytes_injOn {frames run : List Frame} (hf : ∀ f ∈ frames, f.Complete)
    (hr : ∀ f ∈ run, f.Complete) (h : arrayBytes run = arrayBytes frames) : run = frames := by
  obtain ⟨later, rfl, none⟩ := exists_of_arrayBytes_append hf hr (h.trans (List.append_nil _).symm)
  rw [arrayBytes_eq_nil_iff.mp none.symm, List.append_nil]

/-! ## The law of the decoder -/

theorem ofBytes_rest (data : Bytes) (offset : Nat) :
    (Cursor.ofBytes data offset).rest = data.drop (min offset data.length) := by
  show data.drop offset = _
  rcases Nat.le_total offset data.length with inside | past
  · rw [Nat.min_eq_left inside]
  · rw [Nat.min_eq_right past, List.drop_eq_nil_of_le past, List.drop_length]

/-- Decoding succeeds exactly on runs of complete frames. -/
theorem decodeFrom_ok_iff {offset : Nat} {data : Bytes} {operations : List Operation} :
    decodeFrom offset data = .ok operations ↔
      ∃ frames, (∀ f ∈ frames, f.Complete) ∧
        data.drop (min offset data.length) = arrayBytes frames ∧
        operations = frames.map Frame.operation := by
  rw [← ofBytes_rest]
  unfold decodeFrom
  constructor
  · intro h
    obtain ⟨stop, hrest, _, complete, ends⟩ := readFrames_stop (Cursor.ofBytes data offset)
    rcases ends with ⟨stopRest, none⟩ | ⟨_, fault, _, some⟩
    · refine ⟨_, complete, ?_, ?_⟩
      · rw [hrest, stopRest, List.append_nil]
      · simp only [Frames.operations, none] at h
        cases h
        rfl
    · simp only [Frames.operations, some] at h
      contradiction
  · rintro ⟨frames, complete, hrest, rfl⟩
    have run := readFrames_append complete (Cursor.ofBytes data offset).position []
    rw [List.append_nil, ← hrest] at run
    rw [run, Cursor.readFrames]
    simp only [List.isEmpty_nil, if_true, Frames.operations, List.append_nil]

/-- Decoding fails exactly where complete frames are followed by bytes that start none. -/
theorem decodeFrom_error_iff {offset : Nat} {data : Bytes} {error : DecodeError} :
    decodeFrom offset data = .error error ↔
      ∃ frames rest, (∀ f ∈ frames, f.Complete) ∧
        data.drop (min offset data.length) = arrayBytes frames ++ rest ∧
        FirstFault frames.length (min offset data.length + (arrayBytes frames).length) rest error := by
  rw [← ofBytes_rest]
  unfold decodeFrom
  constructor
  · intro h
    obtain ⟨stop, hrest, hposition, complete, ends⟩ := readFrames_stop (Cursor.ofBytes data offset)
    refine ⟨_, stop.rest, complete, hrest, ?_⟩
    rcases ends with ⟨_, none⟩ | ⟨more, fault, hread, some⟩
    · simp only [Frames.operations, none] at h
      contradiction
    · simp only [Frames.operations, some] at h
      cases h
      show FirstFault _ ((Cursor.ofBytes data offset).position + _) _ _
      rw [← hposition]
      exact firstFault_iff.mpr ⟨more, fault, hread, rfl⟩
  · rintro ⟨frames, rest, complete, hrest, first⟩
    have run := readFrames_append complete (Cursor.ofBytes data offset).position rest
    obtain ⟨more, fault, hread, rfl⟩ := firstFault_iff (c := { position := _, rest }).mp first
    have more : rest.isEmpty = false := List.isEmpty_eq_false_iff.mpr more
    rw [← hrest] at run
    rw [run, Cursor.readFrames]
    simp only [more, Bool.false_eq_true, if_false]
    split
    next other hother =>
      cases hread.symm.trans hother
      simp only [Frames.operations, List.append_nil]
      rfl
    next hother =>
      cases hread.symm.trans hother

/-- A whole array decodes exactly if it is a run of complete frames. -/
theorem decode_ok_iff {data : Bytes} {operations : List Operation} :
    decode data = .ok operations ↔
      ∃ frames, (∀ f ∈ frames, f.Complete) ∧ data = arrayBytes frames ∧
        operations = frames.map Frame.operation := by
  rw [decode, decodeFrom_ok_iff, Nat.zero_min, List.drop_zero]

/-- A whole array fails exactly where complete frames are followed by bytes that start none. -/
theorem decode_error_iff {data : Bytes} {error : DecodeError} :
    decode data = .error error ↔
      ∃ frames rest, (∀ f ∈ frames, f.Complete) ∧ data = arrayBytes frames ++ rest ∧
        FirstFault frames.length (arrayBytes frames).length rest error := by
  simp only [decode, decodeFrom_error_iff, Nat.zero_min, List.drop_zero, Nat.zero_add]

/-- The language of command arrays. The bytes from an offset on decode exactly if they are a run of
complete frames, and the answer then has the operation of each frame in order. Every other array
is refused with the fault of its first frame that is not complete. -/
theorem decodeFrom_grammar (offset : Nat) (data : Bytes) :
    (∀ operations, decodeFrom offset data = .ok operations ↔
      ∃ frames, (∀ f ∈ frames, f.Complete) ∧
        data.drop (min offset data.length) = arrayBytes frames ∧
        List.Forall₂ Frame.Denotes frames operations) ∧
    (∀ error, decodeFrom offset data = .error error ↔
      ∃ frames rest, (∀ f ∈ frames, f.Complete) ∧
        data.drop (min offset data.length) = arrayBytes frames ++ rest ∧
        FirstFault frames.length (min offset data.length + (arrayBytes frames).length) rest
          error) := by
  refine ⟨fun operations => ?_, fun error => decodeFrom_error_iff⟩
  rw [decodeFrom_ok_iff]
  constructor
  · rintro ⟨frames, complete, hdata, rfl⟩
    exact ⟨frames, complete, hdata, (forall₂_denotes_iff complete).mpr rfl⟩
  · rintro ⟨frames, complete, hdata, denotes⟩
    exact ⟨frames, complete, hdata, (forall₂_denotes_iff complete).mp denotes⟩

end DsiPanel
