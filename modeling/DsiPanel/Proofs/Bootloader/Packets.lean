import DsiPanel.Bootloader.Packet
import Mathlib.Data.Nat.Bitwise

/-!
# Reading a packet back

A packet has no length of its own and no mark where its payload ends. All that a bootloader has is the
bytes, and this module says what they tell it: which bits hold what (`Marks`), and how the two layouts
go on from there (`Carries`).

**The law** (`Operation.packet_carries`): an operation has no packet only for one of three reasons
(`NoPacket`), and every other operation is told by its packet alone, up to what a packet does not hold
(`SentAlike`). That is the wait, the upper bits of the channel, and of a short packet how many of its
zeros the payload had.

The type byte is the only one that holds two things. No opcode of the table reaches the two bits of the
channel (`Transaction.opcode_lt`), so they come apart again, also where the operation names a channel past
the third. Where the payload of a long packet ends is told by its count, since such a packet is only made
where 16 bits can give the count.
-/

namespace DsiPanel

/-! ## Operations without a packet -/

/-- Why an operation has no packet. Where the payload is too long for the kind of packet, the error gives
the index of the operation and the length of the payload. -/
inductive NoPacket (index : Nat) (op : Operation) : SynthesisError → Prop
  | unknown (opcode : ∀ t : Transaction, t.opcode ≠ op.opcode) :
      NoPacket index op (.decode (.unknownTransaction op.opcode))
  | tooLong (t : Transaction) (opcode : t.opcode = op.opcode) (long : t.isLong = true)
      (length : 65535 < op.payload.length) : NoPacket index op (.payloadTooLong index op.payload.length)
  | overflow (t : Transaction) (opcode : t.opcode = op.opcode) (short : t.isLong = false)
      (length : 2 < op.payload.length) : NoPacket index op (.shortOverflow index op.payload.length)

theorem Operation.packet_error_iff {index : Nat} {op : Operation} {error : SynthesisError} :
    op.packet index = .error error ↔ NoPacket index op error := by
  unfold Operation.packet
  cases known : Transaction.ofOpcode? op.opcode with
  | none =>
    have unknown := (Transaction.ofOpcode?_eq_none_iff op.opcode).mp known
    constructor
    · intro h
      cases h
      exact .unknown unknown
    · rintro (_ | ⟨t, own, -, -⟩ | ⟨t, own, -, -⟩)
      · rfl
      · exact absurd own (unknown t)
      · exact absurd own (unknown t)
  | some t =>
    have own := (Transaction.ofOpcode?_eq_some_iff op.opcode t).mp known
    constructor
    · intro h
      simp only at h
      split at h
      next long =>
        split at h
        next => contradiction
        next exceeds =>
          cases h
          exact .tooLong t own long (Nat.lt_of_not_le exceeds)
      next short =>
        split at h
        next => contradiction
        next exceeds =>
          cases h
          exact .overflow t own (Bool.eq_false_iff.mpr short) (Nat.lt_of_not_le exceeds)
    · rintro (unknown | ⟨u, hu, long, length⟩ | ⟨u, hu, short, length⟩)
      · exact absurd own (unknown t)
      · obtain rfl := Transaction.opcode_injective (hu.trans own.symm)
        simp only [long, if_true, if_neg (Nat.not_le_of_lt length : ¬ op.payload.length ≤ maxPayload)]
      · obtain rfl := Transaction.opcode_injective (hu.trans own.symm)
        simp only [short, Bool.false_eq_true, if_false,
          if_neg (Nat.not_le_of_lt length : ¬ op.payload.length ≤ shortPayload)]

/-- A packet is made in one of the two layouts. -/
theorem Operation.packet_ok {index : Nat} {op : Operation} {packet : Bytes}
    (h : op.packet index = .ok packet) :
    ∃ t : Transaction, t.opcode = op.opcode ∧
      (t.isLong = true ∧ op.payload.length ≤ maxPayload ∧ packet = op.longPacket t ∨
        t.isLong = false ∧ op.payload.length ≤ shortPayload ∧ packet = op.shortPacket t) := by
  unfold Operation.packet at h
  split at h
  next => contradiction
  next t known =>
    refine ⟨t, (Transaction.ofOpcode?_eq_some_iff op.opcode t).mp known, ?_⟩
    split at h
    next long =>
      split at h
      next fits =>
        cases h
        exact .inl ⟨long, fits, rfl⟩
      next => contradiction
    next short =>
      split at h
      next fits =>
        cases h
        exact .inr ⟨Bool.eq_false_iff.mpr short, fits, rfl⟩
      next => contradiction

/-! ## Marks -/

/-- The bits of the type byte and the flags. -/
structure Marks (op : Operation) (long : Bool) (type flags : UInt8) : Prop where
  opcode : type % 64 = op.opcode
  channel : type / 64 = op.channel % 4
  ack : flags.toNat.testBit 5 = op.ack
  long : flags.toNat.testBit 6 = long
  last : flags.toNat.testBit 7 = op.last
  others : flags % 32 = 0

/-- An opcode leaves the two bits of the channel free. -/
theorem Transaction.opcode_lt (t : Transaction) : t.opcode.toNat < 64 := by
  cases t <;> decide

/-- Only the two low bits of a channel get into the type byte. -/
theorem toNat_typeByte {opcode : UInt8} (free : opcode.toNat < 64) (channel : UInt8) :
    (typeByte opcode channel).toNat = channel.toNat % 4 * 64 + opcode.toNat := by
  have shifted : channel.toNat <<< 6 % 2 ^ 8 = (channel.toNat % 4) <<< 6 := by
    rw [Nat.shiftLeft_eq, Nat.shiftLeft_eq]
    omega
  unfold typeByte
  rw [UInt8.toNat_or, UInt8.toNat_shiftLeft, Nat.or_comm]
  show channel.toNat <<< 6 % 2 ^ 8 ||| opcode.toNat = _
  rw [shifted, ← Nat.shiftLeft_add_eq_or_of_lt (i := 6) free, Nat.shiftLeft_eq]

theorem testBit_packetFlags (ack long last : Bool) :
    (packetFlags ack long last).toNat.testBit 5 = ack ∧
      (packetFlags ack long last).toNat.testBit 6 = long ∧
      (packetFlags ack long last).toNat.testBit 7 = last ∧ packetFlags ack long last % 32 = 0 := by
  cases ack <;> cases long <;> cases last <;> decide

theorem Operation.marks {op : Operation} {t : Transaction} (h : t.opcode = op.opcode) :
    Marks op t.isLong (typeByte t.opcode op.channel) (packetFlags op.ack t.isLong op.last) := by
  have whole := toNat_typeByte t.opcode_lt op.channel
  have free := t.opcode_lt
  obtain ⟨ack, long, last, others⟩ := testBit_packetFlags op.ack t.isLong op.last
  refine ⟨?_, ?_, ack, long, last, others⟩
  · rw [← h, ← UInt8.toNat_inj, UInt8.toNat_mod, whole]
    show (op.channel.toNat % 4 * 64 + t.opcode.toNat) % 64 = t.opcode.toNat
    omega
  · rw [← UInt8.toNat_inj, UInt8.toNat_div, UInt8.toNat_mod, whole]
    show (op.channel.toNat % 4 * 64 + t.opcode.toNat) / 64 = op.channel.toNat % 4
    omega

/-! ## Layouts -/

/-- The bytes of a packet that carries the operation. A long one counts the payload, least significant
byte first, and has it after the marks, with at most three bytes of filling behind; a short one has two
bytes of data, the payload filled up with zeros. -/
inductive Carries (op : Operation) (packet : Bytes) : Bool → Prop
  | long (low high type flags : UInt8) (filling : Bytes)
      (layout : packet = low :: high :: type :: flags :: (op.payload ++ filling))
      (marks : Marks op true type flags)
      (count : low.toNat + 256 * high.toNat = op.payload.length)
      (few : filling.length ≤ 3) (fill : ∀ b ∈ filling, b = 0xff) : Carries op packet true
  | short (first second type flags : UInt8) (layout : packet = [first, second, type, flags])
      (marks : Marks op false type flags)
      (data : [first, second] = op.payload ++ List.replicate (2 - op.payload.length) 0) :
      Carries op packet false

/-- Filling up stops at the first multiple of four. -/
theorem fillCount_spec (length : Nat) : fillCount length ≤ 3 ∧ 4 ∣ length + fillCount length := by
  unfold fillCount packetAlignment
  omega

theorem carries_longPacket {op : Operation} {t : Transaction} (h : t.opcode = op.opcode)
    (long : t.isLong = true) (fits : op.payload.length ≤ maxPayload) :
    Carries op (op.longPacket t) true ∧ 4 ∣ (op.longPacket t).length := by
  have marks := op.marks h
  have ⟨few, aligned⟩ := fillCount_spec op.payload.length
  have layout : op.longPacket t =
      UInt8.ofNat op.payload.length :: UInt8.ofNat (op.payload.length / 256) ::
        typeByte t.opcode op.channel :: packetFlags op.ack t.isLong op.last ::
          (op.payload ++ List.replicate (fillCount op.payload.length) fillByte) := by
    simp only [Operation.longPacket, Bytes.littleEndian16, Operation.packetMarks, List.cons_append,
      List.nil_append]
  constructor
  · refine .long _ _ _ _ _ layout (long ▸ marks) ?_ ?_ ?_
    · have back := Bytes.word_ofNat (Nat.lt_succ_of_le fits)
      rw [Bytes.word] at back
      omega
    · rw [List.length_replicate]
      exact few
    · exact fun b mem => List.eq_of_mem_replicate mem
  · rw [layout]
    simp only [List.length_cons, List.length_append, List.length_replicate]
    omega

theorem carries_shortPacket {op : Operation} {t : Transaction} (h : t.opcode = op.opcode)
    (short : t.isLong = false) (fits : op.payload.length ≤ shortPayload) :
    Carries op (op.shortPacket t) false ∧ 4 ∣ (op.shortPacket t).length := by
  have marks := op.marks h
  have data : [op.payload[0]?.getD 0, op.payload[1]?.getD 0] =
      op.payload ++ List.replicate (2 - op.payload.length) 0 := by
    match op.payload, fits with
    | [], _ => rfl
    | [_], _ => rfl
    | [_, _], _ => rfl
  exact ⟨.short _ _ _ _ rfl (short ▸ marks) data, 1, rfl⟩

/-- A packet that is made carries its operation, in the layout of its kind. -/
theorem Operation.carries_packet {index : Nat} {op : Operation} {packet : Bytes}
    (h : op.packet index = .ok packet) :
    4 ∣ packet.length ∧ ∃ t : Transaction, t.opcode = op.opcode ∧ Carries op packet t.isLong := by
  obtain ⟨t, opcode, ⟨long, fits, rfl⟩ | ⟨short, fits, rfl⟩⟩ := Operation.packet_ok h
  · have ⟨carries, aligned⟩ := carries_longPacket opcode long fits
    exact ⟨aligned, t, opcode, long ▸ carries⟩
  · have ⟨carries, aligned⟩ := carries_shortPacket opcode short fits
    exact ⟨aligned, t, opcode, short ▸ carries⟩

/-! ## What a packet tells -/

/-- The operations are the same but for what a packet does not hold. -/
structure SentAlike (op other : Operation) : Prop where
  opcode : other.opcode = op.opcode
  channel : other.channel % 4 = op.channel % 4
  ack : other.ack = op.ack
  last : other.last = op.last
  /-- The payloads are the same, up to the zeros of a short packet. -/
  data : other.payload ++ List.replicate (2 - other.payload.length) 0 =
    op.payload ++ List.replicate (2 - op.payload.length) 0
  payload : ∀ t : Transaction, t.opcode = op.opcode → t.isLong = true → other.payload = op.payload

theorem sentAlike_of_marks {op other : Operation} {long long' : Bool} {type flags : UInt8}
    (h : Marks op long type flags) (h' : Marks other long' type flags)
    (data : other.payload ++ List.replicate (2 - other.payload.length) 0 =
      op.payload ++ List.replicate (2 - op.payload.length) 0)
    (payload : ∀ t : Transaction, t.opcode = op.opcode → t.isLong = true → other.payload = op.payload) :
    SentAlike op other where
  opcode := h'.opcode.symm.trans h.opcode
  channel := h'.channel.symm.trans h.channel
  ack := h'.ack.symm.trans h.ack
  last := h'.last.symm.trans h.last
  data := data
  payload := payload

/-- A packet is of one kind: the flags tell which. -/
theorem Marks.kind_unique {op other : Operation} {long long' : Bool} {type type' flags : UInt8}
    (h : Marks op long type flags) (h' : Marks other long' type' flags) : long = long' :=
  h.long.symm.trans h'.long

/-- What a packet carries is told by its bytes. -/
theorem Carries.sentAlike {op other : Operation} {packet : Bytes} {t : Transaction} {long : Bool}
    (own : t.opcode = op.opcode) (h : Carries op packet t.isLong) (h' : Carries other packet long) :
    SentAlike op other := by
  generalize kind : t.isLong = own at h
  cases h with
  | long low high type flags filling layout marks count =>
    cases h' with
    | long low' high' type' flags' filling' layout' marks' count' =>
      simp only [layout, List.cons.injEq] at layout'
      obtain ⟨rfl, rfl, rfl, rfl, bodies⟩ := layout'
      -- The count says where the payload ends, so the filling cannot be taken for a part of it.
      have payload : op.payload = other.payload := List.append_inj_left bodies (count.symm.trans count')
      exact sentAlike_of_marks marks marks' (by rw [payload]) fun _ _ _ => payload.symm
    | short first second type' flags' layout' marks' =>
      simp only [layout, List.cons.injEq] at layout'
      obtain ⟨-, -, -, rfl, -⟩ := layout'
      exact absurd (marks.kind_unique marks') (nomatch ·)
  | short first second type flags layout marks data =>
    cases h' with
    | long low high type' flags' filling layout' marks' =>
      simp only [layout, List.cons.injEq] at layout'
      obtain ⟨-, -, -, rfl, -⟩ := layout'
      exact absurd (marks.kind_unique marks') (nomatch ·)
    | short first' second' type' flags' layout' marks' data' =>
      simp only [layout, List.cons.injEq] at layout'
      obtain ⟨rfl, rfl, rfl, rfl, -⟩ := layout'
      refine sentAlike_of_marks marks marks' (data'.symm.trans data) fun u hu long => ?_
      obtain rfl := Transaction.opcode_injective (hu.trans own.symm)
      exact absurd (long.symm.trans kind) (nomatch ·)

/-! ## The law -/

/-- Which operations have a packet, and what it tells. There is none for an opcode without a transaction,
for a long payload past 65535 bytes and for a short one past two. Any other packet takes a multiple of
four bytes and carries the operation in the layout of its kind, so that two operations with the same
packet are sent alike. -/
theorem Operation.packet_carries (index : Nat) (op : Operation) :
    (∀ error, op.packet index = .error error ↔ NoPacket index op error) ∧
    ∀ packet, op.packet index = .ok packet →
      4 ∣ packet.length ∧
      (∃ t : Transaction, t.opcode = op.opcode ∧ Carries op packet t.isLong) ∧
      ∀ (place : Nat) (other : Operation), other.packet place = .ok packet → SentAlike op other := by
  refine ⟨fun error => Operation.packet_error_iff, fun packet made => ?_⟩
  obtain ⟨aligned, t, own, carries⟩ := Operation.carries_packet made
  refine ⟨aligned, ⟨t, own, carries⟩, fun place other madeToo => ?_⟩
  obtain ⟨-, u, -, carriesToo⟩ := Operation.carries_packet madeToo
  exact carries.sentAlike own carriesToo

/-- A long write on channel 7, the last of its group. -/
def groupEnd : Operation :=
  { opcode := 0x39, last := true, channel := 7, payload := [0xb0, 0x04, 0x00] }

/-- The long write is told by its packet, three bytes of payload and one of filling, on channel 3; and a
short write with three bytes has no packet. -/
theorem Operation.packet_carries_groupEnd :
    groupEnd.packet 0 = .ok [0x03, 0x00, 0xf9, 0xc0, 0xb0, 0x04, 0x00, 0xff] ∧
    (∃ t : Transaction, t.opcode = 0x39 ∧
      Carries groupEnd [0x03, 0x00, 0xf9, 0xc0, 0xb0, 0x04, 0x00, 0xff] t.isLong) ∧
    (∀ other : Operation, other.packet 5 = .ok [0x03, 0x00, 0xf9, 0xc0, 0xb0, 0x04, 0x00, 0xff] →
      other.payload = [0xb0, 0x04, 0x00] ∧ other.channel % 4 = 3) ∧
    Operation.packet 3 { opcode := 0x15, payload := [1, 2, 3] } = .error (.shortOverflow 3 3) := by
  have made : groupEnd.packet 0 = .ok [0x03, 0x00, 0xf9, 0xc0, 0xb0, 0x04, 0x00, 0xff] := by decide
  obtain ⟨-, carries, told⟩ := (Operation.packet_carries 0 groupEnd).2 _ made
  refine ⟨made, carries, fun other madeToo => ?_, ?_⟩
  · have alike := told 5 other madeToo
    exact ⟨alike.payload .dcsLongWrite rfl rfl, alike.channel⟩
  · exact ((Operation.packet_carries 3 { opcode := 0x15, payload := [1, 2, 3] }).1 _).mpr
      (.overflow .dcsShortWriteParam rfl rfl (by decide))

end DsiPanel
