import DsiPanel.Dcs.Codec
import DsiPanel.Proofs.Text.Literal
import Mathlib.Data.List.Induction

/-!
# Integer literals read back

A literal of `width` bytes is the mark `0x` and two lower-case digits for each of them, so it can be read as a
number and the number be spread over `width` bytes again, in the order in which it was gathered
(`readIntegers?`). Numbers are gathered in 64 bits, and up to a width of eight bytes no bit is lost on the
way (`toNat_gatherInteger`).

**The law** (`ArgumentCodec.integers_faithful`): what is read back are the bytes that were written, in all
groups that are full. Bytes that do not fill a group after the first are not written at all, and fewer bytes
than one group are written as if they were filled up with zeros on their most significant side.
-/

namespace DsiPanel

/-! ## Digits of a literal -/

/-- The digits of a literal behind its mark. -/
def hexDigits (width value : Nat) : List Char := (Nat.toDigits 16 value).leftpad (2 * width) '0'

theorem toList_hexLiteral (width value : Nat) :
    (hexLiteral width value).toList = '0' :: 'x' :: hexDigits width value := by
  have mark : "0x".toList = ['0', 'x'] := rfl
  rw [hexLiteral, String.toList_append, mark, String.toList_ofList]
  rfl

def isLowerHexDigit (c : Char) : Bool := c.isDigit || (decide ('a' ≤ c) && decide (c ≤ 'f'))

theorem isLowerHexDigit_of_mem_hexDigits {width value : Nat} {c : Char} (h : c ∈ hexDigits width value) :
    isLowerHexDigit c = true := by
  rw [hexDigits, List.leftpad, List.mem_append, List.mem_replicate] at h
  rcases h with ⟨-, rfl⟩ | digit
  · decide
  · have all : ∀ d < 16, isLowerHexDigit (Nat.digitChar d) = true := by decide
    obtain ⟨d, small, rfl⟩ := exists_digitChar_of_mem_toDigits digit
    exact all d small

theorem readHexNumber?_hexDigits (width value : Nat) :
    readHexNumber? (hexDigits width value) = some value := by
  have read := readHexNumber?_hexLiteral width value
  rwa [toList_hexLiteral] at read

theorem le_length_hexDigits (width value : Nat) : 2 * width ≤ (hexDigits width value).length := by
  rw [hexDigits, List.length_leftpad]
  exact Nat.le_max_left _ _

theorem length_hexDigits_eq_iff {width value : Nat} (pos : 0 < width) :
    (hexDigits width value).length = 2 * width ↔ value < 256 ^ width := by
  rw [← length_hexLiteral_eq_iff pos, ← String.length_toList, toList_hexLiteral, List.length_cons,
    List.length_cons]
  omega

/-! ## Numbers spread over bytes -/

/-- The number that bytes make, the most significant first, after those that made `sum`. -/
def Bytes.numberFrom (sum : Nat) (bytes : Bytes) : Nat :=
  bytes.foldl (fun sum b => sum * 256 + b.toNat) sum

/-- The number that bytes make, the most significant first. -/
def Bytes.number (bytes : Bytes) : Nat := bytes.numberFrom 0

theorem Bytes.number_append_singleton (bytes : Bytes) (b : UInt8) :
    Bytes.number (bytes ++ [b]) = Bytes.number bytes * 256 + b.toNat := by
  simp only [Bytes.number, Bytes.numberFrom, List.foldl_append, List.foldl_cons, List.foldl_nil]

theorem Bytes.number_lt (bytes : Bytes) : Bytes.number bytes < 256 ^ bytes.length := by
  induction bytes using List.reverseRecOn with
  | nil => exact Nat.one_pos
  | append_singleton bytes b ih =>
    have hb := b.toNat_lt
    rw [Bytes.number_append_singleton, List.length_append, List.length_singleton, Nat.pow_succ]
    omega

/-- The low `width` bytes of a number, the most significant first. -/
def Bytes.ofNumber : Nat → Nat → Bytes
  | 0, _ => []
  | width + 1, n => Bytes.ofNumber width (n / 256) ++ [UInt8.ofNat n]

/-- The last byte of a number is the rest by 256. -/
theorem Bytes.ofNumber_succ (width n : Nat) (low : UInt8) :
    Bytes.ofNumber (width + 1) (n * 256 + low.toNat) = Bytes.ofNumber width n ++ [low] := by
  have small := low.toNat_lt
  have upper : (n * 256 + low.toNat) / 256 = n := by omega
  have lower : UInt8.ofNat (n * 256 + low.toNat) = low := by
    apply UInt8.toNat_inj.mp
    rw [UInt8.toNat_ofNat']
    omega
  rw [Bytes.ofNumber, upper, lower]

/-- A number spread over as many bytes as made it or more gives them back, behind zeros. -/
theorem Bytes.ofNumber_number {width : Nat} {bytes : Bytes} (h : bytes.length ≤ width) :
    Bytes.ofNumber width (Bytes.number bytes) = bytes.leftpad width 0 := by
  induction width generalizing bytes with
  | zero =>
    obtain rfl := List.eq_nil_of_length_eq_zero (Nat.le_zero.mp h)
    rfl
  | succ width ih =>
    rcases List.eq_nil_or_concat' bytes with rfl | ⟨high, low, rfl⟩
    · have zeros : Bytes.ofNumber width (Bytes.number []) = List.replicate width 0 ++ [] :=
        ih (Nat.zero_le width)
      rw [List.leftpad, List.append_nil]
      show Bytes.ofNumber width (Bytes.number []) ++ [0] = List.replicate (width + 1) 0
      rw [zeros, List.append_nil, List.replicate_succ']
    · have fits : high.length ≤ width := by
        rw [List.length_append, List.length_singleton] at h
        omega
      have zeros : width + 1 - (high ++ [low]).length = width - high.length := by
        rw [List.length_append, List.length_singleton]
        omega
      rw [Bytes.number_append_singleton, Bytes.ofNumber_succ, ih fits, List.leftpad, List.leftpad, zeros,
        List.append_assoc]

namespace ByteOrder

/-- Bytes in the other order where the least significant stands first, and as they are otherwise. -/
def arrange : ByteOrder → Bytes → Bytes
  | big, bytes => bytes
  | little, bytes => bytes.reverse

/-- The low `width` bytes of a number. -/
def spread (order : ByteOrder) (width n : Nat) : Bytes := order.arrange (Bytes.ofNumber width n)

/-- Bytes filled up to `width` with zeros on their most significant side. -/
def fill : ByteOrder → Nat → Bytes → Bytes
  | big, width, bytes => bytes.leftpad width 0
  | little, width, bytes => bytes.rightpad width 0

variable {order : ByteOrder} {width : Nat} {bytes : Bytes}

theorem length_arrange : (order.arrange bytes).length = bytes.length := by
  cases order with
  | big => rfl
  | little => exact List.length_reverse

theorem arrange_leftpad_arrange :
    order.arrange ((order.arrange bytes).leftpad width 0) = order.fill width bytes := by
  cases order with
  | big => rfl
  | little =>
    simp only [arrange, fill, List.leftpad, List.rightpad, List.reverse_append, List.reverse_reverse,
      List.reverse_replicate, List.length_reverse]

theorem fill_of_length_eq (h : bytes.length = width) : order.fill width bytes = bytes := by
  have none : width - bytes.length = 0 := by omega
  cases order with
  | big => rw [fill, List.leftpad, none, List.replicate_zero, List.nil_append]
  | little => rw [fill, List.rightpad, none, List.replicate_zero, List.append_nil]

end ByteOrder

/-! ## Integers in 64 bits -/

/-- One more byte, while the bytes before it leave room for it. -/
theorem toNat_shiftLeft_or {sum : UInt64} (room : sum.toNat < 2 ^ 56) (b : UInt8) :
    ((sum <<< 8) ||| b.toUInt64).toNat = sum.toNat * 256 + b.toNat := by
  have hb : b.toNat < 2 ^ 8 := b.toNat_lt
  have fits : sum.toNat <<< 8 < 2 ^ 64 := by
    rw [Nat.shiftLeft_eq]
    omega
  rw [UInt64.toNat_or, UInt64.toNat_shiftLeft, UInt8.toNat_toUInt64]
  show sum.toNat <<< 8 % 2 ^ 64 ||| b.toNat = _
  rw [Nat.mod_eq_of_lt fits, ← Nat.shiftLeft_add_eq_or_of_lt hb, Nat.shiftLeft_eq]

/-- After `done` bytes, as many as eight leave are shifted in without loss. -/
theorem toNat_foldl_shiftLeft_or {bytes : Bytes} {sum : UInt64} {done : Nat} (room : sum.toNat < 256 ^ done)
    (h : done + bytes.length ≤ 8) :
    UInt64.toNat (bytes.foldl (fun sum b => (sum <<< 8) ||| b.toUInt64) sum) =
      Bytes.numberFrom sum.toNat bytes := by
  induction bytes generalizing sum done with
  | nil => rfl
  | cons b bytes ih =>
    rw [List.length_cons] at h
    -- Before the last of eight bytes is shifted in, the seven before it leave the upper byte free.
    have small : sum.toNat < 2 ^ 56 := by
      calc sum.toNat < 256 ^ done := room
        _ ≤ 256 ^ 7 := Nat.pow_le_pow_right (by decide) (by omega)
        _ = 2 ^ 56 := by decide
    have step := toNat_shiftLeft_or small b
    have hb := b.toNat_lt
    have room' : ((sum <<< 8) ||| b.toUInt64).toNat < 256 ^ (done + 1) := by
      rw [step, Nat.pow_succ]
      omega
    rw [List.foldl_cons, ih room' (by omega), step]
    rfl

theorem toNat_gatherInteger_big {bytes : Bytes} (h : bytes.length ≤ 8) :
    (gatherInteger .big bytes).toNat = Bytes.number bytes := by
  have none : (0 : UInt64).toNat < 256 ^ 0 := by decide
  have all : 0 + bytes.length ≤ 8 := by omega
  exact toNat_foldl_shiftLeft_or none all

theorem gatherInteger_little (bytes : Bytes) :
    gatherInteger .little bytes = gatherInteger .big bytes.reverse := rfl

section Gathering

variable {width : Nat} {order : ByteOrder} {bytes : Bytes}

/-- Up to eight bytes are gathered without loss, in either order. -/
theorem toNat_gatherInteger (h : bytes.length ≤ 8) :
    (gatherInteger order bytes).toNat = Bytes.number (order.arrange bytes) := by
  cases order with
  | big => exact toNat_gatherInteger_big h
  | little =>
    rw [gatherInteger_little]
    exact toNat_gatherInteger_big (bytes.length_reverse ▸ h)

/-- What up to eight bytes make fits into as many bytes. -/
theorem toNat_gatherInteger_lt (fits : bytes.length ≤ width) (short : width ≤ 8) :
    (gatherInteger order bytes).toNat < 256 ^ width := by
  have arranged : (order.arrange bytes).length = bytes.length := ByteOrder.length_arrange
  calc (gatherInteger order bytes).toNat = Bytes.number (order.arrange bytes) :=
        toNat_gatherInteger (Nat.le_trans fits short)
    _ < 256 ^ (order.arrange bytes).length := Bytes.number_lt _
    _ ≤ 256 ^ width := Nat.pow_le_pow_right (by decide) (arranged ▸ fits)

/-- A gathered integer is spread over the bytes that made it, filled up with zeros. -/
theorem spread_gatherInteger (fits : bytes.length ≤ width) (short : width ≤ 8) :
    order.spread width (gatherInteger order bytes).toNat = order.fill width bytes := by
  have arranged : (order.arrange bytes).length ≤ width := by
    rw [ByteOrder.length_arrange]
    exact fits
  rw [toNat_gatherInteger (Nat.le_trans fits short), ByteOrder.spread, Bytes.ofNumber_number arranged,
    ByteOrder.arrange_leftpad_arrange]

end Gathering

/-! ## Groups -/

section Groups

variable {width count : Nat} {bytes group : Bytes}

theorem length_groupsOf : (groupsOf width count bytes).length = count := by
  induction count generalizing bytes with
  | zero => rfl
  | succ count ih => rw [groupsOf, List.length_cons, ih]

theorem length_of_mem_groupsOf (filled : count * width ≤ bytes.length)
    (h : group ∈ groupsOf width count bytes) : group.length = width := by
  induction count generalizing bytes with
  | zero => exact absurd h List.not_mem_nil
  | succ count ih =>
    rw [Nat.succ_mul] at filled
    rcases List.mem_cons.mp h with rfl | later
    · exact List.length_take_of_le (by omega)
    · exact ih (by rw [List.length_drop]; omega) later

theorem flatten_groupsOf : (groupsOf width count bytes).flatten = bytes.take (count * width) := by
  induction count generalizing bytes with
  | zero => rw [Nat.zero_mul, List.take_zero, groupsOf, List.flatten_nil]
  | succ count ih => rw [groupsOf, List.flatten_cons, ih, Nat.succ_mul, Nat.add_comm, List.take_add]

theorem length_le_of_mem_groupsOf (h : group ∈ groupsOf width count bytes) : group.length ≤ width := by
  induction count generalizing bytes with
  | zero => exact absurd h List.not_mem_nil
  | succ count ih =>
    rcases List.mem_cons.mp h with rfl | later
    · exact List.length_take_le width bytes
    · exact ih later

end Groups

/-! ## Literals read as integers -/

/-- The number that a literal of `width` bytes writes. -/
def readLiteral? (width : Nat) (literal : String) : Option Nat :=
  match literal.toList with
  | '0' :: 'x' :: digits => if digits.length = 2 * width then readHexNumber? digits else none
  | _ => none

/-- The bytes that literals of `width` bytes write, one literal after another. -/
def readIntegers? (width : Nat) (order : ByteOrder) : List String → Option Bytes
  | [] => some []
  | literal :: rest => do
    let n ← readLiteral? width literal
    let tail ← readIntegers? width order rest
    some (order.spread width n ++ tail)

section Reading

variable {width : Nat} {order : ByteOrder} {bytes : Bytes}

theorem readLiteral?_hexLiteral {value : Nat} (pos : 0 < width) (fits : value < 256 ^ width) :
    readLiteral? width (hexLiteral width value) = some value := by
  simp only [readLiteral?, toList_hexLiteral]
  rw [if_pos ((length_hexDigits_eq_iff pos).mpr fits), readHexNumber?_hexDigits]

/-- The literals of groups read back to the groups, each filled up with zeros. -/
theorem readIntegers?_map (pos : 0 < width) (short : width ≤ 8) {groups : List Bytes}
    (fits : ∀ group ∈ groups, group.length ≤ width) :
    readIntegers? width order (groups.map fun group => hexLiteral width (gatherInteger order group).toNat) =
      some (groups.flatMap (order.fill width)) := by
  induction groups with
  | nil => rfl
  | cons group groups ih =>
    obtain ⟨head, tail⟩ := List.forall_mem_cons.mp fits
    have small : (gatherInteger order group).toNat < 256 ^ width := toNat_gatherInteger_lt head short
    rw [List.map_cons, readIntegers?, readLiteral?_hexLiteral pos small, ih tail, List.flatMap_cons,
      ← spread_gatherInteger head short]
    rfl

/-- What the literals of integers read back to: the full groups of the bytes, or all bytes filled up where no
group is full. -/
theorem readIntegers?_integerLiterals (pos : 0 < width) (short : width ≤ 8) :
    readIntegers? width order (integerLiterals width order bytes) =
      some (if bytes.length < width then order.fill width bytes
        else bytes.take (bytes.length - bytes.length % width)) := by
  unfold integerLiterals
  split
  next few =>
    have fits : ∀ group ∈ [bytes], group.length ≤ width := by
      simpa using Nat.le_of_lt few
    rw [readIntegers?_map pos short fits, List.flatMap_singleton]
  next =>
    have filled : bytes.length / width * width ≤ bytes.length := Nat.div_mul_le_self _ _
    have whole : ∀ group ∈ groupsOf width (bytes.length / width) bytes, group.length = width :=
      fun group mem => length_of_mem_groupsOf filled mem
    have same : (groupsOf width (bytes.length / width) bytes).map (order.fill width) =
        groupsOf width (bytes.length / width) bytes := by
      refine (List.map_congr_left fun group mem => ?_).trans (List.map_id _)
      exact ByteOrder.fill_of_length_eq (whole group mem)
    rw [readIntegers?_map pos short fun group mem => Nat.le_of_eq (whole group mem), List.flatMap_def, same,
      flatten_groupsOf, Nat.div_mul_self_eq_mod_sub_self]

theorem length_integerLiterals :
    (integerLiterals width order bytes).length = if bytes.length < width then 1 else bytes.length / width := by
  unfold integerLiterals
  rw [List.length_map]
  split
  · rfl
  · exact length_groupsOf

/-- Integer literals all have two digits for each byte of the width, whatever the bytes are. -/
theorem length_of_mem_integerLiterals (pos : 0 < width) (short : width ≤ 8) {literal : String}
    (h : literal ∈ integerLiterals width order bytes) : literal.length = 2 + 2 * width := by
  obtain ⟨group, mem, rfl⟩ := List.mem_map.mp h
  have fits : group.length ≤ width := by
    split at mem
    next few =>
      obtain rfl := List.mem_singleton.mp mem
      exact Nat.le_of_lt few
    next => exact length_le_of_mem_groupsOf mem
  exact (length_hexLiteral_eq_iff pos).mpr (toNat_gatherInteger_lt fits short)

theorem exists_hexDigits_of_mem_integerLiterals (pos : 0 < width) (short : width ≤ 8) {literal : String}
    (h : literal ∈ integerLiterals width order bytes) :
    ∃ digits, literal.toList = '0' :: 'x' :: digits ∧ digits.length = 2 * width ∧
      ∀ c ∈ digits, isLowerHexDigit c = true := by
  have length := length_of_mem_integerLiterals pos short h
  obtain ⟨group, -, rfl⟩ := List.mem_map.mp h
  refine ⟨_, toList_hexLiteral width _, ?_, fun c => isLowerHexDigit_of_mem_hexDigits⟩
  exact (length_hexDigits_eq_iff pos).mpr ((length_hexLiteral_eq_iff pos).mp length)

end Reading

/-- Integers of one to eight bytes have a literal for each full group, or one literal where no group is full,
each with two lower-case digits for every byte. Read back they give the bytes of the full groups, or all bytes
filled up with zeros. And a number of any size has its digits, more than two for every byte exactly if it
does not fit into so many bytes. -/
theorem ArgumentCodec.integers_faithful {width : Nat} (pos : 1 ≤ width) (short : width ≤ 8) :
    (∀ (order : ByteOrder) (bytes : Bytes), ∃ literals,
      ArgumentCodec.decode (.integers width order) bytes = .ok literals ∧
      (∀ literal ∈ literals, ∃ digits, literal.toList = '0' :: 'x' :: digits ∧ digits.length = 2 * width ∧
        ∀ c ∈ digits, isLowerHexDigit c = true) ∧
      (width ≤ bytes.length → literals.length = bytes.length / width ∧
        readIntegers? width order literals = some (bytes.take (bytes.length - bytes.length % width))) ∧
      (bytes.length < width → literals.length = 1 ∧
        readIntegers? width order literals = some (order.fill width bytes))) ∧
    ∀ value : Nat, ∃ digits, (hexLiteral width value).toList = '0' :: 'x' :: digits ∧
      (∀ c ∈ digits, isLowerHexDigit c = true) ∧ readHexNumber? digits = some value ∧
      (value < 256 ^ width → digits.length = 2 * width) ∧
      (256 ^ width ≤ value → 2 * width < digits.length) := by
  constructor
  · intro order bytes
    have decoded : ArgumentCodec.decode (.integers width order) bytes =
        .ok (integerLiterals width order bytes) := by
      obtain ⟨width, rfl⟩ := Nat.exists_eq_succ_of_ne_zero (Nat.ne_of_gt pos)
      rfl
    refine ⟨_, decoded, fun literal => exists_hexDigits_of_mem_integerLiterals pos short,
      fun full => ?_, fun few => ?_⟩
    · rw [length_integerLiterals, readIntegers?_integerLiterals pos short, if_neg (Nat.not_lt.mpr full),
        if_neg (Nat.not_lt.mpr full)]
      exact ⟨rfl, rfl⟩
    · rw [length_integerLiterals, readIntegers?_integerLiterals pos short, if_pos few, if_pos few]
      exact ⟨rfl, rfl⟩
  · intro value
    have exact_iff : (hexDigits width value).length = 2 * width ↔ value < 256 ^ width :=
      length_hexDigits_eq_iff pos
    have least := le_length_hexDigits width value
    refine ⟨_, toList_hexLiteral width value, fun c => isLowerHexDigit_of_mem_hexDigits,
      readHexNumber?_hexDigits width value, exact_iff.mpr, fun large => ?_⟩
    exact Nat.lt_of_le_of_ne least fun same => absurd (exact_iff.mp same.symm) (Nat.not_lt.mpr large)

/-- Of five bytes only the first three fill an integer of three, a single byte is written as the least
significant one of an integer, and a number of four bytes has more digits than its width asks for. -/
theorem ArgumentCodec.integers_faithful_three :
    ArgumentCodec.decode (.integers 3 .little) [1, 2, 3, 4, 5] = .ok ["0x030201"] ∧
    readIntegers? 3 .little ["0x030201"] = some [1, 2, 3] ∧
    ArgumentCodec.decode (.integers 3 .big) [0xff] = .ok ["0x0000ff"] ∧
    readIntegers? 3 .big ["0x0000ff"] = some [0, 0, 0xff] ∧
    ∃ digits, (hexLiteral 3 0x1000000).toList = '0' :: 'x' :: digits ∧ 6 < digits.length := by
  obtain ⟨made, written⟩ := ArgumentCodec.integers_faithful (by decide : 1 ≤ 3) (by decide)
  have five : ArgumentCodec.decode (.integers 3 .little) [1, 2, 3, 4, 5] = .ok ["0x030201"] := by decide
  have single : ArgumentCodec.decode (.integers 3 .big) [0xff] = .ok ["0x0000ff"] := by decide
  refine ⟨five, ?_, single, ?_, ?_⟩
  · obtain ⟨literals, decoded, -, full, -⟩ := made .little [1, 2, 3, 4, 5]
    cases five.symm.trans decoded
    exact (full (by decide)).2
  · obtain ⟨literals, decoded, -, -, few⟩ := made .big [0xff]
    cases single.symm.trans decoded
    exact (few (by decide)).2
  · obtain ⟨digits, spelled, -, -, -, large⟩ := written 0x1000000
    exact ⟨digits, spelled, large (by decide)⟩

end DsiPanel
