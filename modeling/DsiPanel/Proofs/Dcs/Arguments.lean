import DsiPanel.Dcs.Command
import DsiPanel.Proofs.Dcs.Integers

/-!
# The arguments of commands

The codecs by themselves can fail on bytes that are missing and leave out bytes that do not fill an integer.
Neither happens to a command: beside each codec the table has an arity that gives it what it needs
(`DcsCommand.whole_integers`), and the only arguments without literals are those of a tear mode
(`DcsCommand.decode_error_iff`).

So the literals of a command read back to its argument bytes (`DcsCommand.readBack?_decode`), and a helper is
called with as many values as it has parameters (`DcsCommand.length_decode_of_helper`). One row lets two counts
through: a brightness of one byte and one of two bytes whose upper byte is zero have the same literal
(`decode_determines`).
-/

namespace DsiPanel

/-! ## The command table -/

/-- A codec stands beside an arity that gives it one whole integer or more, or one byte for a tear mode. The
brightness alone takes one byte or two for one integer. -/
theorem DcsCommand.codec_cases (c : DcsCommand) :
    c.codec = .bytes ∨
    (∃ order count, c.codec = .integers 2 order ∧ c.arity = .oneOf [2 * (count + 1)]) ∨
    (c.codec = .tearMode ∧ c.arity = .oneOf [1]) ∨
    c = .setDisplayBrightness := by
  cases c with
  | setColumnAddress | setPageAddress => exact .inr (.inl ⟨_, 1, rfl, rfl⟩)
  | setTearScanline => exact .inr (.inl ⟨_, 0, rfl, rfl⟩)
  | setTearOn => exact .inr (.inr (.inl ⟨rfl, rfl⟩))
  | setDisplayBrightness => exact .inr (.inr (.inr rfl))
  | _ => exact .inl rfl

theorem Arity.accepts_singleton {count n : Nat} : (Arity.oneOf [count]).accepts n = true ↔ n = count := by
  simp [Arity.accepts]

/-- A byte has a name as a tear mode only if it is zero or one. -/
theorem tearMode_decode_cases {bytes : Bytes} (h : bytes.length = 1) {literals : List String}
    (decoded : ArgumentCodec.decode .tearMode bytes = .ok literals) :
    bytes = [0] ∧ literals = [TearMode.vertical.identifier] ∨
      bytes = [1] ∧ literals = [TearMode.verticalAndHorizontal.identifier] := by
  obtain ⟨b, rfl⟩ := List.length_eq_one_iff.mp h
  by_cases zero : b = 0
  · subst zero
    cases decoded
    exact .inl ⟨rfl, rfl⟩
  · by_cases one : b = 1
    · subst one
      cases decoded
      exact .inr ⟨rfl, rfl⟩
    · simp [ArgumentCodec.decode, TearMode.ofByte?, zero, one] at decoded

/-! ## The arguments that an arity lets through -/

theorem TearMode.ofByte?_eq_none_iff {b : UInt8} : ofByte? b = none ↔ 2 ≤ b := by
  have zero : b = 0 ↔ b.toNat = 0 := UInt8.toNat_inj.symm
  have one : b = 1 ↔ b.toNat = 1 := UInt8.toNat_inj.symm
  have two : 2 ≤ b ↔ 2 ≤ b.toNat := UInt8.le_iff_toNat_le
  simp only [ofByte?, zero, one, two]
  split
  next => exact iff_of_false (Option.some_ne_none _) (by omega)
  next =>
    split
    next => exact iff_of_false (Option.some_ne_none _) (by omega)
    next => exact iff_of_true rfl (by omega)

namespace DcsCommand

variable {c : DcsCommand} {arguments : Bytes}

theorem codec_eq_tearMode_iff : c.codec = .tearMode ↔ c = .setTearOn := by
  cases c <;> decide

theorem accepts_brightness {count : Nat} (h : setDisplayBrightness.arity.accepts count = true) :
    count = 1 ∨ count = 2 := by
  simpa [arity, row, Arity.accepts] using h

/-- No bytes of a partial integer are left out. -/
theorem whole_integers (fits : c.arity.accepts arguments.length = true) {width : Nat} {order : ByteOrder}
    (integers : c.codec = .integers width order) :
    width = 2 ∧ (2 ∣ arguments.length ∧ 2 ≤ arguments.length ∨
      c = .setDisplayBrightness ∧ order = .little ∧ arguments.length = 1) := by
  rcases c.codec_cases with codec | ⟨_, count, codec, arity⟩ | ⟨codec, -⟩ | rfl
  · cases integers.symm.trans codec
  · cases integers.symm.trans codec
    rw [arity, Arity.accepts_singleton] at fits
    rw [fits]
    exact ⟨rfl, .inl ⟨Nat.dvd_mul_right 2 _, by omega⟩⟩
  · cases integers.symm.trans codec
  · cases integers
    rcases accepts_brightness fits with one | two
    · exact ⟨rfl, .inr ⟨rfl, rfl, one⟩⟩
    · exact ⟨rfl, .inl ⟨⟨1, two⟩, Nat.le_of_eq two.symm⟩⟩

/-- The only arguments without literals are those of the tear mode, which names two bytes alone. -/
theorem decode_error_iff (fits : c.arity.accepts arguments.length = true) {fault : ArgumentFault} :
    c.codec.decode arguments = .error fault ↔
      c = .setTearOn ∧ ∃ b, 2 ≤ b ∧ arguments = [b] ∧ fault = .invalidTearMode b := by
  by_cases tear : c = .setTearOn
  · subst tear
    obtain ⟨b, rfl⟩ := List.length_eq_one_iff.mp (Arity.accepts_singleton.mp fits)
    show ArgumentCodec.decode .tearMode [b] = .error fault ↔ _
    simp only [true_and, ← TearMode.ofByte?_eq_none_iff, List.cons.injEq, and_true, ArgumentCodec.decode]
    constructor
    · intro failed
      split at failed
      next => cases failed
      next unnamed =>
        cases failed
        exact ⟨b, unnamed, rfl, rfl⟩
    · rintro ⟨_, unnamed, rfl, rfl⟩
      rw [unnamed]
  · refine iff_of_false (fun failed => ?_) fun told => tear told.1
    cases codec : c.codec with
    | bytes =>
      rw [codec] at failed
      cases failed
    | integers width order =>
      obtain ⟨rfl, -⟩ := whole_integers fits codec
      rw [codec] at failed
      cases failed
    | tearMode => exact tear (codec_eq_tearMode_iff.mp codec)

/-- Arguments of a count that is taken have literals, but for a tear mode that is neither zero nor one. -/
theorem exists_decode_iff (fits : c.arity.accepts arguments.length = true) :
    (∃ literals, c.codec.decode arguments = .ok literals) ↔
      (c = .setTearOn → arguments = [0] ∨ arguments = [1]) := by
  constructor
  · rintro ⟨literals, decoded⟩ rfl
    have single := Arity.accepts_singleton.mp fits
    exact (tearMode_decode_cases single decoded).imp And.left And.left
  · intro named
    cases decoded : c.codec.decode arguments with
    | ok literals => exact ⟨literals, rfl⟩
    | error fault =>
      obtain ⟨tear, b, large, rfl, -⟩ := (decode_error_iff fits).mp decoded
      rcases named tear with zero | one
      · cases zero
        exact absurd large (by decide)
      · cases one
        exact absurd large (by decide)

end DcsCommand

/-! ## Literals read back -/

/-- The byte that the name of a tear mode stands for. -/
def readTearMode? (name : String) : Option UInt8 :=
  if name = TearMode.vertical.identifier then some 0
  else if name = TearMode.verticalAndHorizontal.identifier then some 1
  else none

/-- The bytes that literals write in the width and order of a codec. -/
def ArgumentCodec.readBack? : ArgumentCodec → List String → Option Bytes
  | bytes, literals => readIntegers? 1 .big literals
  | integers width order, literals => readIntegers? width order literals
  | tearMode, [name] => (readTearMode? name).map fun value => [value]
  | tearMode, _ => none

namespace DcsCommand

/-- The bytes that the literals of a command write: its arguments, but a brightness of one byte counts as
followed by a zero byte. -/
def writtenArguments (c : DcsCommand) (arguments : Bytes) : Bytes :=
  if c = .setDisplayBrightness ∧ arguments.length = 1 then arguments ++ [0] else arguments

/-- How many values the helper of a command is called with besides the device. -/
def helperArguments : DcsCommand → Nat
  | setColumnAddress | setPageAddress => 2
  | setTearOn | setPixelFormat | setTearScanline | setDisplayBrightness => 1
  | _ => 0

end DcsCommand

theorem readBack?_byteLiterals (bytes : Bytes) :
    ArgumentCodec.readBack? .bytes (byteLiterals bytes) = some bytes := by
  have single (b : UInt8) : byteLiteral b = hexLiteral 1 (gatherInteger .big [b]).toNat := by
    have number : Bytes.number [b] = b.toNat := by simp [Bytes.number, Bytes.numberFrom]
    rw [toNat_gatherInteger_big (by simp), number, byteLiteral]
  have groups : byteLiterals bytes =
      (bytes.map fun b => [b]).map fun group => hexLiteral 1 (gatherInteger .big group).toNat := by
    rw [byteLiterals, List.map_map]
    exact List.map_congr_left fun b _ => single b
  have fits : ∀ group ∈ bytes.map fun b => [b], group.length ≤ 1 := by simp
  have filled (b : UInt8) : ByteOrder.big.fill 1 [b] = [b] := ByteOrder.fill_of_length_eq rfl
  rw [groups, ArgumentCodec.readBack?, readIntegers?_map (by decide) (by decide) fits, List.flatMap_map]
  simp only [filled, List.flatMap_singleton']

namespace DcsCommand

variable {c : DcsCommand} {arguments : Bytes} {literals : List String}

/-- The literals of a command read back to its arguments, and none is lost. -/
theorem readBack?_decode (fits : c.arity.accepts arguments.length = true)
    (decoded : c.codec.decode arguments = .ok literals) :
    c.codec.readBack? literals = some (c.writtenArguments arguments) := by
  cases codec : c.codec with
  | bytes =>
    have plain : c.writtenArguments arguments = arguments := by
      refine if_neg ?_
      rintro ⟨rfl, -⟩
      cases codec
    rw [codec] at decoded
    cases decoded
    rw [plain]
    exact readBack?_byteLiterals arguments
  | tearMode =>
    obtain rfl := codec_eq_tearMode_iff.mp codec
    have single := Arity.accepts_singleton.mp fits
    rcases tearMode_decode_cases single decoded with ⟨rfl, rfl⟩ | ⟨rfl, rfl⟩ <;> rfl
  | integers width order =>
    obtain ⟨rfl, whole⟩ := whole_integers fits codec
    rw [codec] at decoded
    cases decoded
    rw [ArgumentCodec.readBack?, readIntegers?_integerLiterals (by decide) (by decide)]
    rcases whole with ⟨even, full⟩ | ⟨rfl, rfl, single⟩
    · have plain : c.writtenArguments arguments = arguments := by
        refine if_neg ?_
        rintro ⟨-, single⟩
        omega
      rw [if_neg (Nat.not_lt.mpr full), Nat.mod_eq_zero_of_dvd even, Nat.sub_zero, List.take_length, plain]
    · obtain ⟨b, rfl⟩ := List.length_eq_one_iff.mp single
      rfl

/-- Beside a helper the arity gives the codec the bytes of as many values as the helper takes. The brightness
alone may give a byte less. -/
theorem helper_cases (helper : c.helper? ≠ none) :
    c.codec = .bytes ∧ c.arity = .oneOf [c.helperArguments] ∨
    (∃ order, c.codec = .integers 2 order ∧ c.arity = .oneOf [2 * c.helperArguments]) ∨
    c = .setTearOn ∨ c = .setDisplayBrightness := by
  cases c with
  | nop | softReset | enterSleepMode | exitSleepMode | setDisplayOff | setDisplayOn | setTearOff
  | setPixelFormat => exact .inl ⟨rfl, rfl⟩
  | setColumnAddress | setPageAddress | setTearScanline => exact .inr (.inl ⟨_, rfl, rfl⟩)
  | setTearOn => exact .inr (.inr (.inl rfl))
  | setDisplayBrightness => exact .inr (.inr (.inr rfl))
  | _ => exact absurd rfl helper

/-- A helper is called with as many values as it takes. -/
theorem length_decode_of_helper (fits : c.arity.accepts arguments.length = true)
    (decoded : c.codec.decode arguments = .ok literals) (helper : c.helper? ≠ none) :
    literals.length = c.helperArguments := by
  rcases helper_cases helper with ⟨codec, arity⟩ | ⟨order, codec, arity⟩ | rfl | rfl
  · rw [codec] at decoded
    rw [arity, Arity.accepts_singleton] at fits
    cases decoded
    rw [byteLiterals, List.length_map, fits]
  · obtain ⟨-, whole⟩ := whole_integers fits codec
    rw [codec] at decoded
    rw [arity, Arity.accepts_singleton] at fits
    cases decoded
    rw [length_integerLiterals, if_neg (by omega)]
    omega
  · have single := Arity.accepts_singleton.mp fits
    rcases tearMode_decode_cases single decoded with ⟨-, rfl⟩ | ⟨-, rfl⟩ <;> rfl
  · cases decoded
    rw [length_integerLiterals]
    rcases accepts_brightness fits with one | two
    · rw [one]
      rfl
    · rw [two]
      rfl

end DcsCommand

/-- The brightness of one byte is written as that of two whose upper byte is zero. -/
theorem brightness_literals (x : UInt8) :
    integerLiterals 2 .little [x] = integerLiterals 2 .little [x, 0] := by
  have short : (gatherInteger .little [x]).toNat = x.toNat := by
    rw [gatherInteger_little, toNat_gatherInteger_big (by simp)]
    simp [Bytes.number, Bytes.numberFrom]
  have long : (gatherInteger .little [x, 0]).toNat = x.toNat := by
    rw [gatherInteger_little, toNat_gatherInteger_big (by simp)]
    simp [Bytes.number, Bytes.numberFrom]
  simp [integerLiterals, groupsOf, short, long]

/-- The literals of a command determine the argument bytes that its arity lets through, but for the
upper byte of a brightness. -/
theorem decode_determines {c : DcsCommand} {as bs : Bytes} (ha : c.arity.accepts as.length = true)
    (hb : c.arity.accepts bs.length = true) {literals : List String}
    (da : c.codec.decode as = .ok literals) (db : c.codec.decode bs = .ok literals) :
    as = bs ∨ c = .setDisplayBrightness ∧
      ∃ x, as = [x] ∧ bs = [x, 0] ∨ as = [x, 0] ∧ bs = [x] := by
  have written : c.writtenArguments as = c.writtenArguments bs :=
    Option.some.inj ((DcsCommand.readBack?_decode ha da).symm.trans (DcsCommand.readBack?_decode hb db))
  by_cases brightness : c = .setDisplayBrightness
  · subst brightness
    -- The arity lets two counts through, and they meet each other only in the exception.
    rcases DcsCommand.accepts_brightness ha with one | two <;>
      rcases DcsCommand.accepts_brightness hb with one' | two'
    · obtain ⟨x, rfl⟩ := List.length_eq_one_iff.mp one
      obtain ⟨y, rfl⟩ := List.length_eq_one_iff.mp one'
      cases written
      exact .inl rfl
    · obtain ⟨x, rfl⟩ := List.length_eq_one_iff.mp one
      obtain ⟨low, high, rfl⟩ := List.length_eq_two.mp two'
      cases written
      exact .inr ⟨rfl, x, .inl ⟨rfl, rfl⟩⟩
    · obtain ⟨low, high, rfl⟩ := List.length_eq_two.mp two
      obtain ⟨x, rfl⟩ := List.length_eq_one_iff.mp one'
      cases written
      exact .inr ⟨rfl, _, .inr ⟨rfl, rfl⟩⟩
    · obtain ⟨low, high, rfl⟩ := List.length_eq_two.mp two
      obtain ⟨low', high', rfl⟩ := List.length_eq_two.mp two'
      cases written
      exact .inl rfl
  · have plain (arguments : Bytes) : c.writtenArguments arguments = arguments :=
      if_neg fun held => brightness held.1
    rw [plain, plain] at written
    exact .inl written

end DsiPanel
