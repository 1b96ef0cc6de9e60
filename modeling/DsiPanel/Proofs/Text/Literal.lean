import DsiPanel.Text.Blank
import DsiPanel.Text.Hexadecimal
import Mathlib.Algebra.Group.Nat.Defs
import Mathlib.Data.List.Basic

/-!
# Names and literals

Every argument in the generated text is a name or a literal, and both are made of letters, digits
and underscores alone (`IsWord`): none of them holds a blank, a comma or a parenthesis. A literal in
hexadecimal digits reads back to the number it was made of (`readHexNumber?_hexLiteral`), whatever
it was padded to, so literals of one width tell numbers apart. It is as long as its width says exactly if
the number fits into as many bytes (`length_hexLiteral_eq_iff`).
-/

namespace DsiPanel

/-- What is asked of the characters of a list is decided along the list, never by going through all
characters. -/
instance (priority := 1100) decidableForallMem (p : Char → Prop) [DecidablePred p] (cs : List Char) :
    Decidable (∀ c ∈ cs, p c) := List.decidableBAll p cs

/-! ## Characters of names and literals -/

/-- A letter, a digit or the underscore. -/
def isWordChar (c : Char) : Bool := c.isAlphanum || c == '_'

/-- The text is made of letters, digits and underscores. -/
def IsWord (s : String) : Prop := ∀ c ∈ s.toList, isWordChar c = true

instance (s : String) : Decidable (IsWord s) := inferInstanceAs (Decidable (∀ c ∈ s.toList, _))

theorem isWordChar_iff {c : Char} : isWordChar c = true ↔
    65 ≤ c.toNat ∧ c.toNat ≤ 90 ∨ 97 ≤ c.toNat ∧ c.toNat ≤ 122 ∨ 48 ≤ c.toNat ∧ c.toNat ≤ 57 ∨
      c = '_' := by
  have upper : c.isUpper = true ↔ 65 ≤ c.toNat ∧ c.toNat ≤ 90 := by
    show decide (65 ≤ c.val ∧ c.val ≤ 90) = true ↔ _
    rw [decide_eq_true_iff]
    exact Iff.rfl
  have lower : c.isLower = true ↔ 97 ≤ c.toNat ∧ c.toNat ≤ 122 := by
    show (decide (97 ≤ c.val) && decide (c.val ≤ 122)) = true ↔ _
    rw [Bool.and_eq_true, decide_eq_true_iff, decide_eq_true_iff]
    exact Iff.rfl
  have digit : c.isDigit = true ↔ 48 ≤ c.toNat ∧ c.toNat ≤ 57 := Char.isDigit_iff_toNat
  show (((c.isUpper || c.isLower) || c.isDigit) || c == '_') = true ↔ _
  rw [Bool.or_eq_true, Bool.or_eq_true, Bool.or_eq_true, upper, lower, digit, beq_iff_eq, or_assoc,
    or_assoc]

/-- No blank belongs to a name or literal. -/
theorem isBlank_of_isWordChar {c : Char} (h : isWordChar c = true) : isBlank c = false := by
  rcases isWordChar_iff.mp h with upper | lower | digit | rfl
  · simp only [isBlank, Bool.or_eq_false_iff, Bool.and_eq_false_iff, decide_eq_false_iff_not,
      beq_eq_false_iff_ne]
    omega
  · simp only [isBlank, Bool.or_eq_false_iff, Bool.and_eq_false_iff, decide_eq_false_iff_not,
      beq_eq_false_iff_ne]
    omega
  · simp only [isBlank, Bool.or_eq_false_iff, Bool.and_eq_false_iff, decide_eq_false_iff_not,
      beq_eq_false_iff_ne]
    omega
  · decide

theorem toNat_lt_of_isWordChar {c : Char} (h : isWordChar c = true) : c.toNat < 128 := by
  rcases isWordChar_iff.mp h with upper | lower | digit | rfl
  · omega
  · omega
  · omega
  · decide

/-- A name in small letters is a name without capital letters. -/
theorem isWordChar_toLower {c : Char} (h : isWordChar c = true) :
    isWordChar c.toLower = true ∧ c.toLower.isUpper = false := by
  have all : ∀ n < 128, isWordChar (Char.ofNat n) = true →
      isWordChar (Char.ofNat n).toLower = true ∧ (Char.ofNat n).toLower.isUpper = false := by
    decide
  have own := all c.toNat (toNat_lt_of_isWordChar h)
  rw [Char.ofNat_toNat] at own
  exact own h

theorem IsWord.blankless {s : String} (h : IsWord s) : ∀ c ∈ s.toList, isBlank c = false :=
  fun c hc => isBlank_of_isWordChar (h c hc)

/-- A text that is spelled out is a name if it is spelled in such characters. -/
theorem isWord_ofList {cs : List Char} (h : ∀ c ∈ cs, isWordChar c = true) : IsWord (String.ofList cs) := by
  rwa [IsWord, String.toList_ofList]

/-- A character that is neither letter nor digit nor underscore stands in no name. -/
theorem IsWord.not_mem {s : String} (h : IsWord s) {c : Char} (hc : isWordChar c = false) :
    c ∉ s.toList := by
  intro mem
  rw [h c mem] at hc
  contradiction

/-! ## Digits -/

theorem hexDigit?_digitChar : ∀ d < 16, hexDigit? (Nat.digitChar d) = some d := by
  decide

/-- The digits and the mark of hexadecimal literals. -/
def hexAlphabet : List Char :=
  ['x', '0', '1', '2', '3', '4', '5', '6', '7', '8', '9', 'a', 'b', 'c', 'd', 'e', 'f']

theorem digitChar_mem_hexAlphabet : ∀ d < 16, Nat.digitChar d ∈ hexAlphabet := by
  decide

theorem exists_digitChar_of_mem_toDigits {n : Nat} {c : Char} (h : c ∈ Nat.toDigits 16 n) :
    ∃ d < 16, c = Nat.digitChar d := by
  induction n using Nat.base_induction 16 (by decide) with
  | single d small =>
    rw [Nat.toDigits_of_lt_base small, List.mem_singleton] at h
    exact ⟨d, small, h⟩
  | digit high low small pos ih =>
    rw [← Nat.toDigits_append_toDigits (by decide) pos small, List.mem_append,
      Nat.toDigits_of_lt_base small, List.mem_singleton] at h
    rcases h with h | rfl
    · exact ih h
    · exact ⟨low, small, rfl⟩

/-- A literal is made of digits and the mark alone. -/
theorem mem_hexLiteral {width value : Nat} {c : Char} (h : c ∈ (hexLiteral width value).toList) :
    c ∈ hexAlphabet := by
  simp only [hexLiteral, String.toList_append, String.toList_ofList, List.leftpad, List.mem_append,
    List.mem_replicate] at h
  rcases h with mark | ⟨_, rfl⟩ | digit
  · have marks : ∀ c ∈ ['0', 'x'], c ∈ hexAlphabet := by decide
    exact marks c mark
  · decide
  · obtain ⟨d, small, rfl⟩ := exists_digitChar_of_mem_toDigits digit
    exact digitChar_mem_hexAlphabet d small

theorem hexLiteral_isWord (width value : Nat) : IsWord (hexLiteral width value) := by
  intro c hc
  have all : ∀ c ∈ hexAlphabet, isWordChar c = true := by decide
  exact all c (mem_hexLiteral hc)

/-- A literal has two digits for each byte exactly if its number fits into as many bytes. -/
theorem length_hexLiteral_eq_iff {width value : Nat} (pos : 0 < width) :
    (hexLiteral width value).length = 2 + 2 * width ↔ value < 256 ^ width := by
  have digits : (hexLiteral width value).length = 2 + max (2 * width) (Nat.toDigits 16 value).length := by
    have mark : "0x".length = 2 := rfl
    rw [hexLiteral, String.length_append, mark, String.length_ofList, List.length_leftpad]
  have bytes : 256 ^ width = 16 ^ (2 * width) := (Nat.pow_mul 16 2 width).symm
  rw [digits, bytes, ← Nat.length_toDigits_le_iff (by decide) (by omega)]
  omega

/-! ## Reading literals back -/

/-- Digits go on with the number that the digits before them make. -/
theorem readHexNumber?_append {left right : List Char} :
    readHexNumber? (left ++ right) = (readHexNumber? left).bind fun n =>
      right.foldlM (fun sum c => (hexDigit? c).map fun d => sum * 16 + d) n := by
  simp only [readHexNumber?, List.foldlM_append]
  rfl

/-- The digits of a number read back to it. -/
theorem readHexNumber?_toDigits (n : Nat) : readHexNumber? (Nat.toDigits 16 n) = some n := by
  induction n using Nat.base_induction 16 (by decide) with
  | single d small =>
    rw [Nat.toDigits_of_lt_base small]
    simp [readHexNumber?, hexDigit?_digitChar d small]
  | digit high low small pos ih =>
    rw [← Nat.toDigits_append_toDigits (by decide) pos small, readHexNumber?_append, ih,
      Nat.toDigits_of_lt_base small]
    simp [hexDigit?_digitChar low small, Nat.mul_comm]

/-- A literal reads back to its number, whatever it was padded to. -/
theorem readHexNumber?_hexLiteral (width value : Nat) :
    readHexNumber? ((hexLiteral width value).toList.drop 2) = some value := by
  have zeros (count : Nat) : readHexNumber? (List.replicate count '0') = some 0 := by
    induction count with
    | zero => rfl
    | succ count ih =>
      rw [List.replicate_succ', readHexNumber?_append, ih]
      rfl
  have mark : (hexLiteral width value).toList.drop 2 =
      List.replicate (2 * width - (Nat.toDigits 16 value).length) '0' ++ Nat.toDigits 16 value := by
    simp only [hexLiteral, String.toList_append, String.toList_ofList, List.leftpad]
    rfl
  rw [mark, readHexNumber?_append, zeros]
  exact readHexNumber?_toDigits value

/-- Literals of one width tell numbers apart. -/
theorem hexLiteral_injective (width : Nat) : Function.Injective (hexLiteral width) := by
  intro a b h
  have ha := readHexNumber?_hexLiteral width a
  rw [h, readHexNumber?_hexLiteral] at ha
  exact (Option.some.inj ha).symm

theorem byteLiteral_injective : Function.Injective byteLiteral := by
  intro a b h
  exact UInt8.toNat_inj.mp (hexLiteral_injective 1 h)

theorem byteLiterals_injective : Function.Injective byteLiterals :=
  List.map_injective_iff.mpr byteLiteral_injective

theorem byteLiterals_isWord {bytes : Bytes} : ∀ literal ∈ byteLiterals bytes, IsWord literal := by
  intro literal h
  obtain ⟨b, _, rfl⟩ := List.mem_map.mp h
  exact hexLiteral_isWord 1 b.toNat

/-! ## Decimal numbers -/

theorem toString_injective : Function.Injective (toString : Nat → String) := by
  intro a b h
  have digits : Nat.toDigits 10 a = Nat.toDigits 10 b := by
    rw [← Nat.toList_repr, ← Nat.toList_repr]
    exact congrArg String.toList h
  rw [← Nat.ofDigitChars_ten_toDigits (n := a), digits, Nat.ofDigitChars_ten_toDigits]

theorem isDigit_of_mem_toString {n : Nat} {c : Char} (h : c ∈ (toString n).toList) :
    c.isDigit = true := by
  rw [Nat.toString_eq_repr, Nat.toList_repr] at h
  exact Nat.isDigit_of_mem_toDigits (by decide) (by decide) h

theorem toString_isWord (n : Nat) : IsWord (toString n) := by
  intro c hc
  simp only [isWordChar, Char.isAlphanum, isDigit_of_mem_toString hc, Bool.or_true, Bool.true_or]

end DsiPanel
