import DsiPanel.CommandLine.HexDump
import DsiPanel.Proofs.Text.Literal
import DsiPanel.Proofs.Text.Spaced

/-!
# What a dump reads

A dump is read in two steps, and each has its law. Digits that spell bytes, in either case, are read as
these bytes (`SpellsBytes.readHex_eq`). And what a text gives to the reader are the digits of its tokens,
one token after another, whatever run of separators stands between them (`Spaced.tokenDigits_eq`).

So a list of byte literals reads back to the bytes, on one line or on many
(`readDump_of_literals`): the commas and the blanks are separators, and of each literal the two digits
behind the mark are left.
-/

namespace DsiPanel

/-! ## Digits -/

/-- The characters are digits in either case, two for each byte, the high one first. -/
inductive SpellsBytes : List Char → Bytes → Prop
  | nil : SpellsBytes [] []
  | cons {high low : Char} {b : UInt8} {digits : List Char} {bytes : Bytes}
      (upper : hexDigit? high = some (b.toNat / 16)) (lower : hexDigit? low = some (b.toNat % 16))
      (rest : SpellsBytes digits bytes) : SpellsBytes (high :: low :: digits) (b :: bytes)

/-- A digit is stored as one byte, which has its value. -/
theorem utf8EncodeChar_of_hexDigit? {c : Char} {d : Nat} (h : hexDigit? c = some d) :
    ∃ v : UInt8, String.utf8EncodeChar c = [c.toNat.toUInt8] ∧ hexValue? c.toNat.toUInt8 = some v ∧
      v.toNat = d := by
  unfold hexDigit? at h
  split at h
  next small =>
    obtain ⟨v, value, number⟩ := Option.map_eq_some_iff.mp h
    have one : c.utf8Size = 1 := Char.utf8Size_eq_one_iff.mpr (Nat.le_of_lt_succ small)
    exact ⟨v, String.utf8EncodeChar_eq_singleton one, value, number⟩
  next => contradiction

/-- Digits that spell bytes are read as them. -/
theorem SpellsBytes.readHex_eq {digits : List Char} {bytes : Bytes} (h : SpellsBytes digits bytes) :
    readHex (encodeUtf8 (String.ofList digits)) = .ok bytes := by
  have general : (digits.flatMap String.utf8EncodeChar).length % 2 = 0 ∧
      ∀ position, readHexPairs position (digits.flatMap String.utf8EncodeChar) = .ok bytes := by
    induction h with
    | nil => exact ⟨rfl, fun _ => rfl⟩
    | @cons high low b digits bytes upper lower _ ih =>
      obtain ⟨even, read⟩ := ih
      obtain ⟨h, storedHigh, valueHigh, numberHigh⟩ := utf8EncodeChar_of_hexDigit? upper
      obtain ⟨l, storedLow, valueLow, numberLow⟩ := utf8EncodeChar_of_hexDigit? lower
      have whole : h * 16 + l = b := by
        have sum : (h * 16 + l).toNat = (h.toNat * 16 % 256 + l.toNat) % 256 := by
          rw [UInt8.toNat_add, UInt8.toNat_mul]
          rfl
        have small := b.toNat_lt
        apply UInt8.toNat_inj.mp
        rw [sum, numberHigh, numberLow]
        omega
      rw [List.flatMap_cons, List.flatMap_cons, storedHigh, storedLow]
      refine ⟨?_, fun position => ?_⟩
      · simp only [List.length_append, List.length_singleton]
        omega
      · simp only [List.cons_append, List.nil_append, readHexPairs, valueHigh, valueLow, read, whole]
        rfl
  rw [encodeUtf8_eq_flatMap, String.toList_ofList, readHex, if_neg (by omega)]
  exact general.2 0

theorem spellsBytes_hexPair (bytes : Bytes) : SpellsBytes (bytes.flatMap hexPair) bytes := by
  induction bytes with
  | nil => exact .nil
  | cons b bytes ih =>
    have small := b.toNat_lt
    exact .cons (hexDigit?_digitChar _ (by omega)) (hexDigit?_digitChar _ (by omega)) ih

/-! ## Tokens -/

/-- The digits of the tokens of a text, one after another. -/
def tokenDigits (cs : List Char) : List Char := (cs.splitOnP isDumpSeparator).flatMap dropMarks

theorem dumpDigits_eq (dump : String) : dumpDigits dump = tokenDigits dump.toList := rfl

theorem tokenDigits_append_cons {c : Char} (separator : isDumpSeparator c = true) (cs ds : List Char) :
    tokenDigits (cs ++ c :: ds) = tokenDigits cs ++ tokenDigits ds := by
  rw [tokenDigits, List.splitOnP_append_cons cs ds separator, List.flatMap_append]
  rfl

/-- Not empty, and blanks and commas throughout. -/
def SeparatorRun (cs : List Char) : Prop := cs ≠ [] ∧ ∀ c ∈ cs, isBlank c = true ∨ c = ','

theorem isDumpSeparator_iff {c : Char} : isDumpSeparator c = true ↔ isBlank c = true ∨ c = ',' := by
  rw [isDumpSeparator, Bool.or_eq_true, decide_eq_true_iff]

theorem BlankRun.separatorRun {cs : List Char} (h : BlankRun cs) : SeparatorRun cs :=
  ⟨h.1, fun c mem => .inl (h.2 c mem)⟩

/-- A run of separators has no digits of its own, and none are put together across it. -/
theorem tokenDigits_append_run {between : List Char} (run : SeparatorRun between) (cs ds : List Char) :
    tokenDigits (cs ++ (between ++ ds)) = tokenDigits cs ++ tokenDigits ds := by
  obtain ⟨ne, separators⟩ := run
  induction between generalizing cs with
  | nil => exact absurd rfl ne
  | cons c between ih =>
    obtain ⟨first, others⟩ := List.forall_mem_cons.mp separators
    rw [List.cons_append, tokenDigits_append_cons (isDumpSeparator_iff.mpr first)]
    by_cases last : between = []
    · rw [last, List.nil_append]
    · exact congrArg (tokenDigits cs ++ ·) (ih [] last others)

/-- A text without separators is one token. -/
theorem tokenDigits_of_token {token : List Char} (clear : ∀ c ∈ token, isDumpSeparator c = false) :
    tokenDigits token = dropMarks token := by
  rw [tokenDigits, List.splitOnP_eq_singleton clear, List.flatMap_singleton]

/-- Between words that separators set off, no digits are put together. -/
theorem Spaced.tokenDigits_eq {words : List (List Char)} {text : List Char}
    (h : Spaced SeparatorRun words text) : tokenDigits text = words.flatMap tokenDigits := by
  induction h with
  | last word => rw [List.flatMap_singleton]
  | next word run _ ih => rw [tokenDigits_append_run run, ih, List.flatMap_cons]

/-! ## Byte literals -/

/-- A byte literal is the mark and the two digits of the byte. -/
theorem toList_byteLiteral (b : UInt8) : (byteLiteral b).toList = '0' :: 'x' :: hexPair b := by
  have small := b.toNat_lt
  have digits : (Nat.toDigits 16 b.toNat).leftpad 2 '0' = hexPair b := by
    by_cases single : b.toNat < 16
    · have zero : b.toNat / 16 = 0 := Nat.div_eq_of_lt single
      rw [Nat.toDigits_of_lt_base single, hexPair, zero, Nat.mod_eq_of_lt single]
      rfl
    · have pos : 0 < b.toNat / 16 := by omega
      have whole := Nat.toDigits_append_toDigits (by decide : 1 < 16) pos (Nat.mod_lt b.toNat (by decide))
      rw [Nat.div_add_mod, Nat.toDigits_of_lt_base (by omega), Nat.toDigits_of_lt_base (by omega)] at whole
      rw [← whole]
      rfl
  have mark : "0x".toList = ['0', 'x'] := rfl
  rw [byteLiteral, hexLiteral, digits, String.toList_append, mark, String.toList_ofList]
  rfl

/-- Of a byte literal the two digits are left, since the second of them is no further mark. -/
theorem tokenDigits_byteLiteral (b : UInt8) : tokenDigits (byteLiteral b).toList = hexPair b := by
  have clear : ∀ c ∈ (byteLiteral b).toList, isDumpSeparator c = false := by
    intro c mem
    have word := hexLiteral_isWord 1 b.toNat c mem
    have comma : c ≠ ',' := by
      rintro rfl
      exact absurd word (by decide)
    rw [isDumpSeparator, isBlank_of_isWordChar word, Bool.false_or, decide_eq_false_iff_not]
    exact comma
  have digit : ∀ d < 16, Nat.digitChar d ≠ 'x' := by decide
  rw [tokenDigits_of_token clear, toList_byteLiteral, dropMarks, hexPair, dropMarks]
  intro rest marked
  obtain ⟨-, tail⟩ := List.cons.inj marked
  exact absurd (List.cons.inj tail).1 (digit _ (Nat.mod_lt _ (by decide)))

/-- A text that gives the digits of byte literals reads back to the bytes. -/
theorem readDump_of_literals {dump : String} {bytes : Bytes}
    (h : tokenDigits dump.toList = (byteLiterals bytes).flatMap fun literal => tokenDigits literal.toList) :
    readDump dump = .ok bytes := by
  have pairs : (byteLiterals bytes).flatMap (fun literal => tokenDigits literal.toList) =
      bytes.flatMap hexPair := by
    simp only [byteLiterals, List.flatMap_map, tokenDigits_byteLiteral]
  rw [readDump, dumpDigits_eq, h, pairs]
  exact (spellsBytes_hexPair bytes).readHex_eq

end DsiPanel
