import DsiPanel.Proofs.CommandLine.Dumps
import DsiPanel.Proofs.Traversal

/-!
# Layouts of a dump

The same digits can be written down in many ways: in small letters or capitals, cut into tokens at any
places, with any blanks and commas between the tokens and marks in front of them. A layout is a list of
tokens (`DumpToken`) with runs of separators between neighbours; a token may be empty, so separators may also
stand at both ends.

**The law** (`readDump_layout`): a dump is read as some bytes exactly if it is a layout of their digits. So
the layout of a dump does not count, and nothing but a layout is ever read.

Half of it is that the reader takes the tokens apart as they were put together: a digit is never part of a
mark. The other half is that every text is a layout of something (`exists_tokens`), and that what is read as
bytes are the digits of these bytes (`readHex_eq_ok_iff`), which no character past the first 128 is.
-/

namespace DsiPanel

/-! ## Digits of bytes -/

/-- The character is the digit of value `d`, as a small or a capital letter from ten on. -/
def IsHexDigit (c : Char) (d : Nat) : Prop := d < 16 ∧ (c = d.digitChar ∨ c = d.digitChar.toUpper)

/-- The characters are the digits of the bytes in order, two for each byte and the high one first. -/
def WritesBytes (digits : List Char) (bytes : Bytes) : Prop :=
  List.Forall₂ IsHexDigit digits (bytes.flatMap fun b => [b.toNat / 16, b.toNat % 16])

theorem hexDigit?_eq_some_iff {c : Char} {d : Nat} : hexDigit? c = some d ↔ IsHexDigit c d := by
  have small : ∀ n < 128, ∀ d ∈ hexDigit? (Char.ofNat n), d < 16 ∧
      (Char.ofNat n = d.digitChar ∨ Char.ofNat n = d.digitChar.toUpper) := by decide
  have capital : ∀ d < 16, hexDigit? d.digitChar.toUpper = some d := by decide
  constructor
  · intro h
    have ascii : c.toNat < 128 := by
      by_contra large
      rw [hexDigit?, if_neg large] at h
      contradiction
    have own := small c.toNat ascii d
    rw [Char.ofNat_toNat] at own
    exact own h
  · rintro ⟨digit, rfl | rfl⟩
    · exact hexDigit?_digitChar d digit
    · exact capital d digit

theorem spellsBytes_iff {digits : List Char} {bytes : Bytes} :
    SpellsBytes digits bytes ↔ WritesBytes digits bytes := by
  constructor
  · intro h
    induction h with
    | nil => exact .nil
    | cons upper lower _ ih =>
      exact .cons (hexDigit?_eq_some_iff.mp upper) (.cons (hexDigit?_eq_some_iff.mp lower) ih)
  · intro h
    induction bytes generalizing digits with
    | nil =>
      cases h
      exact .nil
    | cons b bytes ih =>
      cases h with
      | cons upper h =>
        cases h with
        | cons lower rest =>
          exact .cons (hexDigit?_eq_some_iff.mpr upper) (hexDigit?_eq_some_iff.mpr lower) (ih rest)

/-- A byte that is a digit is one of the first 128. -/
theorem lt_of_hexValue? {b v : UInt8} (h : hexValue? b = some v) : b.toNat < 128 ∧ v.toNat < 16 := by
  have all : ∀ n < 256, ∀ v ∈ hexValue? (UInt8.ofNat n), n < 128 ∧ v.toNat < 16 := by decide +kernel
  have own := all b.toNat b.toNat_lt v
  rw [UInt8.ofNat_toNat] at own
  exact own h

/-- A digit at the front of a stored text is its first character. -/
theorem exists_digit_of_flatMap {cs : List Char} {b v : UInt8} {stored : Bytes}
    (h : cs.flatMap String.utf8EncodeChar = b :: stored) (value : hexValue? b = some v) :
    ∃ c rest, cs = c :: rest ∧ rest.flatMap String.utf8EncodeChar = stored ∧ hexDigit? c = some v.toNat := by
  cases cs with
  | nil => cases h
  | cons c rest =>
    have first : b ∈ String.utf8EncodeChar c := by
      obtain ⟨own, more, bytes⟩ := List.exists_cons_of_ne_nil (String.utf8EncodeChar_ne_nil (c := c))
      rw [List.flatMap_cons, bytes] at h
      rw [bytes, (List.cons.inj h).1]
      exact List.mem_cons_self
    have char := toNat_eq_of_mem_utf8EncodeChar first (lt_of_hexValue? value).1
    have ascii : c.toNat < 128 := by
      rw [char]
      exact (lt_of_hexValue? value).1
    have alone : String.utf8EncodeChar c = [b] := by
      have one : c.utf8Size = 1 := Char.utf8Size_eq_one_iff.mpr (Nat.le_of_lt_succ ascii)
      have single := String.utf8EncodeChar_eq_singleton one
      rw [single, List.mem_singleton] at first
      rw [single, first]
    have byte : c.toNat.toUInt8 = b := by
      rw [char]
      exact UInt8.ofNat_toNat
    rw [List.flatMap_cons, alone] at h
    refine ⟨c, rest, rfl, (List.cons.inj h).2, ?_⟩
    rw [hexDigit?, if_pos ascii, byte, value]
    rfl

/-- What is read as bytes are digits that spell them. -/
theorem spellsBytes_of_readHexPairs {position : Nat} {stored bytes : Bytes}
    (h : readHexPairs position stored = .ok bytes) {digits : List Char}
    (text : digits.flatMap String.utf8EncodeChar = stored) : SpellsBytes digits bytes := by
  fun_induction readHexPairs position stored generalizing bytes digits with
  | case1 =>
    cases h
    have none : digits = [] := by
      rw [List.flatMap_eq_nil_iff] at text
      exact List.eq_nil_iff_forall_not_mem.mpr fun c mem => String.utf8EncodeChar_ne_nil (text c mem)
    exact none ▸ .nil
  | case2 => contradiction
  | case3 => contradiction
  | case4 => contradiction
  | case5 position high low stored upper lower valueLow valueHigh ih =>
    obtain ⟨tail, later, made⟩ := bind_eq_ok_iff.mp h
    cases made
    obtain ⟨c, behind, rfl, text', digitHigh⟩ := exists_digit_of_flatMap text valueHigh
    obtain ⟨d, rest, rfl, text'', digitLow⟩ := exists_digit_of_flatMap text' valueLow
    have smallHigh := (lt_of_hexValue? valueHigh).2
    have smallLow := (lt_of_hexValue? valueLow).2
    have sum : (upper * 16 + lower).toNat = upper.toNat * 16 + lower.toNat := by
      have wrapped : (upper * 16 + lower).toNat = (upper.toNat * 16 % 256 + lower.toNat) % 256 := by
        rw [UInt8.toNat_add, UInt8.toNat_mul]
        rfl
      omega
    have quotient : (upper * 16 + lower).toNat / 16 = upper.toNat := by omega
    have remainder : (upper * 16 + lower).toNat % 16 = lower.toNat := by omega
    exact .cons (by rw [digitHigh, quotient]) (by rw [digitLow, remainder]) (ih later text'')

/-- A text is read as bytes exactly if it is their digits. -/
theorem readHex_eq_ok_iff {digits : List Char} {bytes : Bytes} :
    readHex (encodeUtf8 (String.ofList digits)) = .ok bytes ↔ WritesBytes digits bytes := by
  rw [← spellsBytes_iff]
  refine ⟨fun h => ?_, SpellsBytes.readHex_eq⟩
  rw [readHex] at h
  split at h
  · contradiction
  · refine spellsBytes_of_readHexPairs h ?_
    rw [encodeUtf8_eq_flatMap, String.toList_ofList]

/-! ## Tokens -/

/-- A token as it is written: marks, as many as there may be, and digits. -/
structure DumpToken where
  marks : Nat
  digits : List Char
deriving DecidableEq, Repr

def DumpToken.text (t : DumpToken) : List Char := (List.replicate t.marks ['0', 'x']).flatten ++ t.digits

/-- The marks of a token are passed over, and no digit is taken for one. -/
theorem dropMarks_text {t : DumpToken} (clear : 'x' ∉ t.digits) : dropMarks t.text = t.digits := by
  obtain ⟨marks, digits⟩ := t
  induction marks with
  | zero =>
    show dropMarks digits = digits
    unfold dropMarks
    split
    · simp only [List.mem_cons, true_or, or_true, not_true] at clear
    · rfl
  | succ marks ih => exact ih clear

/-- Every run of characters is a token of what is left of it without its marks. -/
theorem exists_token (cs : List Char) : ∃ t : DumpToken, t.text = cs ∧ t.digits = dropMarks cs := by
  fun_induction dropMarks cs with
  | case1 rest ih =>
    obtain ⟨⟨marks, digits⟩, rfl, left⟩ := ih
    exact ⟨⟨marks + 1, digits⟩, rfl, left⟩
  | case2 cs => exact ⟨⟨0, cs⟩, rfl, rfl⟩

/-- A text is spaced out of its parts between separators. -/
theorem spaced_splitOnP (cs : List Char) : Spaced SeparatorRun (cs.splitOnP isDumpSeparator) cs := by
  induction cs with
  | nil => exact .last []
  | cons c cs ih =>
    rw [List.splitOnP_cons_eq_if_modifyHead]
    split
    next separator =>
      have run : SeparatorRun [c] :=
        ⟨List.cons_ne_nil c [], List.forall_mem_singleton.mpr (isDumpSeparator_iff.mp separator)⟩
      exact .next [] run ih
    next =>
      obtain ⟨part, parts, parted⟩ := List.exists_cons_of_ne_nil (List.splitOnP_ne_nil isDumpSeparator cs)
      rw [parted] at ih ⊢
      exact ih.glue [c]

/-- Every text is a layout of the digits that are left of its tokens. -/
theorem exists_tokens (cs : List Char) :
    ∃ tokens : List DumpToken, Spaced SeparatorRun (tokens.map DumpToken.text) cs ∧
      tokens.flatMap DumpToken.digits = tokenDigits cs := by
  choose token text digits using exists_token
  refine ⟨(cs.splitOnP isDumpSeparator).map token, ?_, ?_⟩
  · have same : DumpToken.text ∘ token = id := funext text
    rw [List.map_map, same, List.map_id]
    exact spaced_splitOnP cs
  · simp only [tokenDigits, List.flatMap_map, digits]

/-- The digits of a layout are those of its tokens, if they are digits. -/
theorem tokenDigits_of_layout {tokens : List DumpToken} {cs : List Char}
    (h : Spaced SeparatorRun (tokens.map DumpToken.text) cs)
    (written : ∀ c ∈ tokens.flatMap DumpToken.digits, ∃ d, IsHexDigit c d) :
    tokenDigits cs = tokens.flatMap DumpToken.digits := by
  have plain : ∀ d < 16, ∀ c ∈ [d.digitChar, d.digitChar.toUpper],
      c ≠ 'x' ∧ isDumpSeparator c = false := by decide
  have digit {c : Char} (mem : c ∈ tokens.flatMap DumpToken.digits) : c ≠ 'x' ∧ isDumpSeparator c = false := by
    obtain ⟨d, small, form⟩ := written c mem
    refine plain d small c ?_
    rwa [List.mem_pair]
  rw [h.tokenDigits_eq, List.flatMap_map]
  refine List.flatMap_congr fun t mem => ?_
  have own {c : Char} (hc : c ∈ t.digits) : c ∈ tokens.flatMap DumpToken.digits :=
    List.mem_flatMap.mpr ⟨t, mem, hc⟩
  have clear : ∀ c ∈ t.text, isDumpSeparator c = false := by
    intro c hc
    rcases List.mem_append.mp hc with mark | hc
    · have marks : ∀ c ∈ ['0', 'x'], isDumpSeparator c = false := by decide
      obtain ⟨mark', copies, here⟩ := List.mem_flatten.mp mark
      exact marks c ((List.mem_replicate.mp copies).2 ▸ here)
    · exact (digit (own hc)).2
  rw [tokenDigits_of_token clear]
  exact dropMarks_text fun x => (digit (own x)).1 rfl

/-! ## The law -/

/-- Which dumps are read, and as what. A dump is read as bytes exactly if it is made of tokens with runs of
blanks and commas between them, each token some marks and then digits, and the digits of all tokens are those
of the bytes, in either case. -/
theorem readDump_layout (dump : String) (bytes : Bytes) :
    readDump dump = .ok bytes ↔
      ∃ tokens : List DumpToken, Spaced SeparatorRun (tokens.map DumpToken.text) dump.toList ∧
        WritesBytes (tokens.flatMap DumpToken.digits) bytes := by
  rw [readDump, readHex_eq_ok_iff, dumpDigits_eq]
  constructor
  · intro written
    obtain ⟨tokens, layout, digits⟩ := exists_tokens dump.toList
    exact ⟨tokens, layout, digits ▸ written⟩
  · rintro ⟨tokens, layout, written⟩
    have digits : ∀ c ∈ tokens.flatMap DumpToken.digits, ∃ d, IsHexDigit c d :=
      forall_right_of_forall₂ written.flip fun d c own => ⟨d, own⟩
    rwa [tokenDigits_of_layout layout digits]

/-- A byte that is cut in two, a mark before each half, and capitals. -/
example : readDump " 0x0, 0x5,,1\u0085F f\t0x0x2\n" = .ok [0x05, 0x1f, 0xf2] := by decide

end DsiPanel
