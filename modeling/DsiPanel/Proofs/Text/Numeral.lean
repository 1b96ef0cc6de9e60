import DsiPanel.Proofs.Text.Literal
import DsiPanel.Text.Numeral
import Mathlib.Data.List.TakeWhile

/-!
# Numbers with blanks around them

What is read of a variable stands between blanks, and they are told from what is read by the property of each
character alone: characters without a blank among them are found again whatever blanks stand around them
(`BlanksAround.trimBlanks_eq`).

**The law** (`readUnsigned?_eq_some_iff`): the texts that are read as a number are those that write it
(`WritesNumber`), digits behind one plus sign at most. All others say nothing.
-/

namespace DsiPanel

/-! ## Blanks -/

/-- The text is made of these characters, with blanks or nothing before and after them. -/
def BlanksAround (core text : List Char) : Prop :=
  ∃ before after, text = before ++ core ++ after ∧ (∀ c ∈ before, isBlank c = true) ∧
    ∀ c ∈ after, isBlank c = true

theorem blanksAround_trimBlanks (text : List Char) : BlanksAround (trimBlanks text) text := by
  have rest : ((text.dropWhile isBlank).reverse.dropWhile isBlank).reverse ++
      ((text.dropWhile isBlank).reverse.takeWhile isBlank).reverse = text.dropWhile isBlank := by
    rw [← List.reverse_append, List.takeWhile_append_dropWhile, List.reverse_reverse]
  refine ⟨text.takeWhile isBlank, ((text.dropWhile isBlank).reverse.takeWhile isBlank).reverse, ?_,
    fun c mem => List.mem_takeWhile_imp mem, fun c mem => List.mem_takeWhile_imp (List.mem_reverse.mp mem)⟩
  rw [List.append_assoc, trimBlanks, rest, List.takeWhile_append_dropWhile]

theorem dropWhile_isBlank_of_shown {cs : List Char} (shown : ∀ c ∈ cs, isBlank c = false) :
    cs.dropWhile isBlank = cs := by
  cases cs with
  | nil => rfl
  | cons c cs => exact List.dropWhile_cons_of_neg (Bool.eq_false_iff.mp (shown c List.mem_cons_self))

/-- Characters without a blank are what is left of a text that has blanks around them. -/
theorem BlanksAround.trimBlanks_eq {core text : List Char} (h : BlanksAround core text)
    (shown : ∀ c ∈ core, isBlank c = false) : trimBlanks text = core := by
  obtain ⟨before, after, rfl, blankBefore, blankAfter⟩ := h
  have front : (before ++ core ++ after).dropWhile isBlank = (core ++ after).dropWhile isBlank := by
    rw [List.append_assoc, List.dropWhile_append_of_pos blankBefore]
  have back : (core ++ after).reverse.dropWhile isBlank = core.reverse := by
    have blank : ∀ c ∈ after.reverse, isBlank c = true := fun c mem => blankAfter c (List.mem_reverse.mp mem)
    rw [List.reverse_append, List.dropWhile_append_of_pos blank]
    exact dropWhile_isBlank_of_shown fun c mem => shown c (List.mem_reverse.mp mem)
  rw [trimBlanks, front]
  cases core with
  | nil =>
    rw [List.nil_append, List.dropWhile_eq_nil_iff.mpr blankAfter]
    rfl
  | cons c core =>
    have first : (c :: core ++ after).dropWhile isBlank = c :: core ++ after :=
      List.dropWhile_cons_of_neg (Bool.eq_false_iff.mp (shown c List.mem_cons_self))
    rw [first, back, List.reverse_reverse]

/-! ## Numbers -/

/-- The text writes a number below the bound: digits with one plus sign before them or none, and blanks around
both. -/
def WritesNumber (bound : Nat) (text : String) (n : Nat) : Prop :=
  ∃ sign digits, BlanksAround (sign ++ digits) text.toList ∧ (sign = [] ∨ sign = ['+']) ∧ digits ≠ [] ∧
    (∀ c ∈ digits, c.isDigit = true) ∧ Nat.ofDigitChars 10 digits 0 = n ∧ n < bound

theorem readDigits?_eq_some_iff {digits : List Char} {n : Nat} :
    readDigits? digits = some n ↔
      digits ≠ [] ∧ (∀ c ∈ digits, c.isDigit = true) ∧ Nat.ofDigitChars 10 digits 0 = n := by
  simp only [readDigits?, Option.ite_none_right_eq_some, Bool.and_eq_true, Bool.not_eq_true',
    List.isEmpty_eq_false_iff, List.all_eq_true, Option.some.injEq, and_assoc]

/-- One plus sign is passed over and no other character. -/
theorem exists_sign_of_dropPlus (cs : List Char) :
    ∃ sign, cs = sign ++ dropPlus cs ∧ (sign = [] ∨ sign = ['+']) := by
  unfold dropPlus
  split
  next rest => exact ⟨['+'], rfl, .inr rfl⟩
  next => exact ⟨[], rfl, .inl rfl⟩

theorem dropPlus_sign_append {sign digits : List Char} (signed : sign = [] ∨ sign = ['+'])
    (all : ∀ c ∈ digits, c.isDigit = true) : dropPlus (sign ++ digits) = digits := by
  rcases signed with rfl | rfl
  · rw [List.nil_append, dropPlus]
    rintro rest rfl
    exact absurd (all '+' List.mem_cons_self) (by decide)
  · rfl

theorem isBlank_of_isDigit {c : Char} (h : c.isDigit = true) : isBlank c = false := by
  refine isBlank_of_isWordChar ?_
  rw [isWordChar, Char.isAlphanum, h, Bool.or_true, Bool.true_or]

theorem readUnsigned?_eq_some_iff {bound n : Nat} {text : String} :
    readUnsigned? bound text = some n ↔ WritesNumber bound text n := by
  rw [readUnsigned?, Option.filter_eq_some_iff, readDigits?_eq_some_iff, decide_eq_true_iff]
  constructor
  · rintro ⟨⟨some, all, value⟩, small⟩
    obtain ⟨sign, spelled, signed⟩ := exists_sign_of_dropPlus (trimBlanks text.toList)
    refine ⟨sign, dropPlus (trimBlanks text.toList), ?_, signed, some, all, value, small⟩
    rw [← spelled]
    exact blanksAround_trimBlanks text.toList
  · rintro ⟨sign, digits, around, signed, some, all, value, small⟩
    have shown : ∀ c ∈ sign ++ digits, isBlank c = false := by
      intro c mem
      rcases List.mem_append.mp mem with plus | digit
      · rcases signed with rfl | rfl
        · exact absurd plus List.not_mem_nil
        · rw [List.mem_singleton.mp plus]
          decide
      · exact isBlank_of_isDigit (all c digit)
    rw [around.trimBlanks_eq shown, dropPlus_sign_append signed all]
    exact ⟨⟨some, all, value⟩, small⟩

end DsiPanel
