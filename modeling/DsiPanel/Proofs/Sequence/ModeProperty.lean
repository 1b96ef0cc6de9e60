import DsiPanel.Sequence.SignalingMode

/-!
# What a mode property means

The bytes of a mode property hold at most one text (`SignalingMode.propertyText?_eq_some_iff`). A text to
which a zero byte is put is the text of its property, but for the empty one; so it means the mode that it
names or is an error (`SignalingMode.ofProperty_terminated_ok_iff`,
`SignalingMode.ofProperty_terminated_error_iff`), and only the empty one means low power without naming it.
Such bytes are never tried as an index: where they hold no text there is one byte and not four
(`SignalingMode.propertyIndex?_terminated`).

**The law** (`SignalingMode.ofProperty_classified`): two runs of bytes mean high speed, the texts that name no
mode are the only errors, and all other bytes mean low power. Those among them that do not name it are listed
by what is wrong with them (`SignalingMode.MeansNothing`).
-/

namespace DsiPanel.SignalingMode

theorem ofVendorName?_eq_some_iff {text : String} {mode : SignalingMode} :
    ofVendorName? text = some mode ↔ mode.vendorName = text := by
  constructor
  · intro h
    unfold ofVendorName? at h
    have named := List.find?_some h
    exact eq_of_beq named
  · rintro rfl
    cases mode <;> decide

theorem ofVendorName?_eq_none_iff {text : String} :
    ofVendorName? text = none ↔ ∀ mode, vendorName mode ≠ text := by
  simp only [Option.eq_none_iff_forall_ne_some, ne_eq, ofVendorName?_eq_some_iff]

/-- The text of a property is what stands before the only zero byte, at the end. -/
theorem propertyText?_eq_some_iff {raw : Bytes} {text : String} :
    propertyText? raw = some text ↔ text ≠ "" ∧ '\x00' ∉ text.toList ∧ raw = encodeUtf8 text ++ [0] := by
  constructor
  · intro h
    unfold propertyText? at h
    split at h
    next ended =>
      obtain ⟨front, rfl⟩ := List.getLast?_eq_some_iff.mp ended
      simp only [List.dropLast_concat, Option.ite_none_left_eq_some, Bool.or_eq_true, List.isEmpty_iff,
        List.contains_iff_mem, not_or, decodeUtf8?_eq_some_iff] at h
      obtain ⟨⟨shown, plain⟩, rfl⟩ := h
      exact ⟨mt encodeUtf8_eq_nil_iff.mpr shown, mt zero_mem_encodeUtf8_iff.mpr plain, rfl⟩
    next => cases h
  · rintro ⟨shown, plain, rfl⟩
    unfold propertyText?
    rw [List.getLast?_concat]
    simp only [List.dropLast_concat, Option.ite_none_left_eq_some, Bool.or_eq_true, List.isEmpty_iff,
      List.contains_iff_mem, not_or, decodeUtf8?_encodeUtf8, encodeUtf8_eq_nil_iff, zero_mem_encodeUtf8_iff]
    exact ⟨⟨shown, plain⟩, trivial⟩

section Terminated

variable {text : String} (plain : '\x00' ∉ text.toList)

include plain

/-- A terminated text means the mode that it names, and low power where it is empty. -/
theorem ofProperty_terminated_ok_iff {mode : SignalingMode} :
    ofProperty (encodeUtf8 text ++ [0]) = .ok mode ↔
      mode.vendorName = text ∨ text = "" ∧ mode = .lowPower := by
  by_cases shown : text = ""
  · subst shown
    have unnamed : mode.vendorName ≠ "" := by cases mode <;> decide
    have standard : ofProperty (encodeUtf8 "" ++ [0]) = .ok .lowPower := rfl
    simp only [standard, Except.ok.injEq, unnamed, true_and, false_or, eq_comm]
  · have own := propertyText?_eq_some_iff.mpr ⟨shown, plain, rfl⟩
    rw [← ofVendorName?_eq_some_iff]
    cases named : ofVendorName? text <;>
      simp only [ofProperty, own, named, reduceCtorEq, Except.ok.injEq, Option.some.injEq, shown, false_and,
        or_false]

/-- A terminated text that names no mode is an error with this text. -/
theorem ofProperty_terminated_error_iff {error : DecodeError} :
    ofProperty (encodeUtf8 text ++ [0]) = .error error ↔
      text ≠ "" ∧ (∀ mode, vendorName mode ≠ text) ∧ error = .unknownMode text := by
  by_cases shown : text = ""
  · subst shown
    exact iff_of_false (nomatch ·) fun ⟨shown, _⟩ => shown rfl
  · have own := propertyText?_eq_some_iff.mpr ⟨shown, plain, rfl⟩
    rw [← ofVendorName?_eq_none_iff]
    cases named : ofVendorName? text <;>
      simp only [ofProperty, own, named, reduceCtorEq, Except.error.injEq, shown, ne_eq, not_false_eq_true,
        true_and, false_and, eq_comm]

/-- A terminated text without a text is no index. -/
theorem propertyIndex?_terminated (silent : propertyText? (encodeUtf8 text ++ [0]) = none) :
    propertyIndex? (encodeUtf8 text ++ [0]) = none := by
  by_cases empty : text = ""
  · subst empty
    rfl
  · exact absurd (silent.symm.trans (propertyText?_eq_some_iff.mpr ⟨empty, plain, rfl⟩)) (nomatch ·)

end Terminated

/-! ## Bytes of any shape -/

/-- The bytes are a text that is not empty and has no zero in it, and one zero byte behind it. -/
structure Terminated (raw : Bytes) (text : String) : Prop where
  shown : text ≠ ""
  plain : '\x00' ∉ text.toList
  spelled : raw = encodeUtf8 text ++ [0]

/-- The shapes of a property that tells no mode: nothing at all, no zero byte at the end, nothing before it, a
further zero byte before it, a text that is broken, and an index of no mode or of the first. -/
inductive MeansNothing : Bytes → Prop
  | empty : MeansNothing []
  | unterminated {front : Bytes} {last : UInt8} (ne : last ≠ 0) (index : front ++ [last] ≠ [0, 0, 0, 1]) :
      MeansNothing (front ++ [last])
  | bare : MeansNothing [0]
  | innerZero {front : Bytes} (zero : 0 ∈ front) : MeansNothing (front ++ [0])
  | notText {raw : Bytes} (broken : decodeUtf8? raw = none) : MeansNothing raw
  | otherIndex {raw : Bytes} {index : Nat} (given : propertyIndex? raw = some index) (other : index ≠ 1)
      (silent : ∀ text, ¬ Terminated raw text) : MeansNothing raw

section Shapes

variable {raw : Bytes} {text : String}

theorem propertyText?_eq_some_iff_terminated : propertyText? raw = some text ↔ Terminated raw text := by
  rw [propertyText?_eq_some_iff]
  exact ⟨fun ⟨shown, plain, spelled⟩ => ⟨shown, plain, spelled⟩, fun h => ⟨h.shown, h.plain, h.spelled⟩⟩

theorem propertyText?_eq_none_iff : propertyText? raw = none ↔ ∀ text, ¬ Terminated raw text := by
  simp only [Option.eq_none_iff_forall_ne_some, ne_eq, propertyText?_eq_some_iff_terminated]

theorem propertyIndex?_eq_one_iff : propertyIndex? raw = some 1 ↔ raw = [0, 0, 0, 1] := by
  constructor
  · intro h
    unfold propertyIndex? at h
    split at h
    next a b c d =>
      have number := Option.some.inj h
      unfold Bytes.word at number
      have zero (x : UInt8) (h : x.toNat = 0) : x = 0 := UInt8.toNat_inj.mp h
      have one (x : UInt8) (h : x.toNat = 1) : x = 1 := UInt8.toNat_inj.mp h
      rw [zero a (by omega), zero b (by omega), zero c (by omega), one d (by omega)]
    next => cases h
  · rintro rfl
    rfl

/-- Without a text, the index one alone means high speed. -/
theorem ofProperty_of_silent (silent : propertyText? raw = none) :
    ofProperty raw = .ok (if raw = [0, 0, 0, 1] then .highSpeed else .lowPower) := by
  simp only [ofProperty, silent, ofPropertyIndex?, ← propertyIndex?_eq_one_iff]
  rcases propertyIndex? raw with _ | _ | _ | index <;> rfl

theorem terminated_vendorName_iff {mode : SignalingMode} :
    Terminated raw mode.vendorName ↔ raw = encodeUtf8 mode.vendorName ++ [0] := by
  refine ⟨Terminated.spelled, fun spelled => ⟨?_, ?_, spelled⟩⟩ <;> cases mode <;> decide

/-- A property means a mode that its text names, or without a text by what its bytes are as an index. -/
theorem ofProperty_ok_iff {mode : SignalingMode} :
    ofProperty raw = .ok mode ↔ raw = encodeUtf8 mode.vendorName ++ [0] ∨
      (∀ text, ¬ Terminated raw text) ∧ mode = if raw = [0, 0, 0, 1] then .highSpeed else .lowPower := by
  rw [← terminated_vendorName_iff]
  cases own : propertyText? raw with
  | none =>
    have silent := propertyText?_eq_none_iff.mp own
    simp only [ofProperty_of_silent own, Except.ok.injEq, silent, not_false_eq_true, implies_true, true_and,
      false_or, eq_comm]
  | some text =>
    have terminated := propertyText?_eq_some_iff_terminated.mp own
    have loud : ¬ ∀ text, ¬ Terminated raw text := fun silent => silent text terminated
    have named : Terminated raw mode.vendorName ↔ mode.vendorName = text := by
      rw [← propertyText?_eq_some_iff_terminated, own, Option.some.injEq, eq_comm]
    obtain rfl := terminated.spelled
    rw [named, ofProperty_terminated_ok_iff terminated.plain]
    simp only [terminated.shown, loud, false_and]

/-- A property is an error exactly if it is a text that names no mode. -/
theorem ofProperty_error_iff {error : DecodeError} :
    ofProperty raw = .error error ↔
      ∃ text, Terminated raw text ∧ (∀ mode, vendorName mode ≠ text) ∧ error = .unknownMode text := by
  constructor
  · intro h
    cases own : propertyText? raw with
    | none => cases (ofProperty_of_silent own).symm.trans h
    | some text =>
      have terminated := propertyText?_eq_some_iff_terminated.mp own
      rw [terminated.spelled, ofProperty_terminated_error_iff terminated.plain] at h
      exact ⟨text, terminated, h.2⟩
  · rintro ⟨text, ⟨shown, plain, rfl⟩, unnamed, rfl⟩
    exact (ofProperty_terminated_error_iff plain).mpr ⟨shown, unnamed, rfl⟩

theorem Terminated.front_eq {front : Bytes} (h : Terminated (front ++ [0]) text) : front = encodeUtf8 text :=
  List.append_cancel_right h.spelled

theorem MeansNothing.not_terminated (h : MeansNothing raw) : ¬ Terminated raw text := by
  intro terminated
  cases h with
  | empty => exact List.append_ne_nil_of_right_ne_nil _ (List.cons_ne_nil 0 []) terminated.spelled.symm
  | unterminated ne _ =>
    obtain ⟨-, same⟩ := List.append_inj' terminated.spelled rfl
    exact ne (List.cons.inj same).1
  | bare =>
    have none : [] = encodeUtf8 text := terminated.front_eq
    exact terminated.shown (encodeUtf8_eq_nil_iff.mp none.symm)
  | innerZero zero =>
    rw [terminated.front_eq] at zero
    exact terminated.plain (zero_mem_encodeUtf8_iff.mp zero)
  | notText broken =>
    rw [terminated.spelled, decodeUtf8?_concat_zero_eq_none_iff, decodeUtf8?_encodeUtf8] at broken
    cases broken
  | otherIndex _ _ silent => exact silent text terminated

theorem MeansNothing.ne_index (h : MeansNothing raw) : raw ≠ [0, 0, 0, 1] := by
  cases h with
  | empty => nofun
  | unterminated _ index => exact index
  | bare => nofun
  | innerZero _ =>
    intro same
    have last := congrArg List.getLast? same
    rw [List.getLast?_concat] at last
    exact absurd last (by decide)
  | notText broken =>
    rintro rfl
    have whole : [0, 0, 0, 1] = encodeUtf8 "\x00\x00\x00\x01" := by decide
    rw [whole, decodeUtf8?_encodeUtf8] at broken
    cases broken
  | otherIndex given other _ =>
    intro same
    exact other (Option.some.inj (given.symm.trans (propertyIndex?_eq_one_iff.mpr same)))

/-- Bytes that hold no text have one of the shapes, whatever they end in. -/
theorem meansNothing_of_silent (silent : ∀ text, ¬ Terminated raw text) (other : raw ≠ [0, 0, 0, 1]) :
    MeansNothing raw := by
  rcases List.eq_nil_or_concat raw with rfl | ⟨front, last, rfl⟩
  · exact .empty
  rw [List.concat_eq_append] at silent other ⊢
  by_cases ended : last = 0
  · subst ended
    by_cases zero : 0 ∈ front
    · exact .innerZero zero
    cases whole : decodeUtf8? front with
    | none => exact .notText (decodeUtf8?_concat_zero_eq_none_iff.mpr whole)
    | some text =>
      obtain rfl := decodeUtf8?_eq_some_iff.mp whole
      by_cases shown : text = ""
      · subst shown
        exact .bare
      · exact absurd ⟨shown, mt zero_mem_encodeUtf8_iff.mpr zero, rfl⟩ (silent text)
  · exact .unterminated ended other

/-- A property tells no mode exactly if it holds no text and is not the index one. -/
theorem meansNothing_iff : MeansNothing raw ↔ (∀ text, ¬ Terminated raw text) ∧ raw ≠ [0, 0, 0, 1] :=
  ⟨fun h => ⟨fun _ => h.not_terminated, h.ne_index⟩, fun h => meansNothing_of_silent h.1 h.2⟩

theorem ofProperty_eq_highSpeed_iff :
    ofProperty raw = .ok .highSpeed ↔ raw = encodeUtf8 "dsi_hs_mode" ++ [0] ∨ raw = [0, 0, 0, 1] := by
  refine ofProperty_ok_iff.trans (or_congr_right ?_)
  constructor
  · rintro ⟨-, mode⟩
    split at mode
    next index => exact index
    next => cases mode
  · rintro rfl
    exact ⟨propertyText?_eq_none_iff.mp rfl, rfl⟩

theorem ofProperty_eq_lowPower_iff :
    ofProperty raw = .ok .lowPower ↔ raw = encodeUtf8 "dsi_lp_mode" ++ [0] ∨ MeansNothing raw := by
  refine ofProperty_ok_iff.trans (or_congr_right ?_)
  rw [meansNothing_iff]
  refine and_congr_right fun _ => ?_
  split
  next index => exact iff_of_false (nomatch ·) fun other => other index
  next other => exact iff_of_true rfl other

theorem forall_vendorName_ne_iff :
    (∀ mode, vendorName mode ≠ text) ↔ text ≠ "dsi_lp_mode" ∧ text ≠ "dsi_hs_mode" := by
  constructor
  · intro h
    exact ⟨(h .lowPower).symm, (h .highSpeed).symm⟩
  · rintro ⟨low, high⟩ mode
    cases mode with
    | lowPower => exact low.symm
    | highSpeed => exact high.symm

end Shapes

/-- What a property means, whatever its bytes are. High speed is told by its name and a zero byte, or by the
index one. An error are the texts that name no mode, also where they have four bytes. All else is low power:
its name, and the bytes that tell no mode. -/
theorem ofProperty_classified (raw : Bytes) :
    (ofProperty raw = .ok .highSpeed ↔ raw = encodeUtf8 "dsi_hs_mode" ++ [0] ∨ raw = [0, 0, 0, 1]) ∧
    (∀ error, ofProperty raw = .error error ↔
      ∃ text, Terminated raw text ∧ (text ≠ "dsi_lp_mode" ∧ text ≠ "dsi_hs_mode") ∧ error = .unknownMode text) ∧
    (ofProperty raw = .ok .lowPower ↔
      ¬ (raw = encodeUtf8 "dsi_hs_mode" ++ [0] ∨ raw = [0, 0, 0, 1]) ∧
      ¬ ∃ text, Terminated raw text ∧ text ≠ "dsi_lp_mode" ∧ text ≠ "dsi_hs_mode") ∧
    (ofProperty raw = .ok .lowPower ↔ raw = encodeUtf8 "dsi_lp_mode" ++ [0] ∨ MeansNothing raw) := by
  have fails (error : DecodeError) : ofProperty raw = .error error ↔ ∃ text, Terminated raw text ∧
      (text ≠ "dsi_lp_mode" ∧ text ≠ "dsi_hs_mode") ∧ error = .unknownMode text := by
    simp only [ofProperty_error_iff, forall_vendorName_ne_iff]
  refine ⟨ofProperty_eq_highSpeed_iff, fails, ?_, ofProperty_eq_lowPower_iff⟩
  rw [← ofProperty_eq_highSpeed_iff]
  cases meaning : ofProperty raw with
  | error error =>
    obtain ⟨text, terminated, unnamed, -⟩ := (fails error).mp meaning
    exact iff_of_false (nomatch ·) fun ⟨_, named⟩ => named ⟨text, terminated, unnamed⟩
  | ok mode =>
    cases mode with
    | highSpeed => exact iff_of_false (nomatch ·) fun ⟨other, _⟩ => other rfl
    | lowPower =>
      refine iff_of_true rfl ⟨nofun, fun ⟨text, terminated, unnamed⟩ => ?_⟩
      have failed := (fails (.unknownMode text)).mpr ⟨text, terminated, unnamed, rfl⟩
      cases meaning.symm.trans failed

/-- Four bytes are an index only where they are no text. -/
example : ofProperty [0x61, 0x62, 0x63, 0] = .error (.unknownMode "abc") := rfl

end DsiPanel.SignalingMode
