import DsiPanel.Bytes

/-!
# Text as bytes

Stored text is UTF-8. Bytes that are not well-formed UTF-8 hold no text.
-/

namespace DsiPanel

/-- The text that the bytes hold. -/
def decodeUtf8? (bytes : Bytes) : Option String := String.fromUTF8? ⟨bytes.toArray⟩

/-- The bytes of a text. -/
def encodeUtf8 (text : String) : Bytes := text.toByteArray.data.toList

theorem decodeUtf8?_encodeUtf8 (text : String) : decodeUtf8? (encodeUtf8 text) = some text := by
  have h : (⟨(encodeUtf8 text).toArray⟩ : ByteArray) = text.toByteArray := by
    simp [encodeUtf8]
  simp [decodeUtf8?, h, String.fromUTF8?, text.isValidUTF8, String.fromUTF8]

theorem decodeUtf8?_eq_some_iff {bytes : Bytes} {text : String} :
    decodeUtf8? bytes = some text ↔ bytes = encodeUtf8 text := by
  constructor
  · intro h
    unfold decodeUtf8? String.fromUTF8? at h
    split at h
    next valid =>
      cases h
      exact List.toList_toArray.symm
    next => cases h
  · rintro rfl
    exact decodeUtf8?_encodeUtf8 text

theorem encodeUtf8_eq_flatMap (text : String) :
    encodeUtf8 text = text.toList.flatMap String.utf8EncodeChar := by
  rw [encodeUtf8, ← String.utf8Encode_toList, List.utf8Encode, List.data_toByteArray, List.toList_toArray]

theorem encodeUtf8_eq_nil_iff {text : String} : encodeUtf8 text = [] ↔ text = "" := by
  rw [encodeUtf8_eq_flatMap, List.flatMap_eq_nil_iff, ← String.toList_eq_nil_iff]
  simp only [String.utf8EncodeChar_ne_nil, imp_false, ← List.eq_nil_iff_forall_not_mem]

/-- A byte of the first 128 stands only for the character of its number. -/
theorem toNat_eq_of_mem_utf8EncodeChar {c : Char} {b : UInt8} (h : b ∈ String.utf8EncodeChar c)
    (small : b.toNat < 128) : c.toNat = b.toNat := by
  have byte (n : Nat) : b = UInt8.ofNat n ↔ b.toNat = n % 256 := by
    rw [← UInt8.toNat_inj, UInt8.toNat_ofNat']
  have char : c.toNat = c.val.toNat := rfl
  unfold String.utf8EncodeChar at h
  simp only at h
  split at h
  · simp only [List.mem_singleton, byte] at h
    omega
  split at h
  · simp only [List.mem_cons, List.not_mem_nil, or_false, byte] at h
    omega
  split at h <;>
  · simp only [List.mem_cons, List.not_mem_nil, or_false, byte] at h
    omega

/-- A zero byte stands only for the character zero. -/
theorem zero_mem_utf8EncodeChar_iff {c : Char} : 0 ∈ String.utf8EncodeChar c ↔ c = '\x00' := by
  constructor
  · intro mem
    exact Char.toNat_inj.mp (toNat_eq_of_mem_utf8EncodeChar mem (by decide))
  · rintro rfl
    decide

theorem zero_mem_encodeUtf8_iff {text : String} : 0 ∈ encodeUtf8 text ↔ '\x00' ∈ text.toList := by
  simp only [encodeUtf8_eq_flatMap, List.mem_flatMap, zero_mem_utf8EncodeChar_iff, exists_eq_right]

/-- A zero byte at the end stands for the character zero at the end. -/
theorem encodeUtf8_eq_concat_zero_iff {text : String} {front : Bytes} :
    encodeUtf8 text = front ++ [0] ↔ ∃ before, text = before ++ "\x00" ∧ front = encodeUtf8 before := by
  have zero : "\x00".toList = ['\x00'] := rfl
  have byte : String.utf8EncodeChar '\x00' = [0] := by decide
  constructor
  · intro h
    rw [encodeUtf8_eq_flatMap] at h
    rcases List.eq_nil_or_concat text.toList with empty | ⟨cs, c, spelled⟩
    · rw [empty, List.flatMap_nil] at h
      exact absurd h.symm (List.append_ne_nil_of_right_ne_nil _ (List.cons_ne_nil _ _))
    · rw [List.concat_eq_append] at spelled
      rw [spelled, List.flatMap_append, List.flatMap_singleton] at h
      have mem : 0 ∈ String.utf8EncodeChar c := by
        have last := congrArg List.getLast? h
        rw [List.getLast?_append, List.getLast?_eq_some_getLast String.utf8EncodeChar_ne_nil, Option.some_or,
          List.getLast?_concat] at last
        exact Option.some.inj last ▸ List.getLast_mem _
      obtain rfl := zero_mem_utf8EncodeChar_iff.mp mem
      rw [byte] at h
      refine ⟨String.ofList cs, ?_, ?_⟩
      · rw [← String.toList_inj, spelled, String.toList_append, String.toList_ofList, zero]
      · rw [encodeUtf8_eq_flatMap, String.toList_ofList]
        exact (List.append_cancel_right h).symm
  · rintro ⟨before, rfl, rfl⟩
    rw [encodeUtf8_eq_flatMap, encodeUtf8_eq_flatMap, String.toList_append, List.flatMap_append, zero,
      List.flatMap_singleton, byte]

/-- Bytes that are broken before a zero byte are broken with it, and whole with it where they are whole. -/
theorem decodeUtf8?_concat_zero_eq_none_iff {front : Bytes} :
    decodeUtf8? (front ++ [0]) = none ↔ decodeUtf8? front = none := by
  simp only [Option.eq_none_iff_forall_ne_some, ne_eq, decodeUtf8?_eq_some_iff, eq_comm (a := front ++ [0]),
    encodeUtf8_eq_concat_zero_iff]
  constructor
  · rintro broken before rfl
    exact broken _ ⟨before, rfl, rfl⟩
  · rintro broken _ ⟨before, -, rfl⟩
    exact broken before rfl

end DsiPanel
