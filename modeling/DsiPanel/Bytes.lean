/-!
# Bytes

The raw material of every reader and writer here is a list of bytes. This module names that type
and the 16-bit words that stand in it, most significant byte first or last. Words are numbers:
a bound is a hypothesis where one is needed, never a silent wrap of a sum.
-/

namespace DsiPanel

/-- A run of bytes in the order in which they are sent or stored. -/
abbrev Bytes := List UInt8

namespace Bytes

/-- The low 16 bits of `n` as two bytes, the most significant first. -/
def bigEndian16 (n : Nat) : Bytes := [UInt8.ofNat (n / 256), UInt8.ofNat n]

/-- The low 16 bits of `n` as two bytes, the least significant first. -/
def littleEndian16 (n : Nat) : Bytes := [UInt8.ofNat n, UInt8.ofNat (n / 256)]

/-- The number that a high and a low byte make. -/
def word (high low : UInt8) : Nat := high.toNat * 256 + low.toNat

theorem word_lt (high low : UInt8) : word high low < 65536 := by
  have h := high.toNat_lt
  have l := low.toNat_lt
  unfold word
  omega

/-- Writing a word gives back the two bytes it was made of. -/
theorem bigEndian16_word (high low : UInt8) : bigEndian16 (word high low) = [high, low] := by
  have hhigh := high.toNat_lt
  have hlow := low.toNat_lt
  have h : (high.toNat * 256 + low.toNat) / 256 = high.toNat := by omega
  have l : UInt8.ofNat (high.toNat * 256 + low.toNat) = low := by
    apply UInt8.toNat_inj.mp
    rw [UInt8.toNat_ofNat']
    omega
  simp only [bigEndian16, word, h, l, UInt8.ofNat_toNat]

/-- Reading a written number gives it back, if it fits into 16 bits. -/
theorem word_ofNat {n : Nat} (h : n < 65536) : word (UInt8.ofNat (n / 256)) (UInt8.ofNat n) = n := by
  simp only [word, UInt8.toNat_ofNat']
  omega

end Bytes

end DsiPanel
