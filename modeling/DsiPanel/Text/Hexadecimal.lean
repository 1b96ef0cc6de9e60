import DsiPanel.Bytes

/-!
# Hexadecimal text

Bytes and numbers are written in lower-case digits: a run of bytes as two digits each, a number as
a literal with the mark `0x` and zeros up to the width asked for. Digits are read back in either
case. A reader of a run of digits answers with the first fault it meets, and an odd count of
digits is a fault of the whole run, found before any single digit is looked at.
-/

namespace DsiPanel

/-- The two digits of a byte, the high one first. -/
def hexPair (b : UInt8) : List Char := [(b.toNat / 16).digitChar, (b.toNat % 16).digitChar]

/-- A run of bytes as digits alone, two for each byte. -/
def Bytes.toHex (bytes : Bytes) : String := String.ofList (bytes.flatMap hexPair)

/-- The literal of `value`: the mark, then at least two digits for each of `width` bytes. A value
that needs more digits has them all. -/
def hexLiteral (width value : Nat) : String :=
  "0x" ++ String.ofList ((Nat.toDigits 16 value).leftpad (2 * width) '0')

/-- The literal of one byte, always two digits. -/
def byteLiteral (b : UInt8) : String := hexLiteral 1 b.toNat

def byteLiterals (bytes : Bytes) : List String := bytes.map byteLiteral

/-! ## Reading digits -/

/-- What is wrong with a run of digits. A digit is given as the byte that stands in its place. -/
inductive HexFault where
  /-- The run has an odd count of digits, so its last byte is half a byte. -/
  | oddLength
  /-- The byte at `position` is no digit. -/
  | invalid (byte : UInt8) (position : Nat)
deriving DecidableEq, Repr

/-- The value of a digit in either case. -/
def hexValue? (digit : UInt8) : Option UInt8 :=
  if 0x30 ≤ digit ∧ digit ≤ 0x39 then some (digit - 0x30)
  else if 0x41 ≤ digit ∧ digit ≤ 0x46 then some (digit - 0x41 + 10)
  else if 0x61 ≤ digit ∧ digit ≤ 0x66 then some (digit - 0x61 + 10)
  else none

/-- The bytes that the digits from `position` on make, two by two. -/
def readHexPairs (position : Nat) : Bytes → Except HexFault Bytes
  | [] => .ok []
  | [_] => .error .oddLength
  | high :: low :: rest =>
    match hexValue? high, hexValue? low with
    | none, _ => .error (.invalid high position)
    | some _, none => .error (.invalid low (position + 1))
    | some h, some l => do
      let tail ← readHexPairs (position + 2) rest
      pure ((h * 16 + l) :: tail)

def readHex (digits : Bytes) : Except HexFault Bytes :=
  if digits.length % 2 = 1 then .error .oddLength else readHexPairs 0 digits

/-- The value of a character that is a digit in either case. -/
def hexDigit? (c : Char) : Option Nat :=
  if c.toNat < 128 then (hexValue? c.toNat.toUInt8).map UInt8.toNat else none

/-- The number that a run of digits writes, the most significant digit first. -/
def readHexNumber? (digits : List Char) : Option Nat :=
  digits.foldlM (fun sum c => (hexDigit? c).map fun d => sum * 16 + d) 0

/-- The character of a code point that is written in hexadecimal digits. -/
def readCodePoint? (digits : List Char) : Option Char :=
  (readHexNumber? digits).bind fun n => if n.isValidChar then some (Char.ofNat n) else none

end DsiPanel
