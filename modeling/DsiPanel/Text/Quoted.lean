/-!
# A byte shown in quotes

An offending byte is shown as the character of its own number, in single quotes. The quote, the
backslash and the usual control characters have their two-character form; a character of this
range that shows nothing of itself is given by its number; all else stands as it is.
-/

namespace DsiPanel

/-- The characters of the first 256 that print nothing of themselves: controls, the no-break space
and the soft hyphen. -/
def isUnprintable (c : Char) : Bool :=
  let n := c.toNat
  n < 0x20 || (0x7f ≤ n && n ≤ 0xa0) || n == 0xad

/-- A character as it stands between single quotes. -/
def quotedChar (c : Char) : String :=
  if c = '\x00' then "\\0"
  else if c = '\t' then "\\t"
  else if c = '\r' then "\\r"
  else if c = '\n' then "\\n"
  else if c = '\'' then "\\'"
  else if c = '\\' then "\\\\"
  else if isUnprintable c then
    "\\u\x7b" ++ String.ofList (Nat.toDigits 16 c.toNat) ++ "\x7d"
  else c.toString

/-- The byte in quotes, as the character of its number. -/
def quotedByte (b : UInt8) : String := "'" ++ quotedChar (Char.ofNat b.toNat) ++ "'"

end DsiPanel
