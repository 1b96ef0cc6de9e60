import DsiPanel.Text.Blank
import DsiPanel.Text.Hexadecimal
import DsiPanel.Text.Quoted
import DsiPanel.Text.Utf8

/-!
# Hex dumps

A dump is a run of hexadecimal digits that blanks and commas cut into tokens, at any places. Marks
`0x` at the front of a token are passed over, however many there are. The digits of all tokens make
the bytes, so a byte may begin in one token and end in the next, and the place of a wrong character
is counted in what is left after the cutting.
-/

namespace DsiPanel

/-- A character that stands between tokens. -/
def isDumpSeparator (c : Char) : Bool := isBlank c || c = ','

/-- A token without the marks at its front. -/
def dropMarks : List Char → List Char
  | '0' :: 'x' :: rest => dropMarks rest
  | token => token

/-- The digits of a dump, one after another. -/
def dumpDigits (dump : String) : List Char :=
  (dump.toList.splitOnP isDumpSeparator).flatMap dropMarks

def readDump (dump : String) : Except HexFault Bytes :=
  readHex (encodeUtf8 (String.ofList (dumpDigits dump)))

def HexFault.message : HexFault → String
  | oddLength => "Odd number of digits"
  | invalid byte position => s!"Invalid character {quotedByte byte} at position {position}"

end DsiPanel
