import DsiPanel.Text.Hexadecimal

/-!
# JSON values

The values of interchange text. A number keeps the text it was written in, and a string the units it
was written in: an escape may name half of a surrogate pair, and such a string is a value but holds
no text. What is written of a value has no blank in it.
-/

namespace DsiPanel.Interchange

/-- A unit of a string. -/
inductive StringUnit where
  | char (c : Char)
  /-- Half of a surrogate pair. -/
  | surrogate (code : Nat)
deriving DecidableEq, Repr

inductive Datum where
  | null
  | boolean (value : Bool)
  | number (text : String)
  | string (units : List StringUnit)
  | array (items : List Datum)
  | object (entries : List (List StringUnit × Datum))
deriving Repr

/-! ## Strings -/

/-- The character of a surrogate pair. -/
def pairedChar? (high low : Nat) : Option Char :=
  if 0xd800 ≤ high ∧ high < 0xdc00 ∧ 0xdc00 ≤ low ∧ low < 0xe000 then
    some (Char.ofNat (0x10000 + (high - 0xd800) * 0x400 + (low - 0xdc00)))
  else none

/-- The characters of the units, if every surrogate is half of a pair. -/
def charsOf? : List StringUnit → Option (List Char)
  | [] => some []
  | .char c :: rest => (charsOf? rest).map (c :: ·)
  | .surrogate high :: .surrogate low :: rest =>
    (pairedChar? high low).bind fun c => (charsOf? rest).map (c :: ·)
  | .surrogate _ :: _ => none

/-- The text of the units, if they hold one. -/
def textOf? (units : List StringUnit) : Option String := (charsOf? units).map String.ofList

def unitsOf (text : String) : List StringUnit := text.toList.map .char

/-- The characters that a unit is written with between quotes. -/
def escapeUnit : StringUnit → List Char
  | .surrogate code => '\\' :: 'u' :: (Nat.toDigits 16 code).leftpad 4 '0'
  | .char c =>
    if c = '"' then ['\\', '"']
    else if c = '\\' then ['\\', '\\']
    else if c = '\x08' then ['\\', 'b']
    else if c = '\t' then ['\\', 't']
    else if c = '\n' then ['\\', 'n']
    else if c = '\x0c' then ['\\', 'f']
    else if c = '\r' then ['\\', 'r']
    else if c.toNat < 0x20 then '\\' :: 'u' :: (Nat.toDigits 16 c.toNat).leftpad 4 '0'
    else [c]

def quoteUnits (units : List StringUnit) : String :=
  "\"" ++ String.ofList (units.flatMap escapeUnit) ++ "\""

/-! ## Writing -/

mutual

def Datum.write : Datum → String
  | .null => "null"
  | .boolean value => if value then "true" else "false"
  | .number text => text
  | .string units => quoteUnits units
  | .array items => "[" ++ String.intercalate "," (writeItems items) ++ "]"
  | .object entries => "\x7b" ++ String.intercalate "," (writeEntries entries) ++ "\x7d"

def writeItems : List Datum → List String
  | [] => []
  | item :: rest => item.write :: writeItems rest

def writeEntries : List (List StringUnit × Datum) → List String
  | [] => []
  | (key, value) :: rest => (quoteUnits key ++ ":" ++ value.write) :: writeEntries rest

end

/-! ## Parts of values -/

/-- The natural number of a value, if it is written as one and is below a bound. -/
def Datum.natural? (bound : Nat) : Datum → Option Nat
  | .number text =>
    if text.toList.all Char.isDigit then
      (some (Nat.ofDigitChars 10 text.toList 0)).filter (· < bound)
    else none
  | _ => none

def Datum.boolean? : Datum → Option Bool
  | .boolean value => some value
  | _ => none

def Datum.text? : Datum → Option String
  | .string units => textOf? units
  | _ => none

def Datum.items? : Datum → Option (List Datum)
  | .array items => some items
  | _ => none

def Datum.ofNat (n : Nat) : Datum := .number (toString n)

def Datum.ofText (text : String) : Datum := .string (unitsOf text)

def Datum.ofFields (fields : List (String × Datum)) : Datum :=
  .object (fields.map fun (name, value) => (unitsOf name, value))

end DsiPanel.Interchange
