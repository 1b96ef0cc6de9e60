import DsiPanel.Interchange.Datum

/-!
# Reading JSON

Text is read in two steps. It is cut into tokens first, blanks between them left out. Then values
are put together from the tokens, one token after another, with the containers that are still open
held beside: so values may stand in each other to any depth.
-/

namespace DsiPanel.Interchange

inductive Token where
  | beginObject
  | endObject
  | beginArray
  | endArray
  | colon
  | comma
  | null
  | boolean (value : Bool)
  | number (text : String)
  | string (units : List StringUnit)
deriving DecidableEq, Repr

/-! ## Tokens -/

def isSpace (c : Char) : Bool := c = ' ' || c = '\t' || c = '\n' || c = '\r'

def shortEscape? : Char → Option Char
  | '"' => some '"'
  | '\\' => some '\\'
  | '/' => some '/'
  | 'b' => some '\x08'
  | 'f' => some '\x0c'
  | 'n' => some '\n'
  | 'r' => some '\r'
  | 't' => some '\t'
  | _ => none

/-- The unit of a number in four digits. -/
def unitOfCode (code : Nat) : StringUnit :=
  if 0xd800 ≤ code ∧ code < 0xe000 then .surrogate code else .char (Char.ofNat code)

/-- The units of a string after its first quote, following those already read, the last of which
is first. -/
def readUnits (read : List StringUnit) : List Char → Option (List StringUnit × List Char)
  | [] => none
  | '"' :: rest => some (read.reverse, rest)
  | '\\' :: 'u' :: a :: b :: c :: d :: rest =>
    (readHexNumber? [a, b, c, d]).bind fun code => readUnits (unitOfCode code :: read) rest
  | '\\' :: c :: rest => (shortEscape? c).bind fun x => readUnits (.char x :: read) rest
  | c :: rest => if c.toNat < 0x20 then none else readUnits (.char c :: read) rest

/-- A run of at least one digit. -/
def readDigits (cs : List Char) : Option (List Char × List Char) :=
  let digits := cs.takeWhile Char.isDigit
  if digits.isEmpty then none else some (digits, cs.dropWhile Char.isDigit)

/-- The digits before a fraction: no zero before another digit. -/
def readWhole (cs : List Char) : Option (List Char × List Char) := do
  let (digits, rest) ← readDigits cs
  match digits with
  | '0' :: _ :: _ => none
  | _ => some (digits, rest)

def readFraction : List Char → Option (List Char × List Char)
  | '.' :: rest => (readDigits rest).map fun (digits, rest) => ('.' :: digits, rest)
  | rest => some ([], rest)

def readSign : List Char → List Char × List Char
  | '+' :: rest => (['+'], rest)
  | '-' :: rest => (['-'], rest)
  | rest => ([], rest)

def readExponent : List Char → Option (List Char × List Char)
  | c :: rest =>
    if c = 'e' || c = 'E' then do
      let (sign, rest) := readSign rest
      let (digits, rest) ← readDigits rest
      some (c :: sign ++ digits, rest)
    else some ([], c :: rest)
  | [] => some ([], [])

/-- A number, whose sign is read already. -/
def readNumber (sign : List Char) (cs : List Char) : Option (Token × List Char) := do
  let (whole, rest) ← readWhole cs
  let (fraction, rest) ← readFraction rest
  let (exponent, rest) ← readExponent rest
  some (.number (String.ofList (sign ++ whole ++ fraction ++ exponent)), rest)

def readToken : List Char → Option (Token × List Char)
  | '\x7b' :: rest => some (.beginObject, rest)
  | '\x7d' :: rest => some (.endObject, rest)
  | '[' :: rest => some (.beginArray, rest)
  | ']' :: rest => some (.endArray, rest)
  | ':' :: rest => some (.colon, rest)
  | ',' :: rest => some (.comma, rest)
  | '"' :: rest => (readUnits [] rest).map fun (units, rest) => (.string units, rest)
  | 'n' :: 'u' :: 'l' :: 'l' :: rest => some (.null, rest)
  | 't' :: 'r' :: 'u' :: 'e' :: rest => some (.boolean true, rest)
  | 'f' :: 'a' :: 'l' :: 's' :: 'e' :: rest => some (.boolean false, rest)
  | '-' :: rest => readNumber ['-'] rest
  | rest => readNumber [] rest

/-- The tokens of a text after those already read, the last of which is first. Each takes a
character, so the length of the text bounds the steps. -/
def readTokens (steps : Nat) (read : List Token) (cs : List Char) : Option (List Token) :=
  match steps with
  | 0 => none
  | steps + 1 =>
    match cs.dropWhile isSpace with
    | [] => some read.reverse
    | cs =>
      match readToken cs with
      | none => none
      | some (token, rest) => readTokens steps (token :: read) rest

def tokens? (text : String) : Option (List Token) :=
  let cs := text.toList
  readTokens (cs.length + 1) [] cs

/-! ## Values -/

/-- A container that is still open. What it holds so far stands in it with the last first. -/
inductive OpenDatum where
  | array (items : List Datum)
  /-- The value of `key` is due. -/
  | object (entries : List (List StringUnit × Datum)) (key : List StringUnit)

/-- What the next token has to be. -/
inductive Due where
  /-- A value, or the end of the array that has just been opened. -/
  | value (opened : Bool)
  /-- A key, or the end of the object that has just been opened. -/
  | key (opened : Bool) (entries : List (List StringUnit × Datum))
  /-- What may follow a whole value. -/
  | follow (datum : Datum)

/-- The value that the tokens make. -/
def assemble? : Due → List OpenDatum → List Token → Option Datum
  | .follow datum, [], [] => some datum
  | .follow datum, .array items :: outer, .comma :: rest =>
    assemble? (.value false) (.array (datum :: items) :: outer) rest
  | .follow datum, .array items :: outer, .endArray :: rest =>
    assemble? (.follow (.array (datum :: items).reverse)) outer rest
  | .follow datum, .object entries key :: outer, .comma :: rest =>
    assemble? (.key false ((key, datum) :: entries)) outer rest
  | .follow datum, .object entries key :: outer, .endObject :: rest =>
    assemble? (.follow (.object ((key, datum) :: entries).reverse)) outer rest
  | .key _ entries, outer, .string key :: .colon :: rest =>
    assemble? (.value false) (.object entries key :: outer) rest
  | .key true _, outer, .endObject :: rest => assemble? (.follow (.object [])) outer rest
  | .value true, .array _ :: outer, .endArray :: rest =>
    assemble? (.follow (.array [])) outer rest
  | .value _, outer, .beginArray :: rest => assemble? (.value true) (.array [] :: outer) rest
  | .value _, outer, .beginObject :: rest => assemble? (.key true []) outer rest
  | .value _, outer, .null :: rest => assemble? (.follow .null) outer rest
  | .value _, outer, .boolean value :: rest => assemble? (.follow (.boolean value)) outer rest
  | .value _, outer, .number text :: rest => assemble? (.follow (.number text)) outer rest
  | .value _, outer, .string units :: rest => assemble? (.follow (.string units)) outer rest
  | _, _, _ => none

/-- The value that a text holds. -/
def Datum.read? (text : String) : Option Datum := (tokens? text).bind (assemble? (.value false) [])

end DsiPanel.Interchange
