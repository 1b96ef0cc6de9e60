import DsiPanel.Text.Hexadecimal
import DsiPanel.Toml.Value

/-!
# TOML numbers and dates

A decimal integer has no leading zero and may have a sign; digits may be set apart by single
underscores. Integers in another base have neither a sign nor an end short of a digit. All of them
fit into 64 bits with a sign. A number with a fraction or an exponent must not be so large that it
rounds to infinity, though a negative one may. Dates are those of the calendar.

The shape of the first characters says which is meant: four digits and a hyphen begin a date, two
digits and a colon a time.
-/

namespace DsiPanel.Toml

/-! ## Digits -/

/-- Further digits, each of which an underscore may precede. -/
def readMoreDigits (isDigit : Char → Bool) : Reader (List Char)
  | [] => some ([], [])
  | '_' :: [] => none
  | '_' :: c :: rest =>
    if isDigit c then (readMoreDigits isDigit rest).map fun (ds, rest) => (c :: ds, rest)
    else none
  | c :: rest =>
    if isDigit c then (readMoreDigits isDigit rest).map fun (ds, rest) => (c :: ds, rest)
    else some ([], c :: rest)

/-- A run of digits with single underscores between them, which are left out. -/
def readDigits (isDigit : Char → Bool) : Reader (List Char)
  | [] => none
  | c :: rest =>
    if isDigit c then (readMoreDigits isDigit rest).map fun (ds, rest) => (c :: ds, rest)
    else none

/-- A sign, if there is one: whether it is a minus. -/
def readSign : List Char → Bool × List Char
  | '-' :: rest => (true, rest)
  | '+' :: rest => (false, rest)
  | rest => (false, rest)

def readDecimal : Reader (List Char)
  | '0' :: rest => some (['0'], rest)
  | rest => readDigits Char.isDigit rest

/-- The number that the digits write in a base up to sixteen. -/
def digitsValue (base : Nat) (digits : List Char) : Nat :=
  digits.foldl (fun sum c => sum * base + (hexDigit? c).getD 0) 0

/-- The integer as a value, if it fits into 64 bits with a sign. -/
def integerValue? (n : Int) : Option Value :=
  if -9223372036854775808 ≤ n ∧ n ≤ 9223372036854775807 then some (.integer n) else none

/-! ## Numbers -/

/-- An integer in a base other than ten, after its mark. -/
def readBased (base : Nat) (isDigit : Char → Bool) : Reader Value := fun cs => do
  let (digits, rest) ← readDigits isDigit cs
  let value ← integerValue? (digitsValue base digits)
  some (value, rest)

/-- The number with these digits, of which the point or exponent moves the last `shift` places,
rounds to infinity. -/
def roundsToInfinity (digits : List Char) (shift : Int) : Bool :=
  let significant := digits.dropWhile (· = '0')
  let size : Int := significant.length + shift
  if significant.isEmpty || size < 309 then false
  else if 310 < size then true
  else
    let bound := Nat.pow 2 1024 - Nat.pow 2 970
    let value := digitsValue 10 significant
    decide (bound * Nat.pow 10 (-shift).toNat ≤ value * Nat.pow 10 shift.toNat)

def readExponent : Reader (Option Int)
  | c :: rest =>
    if c = 'e' || c = 'E' then do
      let (negative, rest) := readSign rest
      let (digits, rest) ← readDigits Char.isDigit rest
      let value : Int := digitsValue 10 digits
      some (some (if negative then -value else value), rest)
    else some (none, c :: rest)
  | [] => some (none, [])

def readFraction : Reader (Option (List Char))
  | '.' :: rest => (readDigits Char.isDigit rest).map fun (digits, rest) => (some digits, rest)
  | rest => some (none, rest)

/-- A decimal number after its sign, with or without a fraction and an exponent. -/
def readDecimalNumber (negative : Bool) : Reader Value := fun cs => do
  let (whole, rest) ← readDecimal cs
  let (fraction, rest) ← readFraction rest
  let (exponent, rest) ← readExponent rest
  let value : Int := digitsValue 10 whole
  if fraction.isNone && exponent.isNone then
    let value ← integerValue? (if negative then -value else value)
    some (value, rest)
  else
    let decimals := fraction.getD []
    let shift := exponent.getD 0 - decimals.length
    if !negative && roundsToInfinity (whole ++ decimals) shift then none
    else some (.float (String.ofList (cs.take (cs.length - rest.length))), rest)

/-! ## Dates and times -/

/-- Two digits whose number is in a range. -/
def readTwo (least most : Nat) : Reader Nat
  | a :: b :: rest =>
    let n := digitsValue 10 [a, b]
    if a.isDigit && b.isDigit && least ≤ n && n ≤ most then some (n, rest) else none
  | _ => none

def daysOf (year month : Nat) : Nat :=
  if month = 2 then
    if year % 4 = 0 && (year % 100 != 0 || year % 400 = 0) then 29 else 28
  else if month = 4 || month = 6 || month = 9 || month = 11 then 30
  else 31

/-- The text after a given character. -/
def dropChar? (c : Char) : List Char → Option (List Char)
  | d :: rest => if d = c then some rest else none
  | [] => none

def dropDate? : List Char → Option (List Char)
  | a :: b :: c :: d :: rest => do
    if !([a, b, c, d].all Char.isDigit) then none
    let rest ← dropChar? '-' rest
    let (month, rest) ← readTwo 1 12 rest
    let rest ← dropChar? '-' rest
    let (_, rest) ← readTwo 1 (daysOf (digitsValue 10 [a, b, c, d]) month) rest
    some rest
  | _ => none

def dropTime? (cs : List Char) : Option (List Char) := do
  let (_, rest) ← readTwo 0 23 cs
  let rest ← dropChar? ':' rest
  let (_, rest) ← readTwo 0 59 rest
  let rest ← dropChar? ':' rest
  let (_, rest) ← readTwo 0 60 rest
  match rest with
  | '.' :: c :: decimals => some (if c.isDigit then decimals.dropWhile Char.isDigit else rest)
  | rest => some rest

/-- The text after the distance from universal time, where one is given. -/
def dropZone (cs : List Char) : List Char :=
  match cs with
  | c :: rest =>
    if c = 'Z' || c = 'z' then rest
    else if c = '+' || c = '-' then
      let zone := do
        let (_, rest) ← readTwo 0 23 rest
        let rest ← dropChar? ':' rest
        let (_, rest) ← readTwo 0 59 rest
        some rest
      zone.getD cs
    else cs
  | [] => []

/-- The text after a date with or without a time. -/
def dropDateTime? (cs : List Char) : Option (List Char) := do
  let rest ← dropDate? cs
  match rest with
  | c :: time =>
    if c = 'T' || c = 't' || c = ' ' then some (((dropTime? time).map dropZone).getD rest)
    else some rest
  | [] => some []

def looksLikeDate : List Char → Bool
  | a :: b :: c :: d :: '-' :: _ => [a, b, c, d].all Char.isDigit
  | _ => false

def looksLikeTime : List Char → Bool
  | a :: b :: ':' :: _ => a.isDigit && b.isDigit
  | _ => false

/-! ## Either -/

/-- The text after a given word. -/
def dropWord? : List Char → List Char → Option (List Char)
  | [], cs => some cs
  | w :: word, c :: cs => if w = c then dropWord? word cs else none
  | _ :: _, [] => none

def readNumber : Reader Value := fun cs =>
  let dated (rest : List Char) : Value × List Char :=
    (.dateTime (String.ofList (cs.take (cs.length - rest.length))), rest)
  if looksLikeDate cs then (dropDateTime? cs).map dated
  else if looksLikeTime cs then (dropTime? cs).map dated
  else
    match cs with
    | '0' :: 'x' :: rest => readBased 16 (fun c => (hexDigit? c).isSome) rest
    | '0' :: 'o' :: rest => readBased 8 (fun c => '0' ≤ c && c ≤ '7') rest
    | '0' :: 'b' :: rest => readBased 2 (fun c => c = '0' || c = '1') rest
    | cs =>
      let (negative, rest) := readSign cs
      match dropWord? ['i', 'n', 'f'] rest, dropWord? ['n', 'a', 'n'] rest with
      | some rest, _ => some (.float "inf", rest)
      | none, some rest => some (.float "nan", rest)
      | none, none => readDecimalNumber negative rest

end DsiPanel.Toml
