import DsiPanel.Toml.Number
import DsiPanel.Toml.Table
import DsiPanel.Toml.Text

/-!
# Reading keys and values

A key is a path of parts with dots between them. Arrays and inline tables hold values again; how
deep they may stand in each other, and how long a path may be, is bounded. An array may run over
lines and end in a comma, an inline table neither.

Every step of these readers takes a character or leaves to a reader that does, so twice the length
of the text is more steps than they can need.
-/

namespace DsiPanel.Toml

/-- Values stand less deep in each other than this, and paths have fewer parts. -/
def nestingLimit : Nat := 80

/-! ## Keys -/

def isBareKey (c : Char) : Bool := c.isAlphanum || c = '-' || c = '_'

def readKeyPart : Reader String := fun cs =>
  match cs with
  | '"' :: rest => (readBasic rest).map fun (text, rest) => (String.ofList text, rest)
  | '\'' :: rest => (readLiteral rest).map fun (text, rest) => (String.ofList text, rest)
  | cs =>
    let part := cs.takeWhile isBareKey
    if part.isEmpty then none else some (String.ofList part, cs.dropWhile isBareKey)

/-- The parts of a key, `steps` of them at most, with the blanks around them. -/
def readKeyParts (steps : Nat) : Reader (List String) := fun cs =>
  match steps with
  | 0 => none
  | steps + 1 => do
    let (part, rest) ← readKeyPart (dropSpaces cs)
    match dropSpaces rest with
    | '.' :: rest => do
      let (parts, rest) ← readKeyParts steps rest
      some (part :: parts, rest)
    | rest => some ([part], rest)

/-- A key as the parts before the last and the last. -/
def readKey : Reader (List String × String) := fun cs => do
  let (parts, rest) ← readKeyParts nestingLimit cs
  if nestingLimit ≤ parts.length then none
  let last ← parts.getLast?
  some ((parts.dropLast, last), rest)

/-! ## Values -/

mutual

/-- A value that stands `depth` deep in others. -/
def readValue (steps depth : Nat) : Reader Value := fun cs =>
  match steps with
  | 0 => none
  | steps + 1 =>
    match cs with
    | '"' :: _ => (readString cs).map fun (text, rest) => (.string text, rest)
    | '\'' :: _ => (readString cs).map fun (text, rest) => (.string text, rest)
    | 't' :: 'r' :: 'u' :: 'e' :: rest => some (.boolean true, rest)
    | 'f' :: 'a' :: 'l' :: 's' :: 'e' :: rest => some (.boolean false, rest)
    | '[' :: rest => do
      if nestingLimit ≤ depth + 1 then none
      let (items, rest) ← readItems steps (depth + 1) rest
      some (.array items, rest)
    | '\x7b' :: rest => do
      if nestingLimit ≤ depth + 1 then none
      let (entries, rest) ← readEntries steps (depth + 1) true [] rest
      some (.inlineTable entries, rest)
    | cs => readNumber cs

/-- The items of an array, after its bracket or a comma. -/
def readItems (steps depth : Nat) : Reader (List Value) := fun cs =>
  match steps with
  | 0 => none
  | steps + 1 =>
    match dropBetween false cs with
    | ']' :: rest => some ([], rest)
    | cs => do
      let (item, rest) ← readValue steps depth cs
      match dropBetween false rest with
      | ',' :: rest => do
        let (items, rest) ← readItems steps depth rest
        some (item :: items, rest)
      | ']' :: rest => some ([item], rest)
      | _ => none

/-- The entries of an inline table after those already read; only a table without any may close
where an entry is due. -/
def readEntries (steps depth : Nat) (first : Bool) (entries : Entries) :
    Reader (List (String × Value)) := fun cs =>
  match steps with
  | 0 => none
  | steps + 1 =>
    match dropSpaces cs with
    | '\x7d' :: rest => if first then some ([], rest) else none
    | cs => do
      let ((path, name), rest) ← readKey cs
      let rest ← dropChar? '=' rest
      let (value, rest) ← readValue steps depth (dropSpaces rest)
      let entries ← entries.insertDotted? path name value
      match dropSpaces rest with
      | ',' :: rest => readEntries steps depth false entries rest
      | '\x7d' :: rest => some (entries.values, rest)
      | _ => none

end

def readTopValue : Reader Value := fun cs => readValue (2 * cs.length + 2) 0 cs

end DsiPanel.Toml
