import DsiPanel.Text.Hexadecimal
import DsiPanel.Toml.Value

/-!
# TOML text

Blanks, line ends, comments and the four forms of strings. A blank is a space or a tab, and a line
ends with a line feed that a carriage return may precede; a carriage return elsewhere, like any
other control character but the tab, is an error.

A string in three quotes may run over lines. The line end after its opening is no part of it, one or
two quotes inside it are, and as many may stand right before the three that close it.
-/

namespace DsiPanel.Toml

/-! ## Blanks and lines -/

def isSpace (c : Char) : Bool := c = ' ' || c = '\t'

/-- A character that may stand in comments and strings as it is. -/
def isPlain (c : Char) : Bool := c = '\t' || (0x20 ≤ c.toNat && c.toNat != 0x7f)

def dropSpaces (cs : List Char) : List Char := cs.dropWhile isSpace

/-- The text after a line end. -/
def dropLineEnd? : List Char → Option (List Char)
  | '\n' :: rest => some rest
  | '\r' :: '\n' :: rest => some rest
  | _ => none

/-- The text after a comment, from the line end on. -/
def dropComment (cs : List Char) : List Char := cs.dropWhile isPlain

/-- The text after the end of a line on which nothing but a comment is left. -/
def dropLineTail? (cs : List Char) : Option (List Char) :=
  let rest := match dropSpaces cs with
    | '#' :: comment => dropComment comment
    | rest => rest
  if rest.isEmpty then some [] else dropLineEnd? rest

/-- The text after blanks, line ends and comments, as they may stand between the items of an
array. A carriage return without its line feed is left for the reader of the next item. -/
def dropBetween (inComment : Bool) : List Char → List Char
  | [] => []
  | '\r' :: '\n' :: rest => dropBetween false rest
  | c :: rest =>
    if c = '\n' then dropBetween false rest
    else if inComment then if isPlain c then dropBetween true rest else c :: rest
    else if isSpace c then dropBetween false rest
    else if c = '#' then dropBetween true rest
    else c :: rest

/-! ## Strings on one line -/

def shortEscape? : Char → Option Char
  | 'b' => some '\x08'
  | 't' => some '\t'
  | 'n' => some '\n'
  | 'f' => some '\x0c'
  | 'r' => some '\r'
  | '"' => some '"'
  | '\\' => some '\\'
  | _ => none

/-- One more character in front of what is read. -/
def consRead (c : Char) (read : Option (List Char × List Char)) :
    Option (List Char × List Char) :=
  read.map fun (text, rest) => (c :: text, rest)

/-- A string in double quotes, after the first of them. -/
def readBasic : Reader (List Char)
  | [] => none
  | '"' :: rest => some ([], rest)
  | '\\' :: 'u' :: a :: b :: c :: d :: rest =>
    (readCodePoint? [a, b, c, d]).bind fun x => consRead x (readBasic rest)
  | '\\' :: 'U' :: a :: b :: c :: d :: e :: f :: g :: h :: rest =>
    (readCodePoint? [a, b, c, d, e, f, g, h]).bind fun x => consRead x (readBasic rest)
  | '\\' :: c :: rest => (shortEscape? c).bind fun x => consRead x (readBasic rest)
  | c :: rest => if isPlain c then consRead c (readBasic rest) else none

/-- A string in single quotes, after the first of them. -/
def readLiteral : Reader (List Char)
  | [] => none
  | '\'' :: rest => some ([], rest)
  | c :: rest => if isPlain c then consRead c (readLiteral rest) else none

/-! ## Strings over several lines -/

/-- The quotes that still belong to a string after three of them: two at most. -/
def closeQuotes (quote : Char) (rest : List Char) : List Char × List Char :=
  let extra := (rest.take 2).takeWhile (· = quote)
  (extra, rest.drop extra.length)

/-- Nothing but blanks is left on the line. -/
def onlySpacesLeft (cs : List Char) : Bool := (dropLineEnd? (dropSpaces cs)).isSome

/-- A string in three double quotes, after its opening. `joining` holds while the blanks and line
ends after a backslash at a line's end are passed over. -/
def readBasicLines (joining : Bool) : Reader (List Char)
  | [] => none
  | '"' :: '"' :: '"' :: rest => some (closeQuotes '"' rest)
  | '\r' :: '\n' :: rest =>
    if joining then readBasicLines true rest else consRead '\n' (readBasicLines false rest)
  | '\\' :: 'u' :: a :: b :: c :: d :: rest =>
    (readCodePoint? [a, b, c, d]).bind fun x => consRead x (readBasicLines false rest)
  | '\\' :: 'U' :: a :: b :: c :: d :: e :: f :: g :: h :: rest =>
    (readCodePoint? [a, b, c, d, e, f, g, h]).bind fun x => consRead x (readBasicLines false rest)
  | '\\' :: c :: rest =>
    match shortEscape? c with
    | some x => consRead x (readBasicLines false rest)
    | none => if onlySpacesLeft (c :: rest) then readBasicLines true (c :: rest) else none
  | c :: rest =>
    if joining && (isSpace c || c = '\n') then readBasicLines true rest
    else if c = '\n' || isPlain c then consRead c (readBasicLines false rest)
    else none

/-- A string in three single quotes, after its opening. -/
def readLiteralLines : Reader (List Char)
  | [] => none
  | '\'' :: '\'' :: '\'' :: rest => some (closeQuotes '\'' rest)
  | '\r' :: '\n' :: rest => consRead '\n' (readLiteralLines rest)
  | c :: rest =>
    if c = '\n' || isPlain c then consRead c (readLiteralLines rest) else none

def readString : Reader String := fun cs =>
  let read := match cs with
    | '"' :: '"' :: '"' :: rest => readBasicLines false ((dropLineEnd? rest).getD rest)
    | '"' :: rest => readBasic rest
    | '\'' :: '\'' :: '\'' :: rest => readLiteralLines ((dropLineEnd? rest).getD rest)
    | '\'' :: rest => readLiteral rest
    | _ => none
  read.map fun (text, rest) => (String.ofList text, rest)

end DsiPanel.Toml
