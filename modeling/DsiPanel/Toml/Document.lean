import DsiPanel.Toml.Reader

/-!
# TOML documents

A document is read line by line into one table: a line is blank, a comment, a header that says
where the next lines go, or a key with its value. A mark of byte order may stand before the first.
-/

namespace DsiPanel.Toml

/-- The document so far, and the header under which lines stand. -/
structure Draft where
  entries : Entries
  header : List String

/-- The line of a header, after its first bracket. -/
def readHeader (draft : Draft) : Reader Draft := fun cs =>
  match cs with
  | '[' :: cs => do
    let ((path, name), rest) ← readKey cs
    let rest ← dropWord? [']', ']'] rest
    let rest ← dropLineTail? rest
    let entries ← draft.entries.appendTable? path name
    some ({ entries, header := path ++ [name] }, rest)
  | cs => do
    let ((path, name), rest) ← readKey cs
    let rest ← dropChar? ']' rest
    let rest ← dropLineTail? rest
    let entries ← draft.entries.insertTable? path name
    some ({ entries, header := path ++ [name] }, rest)

def readEntry (draft : Draft) : Reader Draft := fun cs => do
  let ((path, name), rest) ← readKey cs
  let rest ← dropChar? '=' rest
  let (value, rest) ← readTopValue (dropSpaces rest)
  let rest ← dropLineTail? rest
  let entries ← draft.entries.insertUnder? draft.header path name value
  some ({ draft with entries }, rest)

/-- The lines of a document, each of which takes a character at least. -/
def readLines (steps : Nat) (draft : Draft) (cs : List Char) : Option Draft :=
  match steps with
  | 0 => none
  | steps + 1 =>
    match dropSpaces cs with
    | [] => some draft
    | '[' :: rest => do
      let (draft, rest) ← readHeader draft rest
      readLines steps draft rest
    | c :: rest =>
      if c = '#' || c = '\n' || c = '\r' then do
        let rest ← dropLineTail? (c :: rest)
        readLines steps draft rest
      else do
        let (draft, rest) ← readEntry draft (c :: rest)
        readLines steps draft rest

/-- The characters without a mark of byte order before them. -/
def dropOrderMark : List Char → List Char
  | '\ufeff' :: rest => rest
  | rest => rest

def read? (text : String) : Option (List (String × Value)) :=
  let cs := dropOrderMark text.toList
  (readLines (cs.length + 1) { entries := [], header := [] } cs).map fun draft =>
    draft.entries.values

end DsiPanel.Toml
