import DsiPanel.Text.Utf8

/-!
# Files

What reading a file by its path can give, and a directory of files that is held in memory. Paths
are those of a Unix system, taken from the directory: a file may stand in further directories, which
are there when a file in them is. A path goes to a file only at its very end, so a file with a
slash after it is no directory.

What lies outside the directory is not known: no file is found there.
-/

namespace DsiPanel

/-- Why a path gives no text. -/
inductive ReadFault where
  | notFound
  | isDirectory
  | notDirectory
  /-- The bytes of the file hold no text. -/
  | invalidText
  /-- Another fault, in the words of the system. -/
  | other (message : String)
deriving DecidableEq, Repr

def ReadFault.message : ReadFault → String
  | notFound => "No such file or directory (os error 2)"
  | isDirectory => "Is a directory (os error 21)"
  | notDirectory => "Not a directory (os error 20)"
  | invalidText => "stream did not contain valid UTF-8"
  | other message => message

/-- The text of a file that has been read. -/
def textOf (read : Except ReadFault Bytes) : Except ReadFault String := do
  let bytes ← read
  match decodeUtf8? bytes with
  | some text => .ok text
  | none => .error .invalidText

/-- The files of a directory by their paths in it. -/
structure Directory where
  files : List (String × Bytes)

namespace Directory

/-- The parts of a path between its slashes. -/
def pathParts (path : String) : List (List Char) := path.toList.splitOn '/'

/-- The part goes nowhere. -/
def isIdle (part : List Char) : Bool := part.isEmpty || part = ['.']

/-- The names on the path of a file of the directory. -/
def placeOf (path : String) : List (List Char) := (pathParts path).filter fun part => !isIdle part

def fileAt? (d : Directory) (place : List (List Char)) : Option Bytes :=
  (d.files.find? fun (name, _) => placeOf name = place).map Prod.snd

/-- There is a directory at a place, because a file is in it. -/
def hasDirectory (d : Directory) (place : List (List Char)) : Bool :=
  d.files.any fun (name, _) => place.isPrefixOf (placeOf name) && placeOf name != place

/-- What the parts lead to from a directory at `place`. -/
def walk (d : Directory) (place : List (List Char)) : List (List Char) → Except ReadFault Bytes
  | [] => .error .isDirectory
  | part :: rest =>
    if isIdle part then d.walk place rest
    else if part = ['.', '.'] then
      if place.isEmpty then
        if rest.all isIdle then .error .isDirectory else .error .notFound
      else d.walk place.dropLast rest
    else
      let next := place ++ [part]
      match d.fileAt? next with
      | some bytes => if rest.isEmpty then .ok bytes else .error .notDirectory
      | none => if d.hasDirectory next then d.walk next rest else .error .notFound

def read (d : Directory) (path : String) : Except ReadFault Bytes :=
  match pathParts path with
  | [[]] => .error .notFound
  | [] :: rest => if rest.all isIdle then .error .isDirectory else .error .notFound
  | parts => d.walk [] parts

end Directory

end DsiPanel
