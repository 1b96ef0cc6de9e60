import DsiPanel.Text.Column
import DsiPanel.Text.Filling

/-!
# Wrapped lists

A list of items after an opening text stands on one line when it fits. Otherwise it is wrapped, and
every further line is aligned under the end of the opening. One item may be asked to start a line
of its own as soon as the list is wrapped at all. An item that is wider than what is left of the
width still gets its line.

What a piece asks of a line is the width of its item and the bytes of the mark after it; what it
then takes is the width of both. The two differ only where a mark is no plain text.
-/

namespace DsiPanel

/-- The texts around and between the items of a list. -/
structure ListFrame where
  /-- Stands before the first item. -/
  opening : String
  /-- Stands after every item but the last. -/
  separator : String
  /-- Stands after the last item. -/
  closing : String
deriving DecidableEq, Repr

/-- An item of a wrapped list with the mark that follows it. -/
structure Piece where
  item : String
  mark : String
  /-- The piece starts a new line. -/
  forced : Bool
deriving DecidableEq, Repr

namespace Piece

def text (p : Piece) : String := p.item ++ p.mark

/-- What the piece asks of a line before it is put there. -/
def demand (p : Piece) : Nat := textWidth p.item + p.mark.utf8ByteSize

end Piece

/-- Pieces are put on a line with a space between them while they fit into `budget`. A line that
holds no character yet takes any piece, and without a space. -/
def wrapRule (budget : Nat) : FillRule Piece where
  breaks used p := used != 0 && (p.forced || decide (budget < used + 1 + p.demand))
  grown used p := if used = 0 then textWidth p.text else used + 1 + textWidth p.text
  fresh p := textWidth p.text

/-- The texts of a line with one space between neighbours. A text that meets a line without a
character is put there without the space. -/
def lineText (texts : List String) : String :=
  texts.foldl (fun line text => if line.isEmpty then text else line ++ " " ++ text) ""

namespace ListFrame

def single (frame : ListFrame) (items : List String) : String :=
  frame.opening ++ String.intercalate (frame.separator ++ " ") items ++ frame.closing

/-- The items with their marks; the item at `force` starts a line. -/
def pieces (frame : ListFrame) (force : Option Nat) (items : List String) : List Piece :=
  let count := items.length
  items.zipIdx.map fun (item, i) =>
    { item
      mark := if i + 1 = count then frame.closing else frame.separator
      forced := force = some i }

/-- The lines of the wrapped list, each as the pieces on it. -/
def layout (frame : ListFrame) (force : Option Nat) (width : Nat) (items : List String) :
    List (List Piece) :=
  (wrapRule (width - textWidth frame.opening)).fill (frame.pieces force items)

/-- The wrapped list: the opening, then the lines, each but the first after an indent as wide as
the opening. -/
def wrapped (frame : ListFrame) (force : Option Nat) (width : Nat) (items : List String) : String :=
  frame.opening ++ String.intercalate ("\n" ++ indentTo (textWidth frame.opening))
    ((frame.layout force width items).map fun line => lineText (line.map Piece.text))

/-- The list on one line if it has no item or fits into `width` columns, and wrapped otherwise. -/
def render (frame : ListFrame) (force : Option Nat) (width : Nat) (items : List String) : String :=
  let line := frame.single items
  if items.isEmpty || textWidth line ≤ width then line else frame.wrapped force width items

end ListFrame

end DsiPanel
