/-!
# TOML values

What stands after the equals sign of a TOML line. Settings hold whole numbers and truth values; the
other kinds are read so that a line that nobody asks for is still told from one that is broken.
Numbers with a fraction and dates keep the text they were written in.
-/

namespace DsiPanel.Toml

inductive Value where
  | string (text : String)
  | integer (value : Int)
  | float (text : String)
  | boolean (value : Bool)
  | dateTime (text : String)
  | array (items : List Value)
  | inlineTable (entries : List (String × Value))
deriving Repr

/-- What is read from the front of a text, and the text after it. -/
abbrev Reader (α : Type) := List Char → Option (α × List Char)

end DsiPanel.Toml
