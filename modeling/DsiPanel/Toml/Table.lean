import DsiPanel.Toml.Value

/-!
# TOML tables

A table grows line by line, and how it came to be says what may still be added to it. A header
makes a table once, though the tables on its path may be made by later lines too. A dotted key
makes the tables on its path, and only dotted keys add to those. A list of tables grows by its own
headers alone, and what else is added goes into its last table. A value is never added to.
-/

namespace DsiPanel.Toml

/-- How a table came to be. -/
inductive Origin where
  /-- By a header of its own. -/
  | header
  /-- On the path of a header. -/
  | path
  /-- On the path of a dotted key. -/
  | dotted
deriving DecidableEq, Repr

inductive Node where
  | value (value : Value)
  | table (origin : Origin) (entries : List (String × Node))
  /-- The tables of a list, the last of them first. -/
  | tables (last : List (String × Node)) (earlier : List (List (String × Node)))

/-- The keys of a table with what stands under them. -/
abbrev Entries := List (String × Node)

namespace Entries

def find? (entries : Entries) (key : String) : Option Node := entries.lookup key

/-- The entries with something else under a key, or with one more key. -/
def put (entries : Entries) (key : String) (node : Node) : Entries :=
  if (entries.lookup key).isSome then
    entries.map fun (name, old) => if name = key then (name, node) else (name, old)
  else entries ++ [(key, node)]

/-- The entries changed at the end of a path. Tables that are missing on the way are made; `dotted`
says whether the path is that of a dotted key. -/
def changeAt? (dotted : Bool) (change : Origin → Entries → Option Entries) :
    List String → Origin → Entries → Option Entries
  | [], origin, entries => change origin entries
  | key :: path, _, entries =>
    match entries.find? key with
    | none => do
      let origin := if dotted then Origin.dotted else Origin.path
      let child ← changeAt? dotted change path origin []
      some (entries.put key (.table origin child))
    | some (.value _) => none
    | some (.table origin child) => do
      if dotted && origin = .header then none
      let child ← changeAt? dotted change path origin child
      some (entries.put key (.table origin child))
    | some (.tables last earlier) => do
      let last ← changeAt? dotted change path .header last
      some (entries.put key (.tables last earlier))

/-- The entries with a value under a dotted key. A table on the way that a header has made, in
whatever way, is closed to dotted keys. -/
def insertDotted? (path : List String) (name : String) (value : Value) (entries : Entries) :
    Option Entries :=
  changeAt? true
    (fun origin entries =>
      if (!path.isEmpty && origin != .dotted) || (entries.find? name).isSome then none
      else some (entries ++ [(name, .value value)]))
    path .header entries

/-- The entries with the table of a header. -/
def insertTable? (path : List String) (name : String) (entries : Entries) : Option Entries :=
  changeAt? false
    (fun _ entries =>
      match entries.find? name with
      | none => some (entries.put name (.table .header []))
      | some (.table .path children) => some (entries.put name (.table .header children))
      | some _ => none)
    path .header entries

/-- The entries with one more table in the list of a header. -/
def appendTable? (path : List String) (name : String) (entries : Entries) : Option Entries :=
  changeAt? false
    (fun _ entries =>
      match entries.find? name with
      | none => some (entries.put name (.tables [] []))
      | some (.tables last earlier) => some (entries.put name (.tables [] (last :: earlier)))
      | some _ => none)
    path .header entries

/-- The entries with a value in the table of a header, under a dotted key. -/
def insertUnder? (header path : List String) (name : String) (value : Value) (entries : Entries) :
    Option Entries :=
  changeAt? false (fun _ entries => entries.insertDotted? path name value) header .header entries

end Entries

mutual

def Node.toValue : Node → Value
  | .value value => value
  | .table _ entries => .inlineTable (entryValues entries)
  | .tables last earlier => .array (tableValues earlier ++ [.inlineTable (entryValues last)])

def entryValues : List (String × Node) → List (String × Value)
  | [] => []
  | (key, node) :: rest => (key, node.toValue) :: entryValues rest

/-- The tables of a list, the last of them first, in their order. -/
def tableValues : List (List (String × Node)) → List Value
  | [] => []
  | last :: earlier => tableValues earlier ++ [.inlineTable (entryValues last)]

end

def Entries.values (entries : Entries) : List (String × Value) := entryValues entries

end DsiPanel.Toml
