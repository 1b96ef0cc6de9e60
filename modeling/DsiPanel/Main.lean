import DsiPanel.CommandLine.Run

/-!
# The program

Variables and files are read before the run, so that the run itself is a function of them. No log is
kept.
-/

open DsiPanel

/-- What the system says about a file that could not be read. -/
def readFault : IO.Error → ReadFault
  | .noFileOrDirectory .. => .notFound
  | .inappropriateType _ code details => ofCode code.toNat details
  | .otherError code details => ofCode code.toNat details
  | e => .other (toString e)
where
  ofCode (code : Nat) (details : String) : ReadFault :=
    if code = 20 then .notDirectory
    else if code = 21 then .isDirectory
    else .other s!"{details} (os error {code})"

def readPath (path : String) : IO (Except ReadFault Bytes) := do
  try
    let bytes ← IO.FS.readBinFile path
    pure (.ok bytes.data.toList)
  catch e => pure (.error (readFault e))

/-- A path is there if it can be followed to its end. -/
def findPath (path : String) : IO Bool := do
  try
    let _ ← IO.FS.realPath path
    pure true
  catch _ => pure false

/-- The variables that a run asks for. -/
def variableNames : List String :=
  Settings.pathVariable :: SettingsField.all.map SettingsField.variableName

def main (words : List String) : IO UInt32 := do
  let values ← variableNames.mapM fun name => do pure (name, ← IO.getEnv name)
  let lookup (name : String) : Option String := (values.lookup name).join
  let paths := match Options.ofWords? words with
    | none => []
    | some o => o.paths lookup
  let files ← paths.mapM fun path => do pure (path, ← readPath path)
  let found ← paths.mapM fun path => do pure (path, ← findPath path)
  let read (path : String) : Except ReadFault Bytes :=
    (files.lookup path).getD (.error .notFound)
  let isThere (path : String) : Bool := (found.lookup path).getD false
  let outcome := runWords { lookup, read, isThere, log := .off } words
  IO.print outcome.output
  IO.eprint outcome.errors
  pure (UInt32.ofNat outcome.exitCode)
