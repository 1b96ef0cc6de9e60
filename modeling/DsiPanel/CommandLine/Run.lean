import DsiPanel.Bootloader.Table
import DsiPanel.CommandLine.HexDump
import DsiPanel.CommandLine.Options
import DsiPanel.Kernel.Fragment
import DsiPanel.Note.Trace
import DsiPanel.Settings.Document

/-!
# Running the command line

A dump is decoded and shown as driver text, and on demand as a bootloader table too. The steps come
one after another: settings, dump, bytes, mode, sequence, text. The first that fails ends the run
before anything is shown. The table comes last of all, so a sequence without a table still shows
its text.

The log of a run writes to the same output, and what is told of the steps comes before all that is
shown. The bytes, the mode and each operation are told on the way; the table tells nothing.

A failure is shown with what lies under it: a single cause alone, several with their numbers.
-/

namespace DsiPanel

/-- Why a run ends early. -/
structure Failure where
  message : String
  /-- What lies under it, the nearest first. -/
  causes : List String := []
deriving DecidableEq, Repr

namespace Failure

/-- A text of several lines after a mark on its first, the others aligned by `indent`. -/
def indented (mark indent text : String) : String :=
  mark ++ String.intercalate ("\n" ++ indent) ((text.toList.splitOn '\n').map String.ofList)

/-- A cause with its number. -/
def numbered (index : Nat) (cause : String) : String :=
  let digits := (Nat.toDigits 10 index).leftpad 5 ' '
  indented (String.ofList digits ++ ": ") "       " cause

def report (f : Failure) : String :=
  let causes := match f.causes with
    | [] => ""
    | [cause] => "\n\nCaused by:\n" ++ indented "    " "    " cause
    | causes =>
      "\n\nCaused by:\n" ++
        String.intercalate "\n" (causes.zipIdx.map fun (cause, index) => numbered index cause)
  s!"Error: {f.message}{causes}\n"

/-- The failure of something that was done for another end. -/
def under (context : String) (f : Failure) : Failure :=
  { message := context, causes := f.message :: f.causes }

def ofSettings (e : SettingsError) : Failure := { message := e.message, causes := e.cause?.toList }

def ofDecode (e : DecodeError) : Failure := { message := e.message }

def ofSynthesis (e : SynthesisError) : Failure := { message := e.message }

def ofHex (fault : HexFault) : Failure :=
  { message := "invalid hex dump", causes := [fault.message] }

end Failure

/-- What a run writes, and how it ends. -/
structure Outcome where
  exitCode : Nat
  /-- What the log writes, and what is shown after it. -/
  output : String
  errors : String
deriving DecidableEq, Repr

/-- A result with its error as a failure. -/
def orFail {ε α : Type} (failure : ε → Failure) : Except ε α → Except Failure α
  | .ok a => .ok a
  | .error e => .error (failure e)

namespace Options

/-- The settings of a run: from the file that is named, else from the usual file and the variables;
then what the command line itself says. -/
def settings (o : Options) (around : Surroundings) : Except Failure Settings := do
  let s ← match o.config with
    | some path =>
      orFail (fun e => (Failure.ofSettings e).under s!"loading {path}") (Settings.ofFile around path)
    | none => orFail Failure.ofSettings (Settings.load around)
  pure
    { s with
      ignoreWait := o.ignoreWait.getD s.ignoreWait
      conservative := o.conservative || s.conservative }

def dumpText (o : Options) (around : Surroundings) : Except Failure String :=
  match o.file, o.dump with
  | some path, _ =>
    orFail (fun fault => { message := s!"reading {path}", causes := [fault.message] })
      (textOf (around.read path))
  | none, some dump => .ok dump
  | none, none => .error { message := "no command array given, pass a hex string or --file" }

/-- The bytes that the dump writes. -/
def dumpBytes (o : Options) (around : Surroundings) : Except Failure Bytes := do
  let dump ← o.dumpText around
  orFail Failure.ofHex (readDump dump)

/-- The text for the mode as a property gives it, with a zero byte at its end. -/
def modeProperty (o : Options) : Bytes := encodeUtf8 o.modeText ++ [0]

/-- The mode of the sequence. -/
def mode (o : Options) : Except DecodeError SignalingMode := SignalingMode.ofProperty o.modeProperty

end Options

/-- The text of a sequence as it is shown. -/
def showFragment (s : CommandSequence) (fragment : Fragment) : String :=
  s!"/* {s.name} sequence */\n" ++
    String.join (fragment.features.toList.map fun f => f.declaration ++ "\n") ++
    "\n" ++ s.mode.switchStatement ++ "\n" ++ fragment.text

namespace Options

/-- The sequence of a run and its text. -/
def fragment (o : Options) (around : Surroundings) : Except Failure (CommandSequence × Fragment) := do
  let settings ← o.settings around
  let bytes ← o.dumpBytes around
  let mode ← orFail Failure.ofDecode o.mode
  let sequence ← orFail Failure.ofDecode (CommandSequence.decode o.sequenceName mode [bytes])
  let fragment ← orFail Failure.ofSynthesis (sequence.synthesize settings)
  pure (sequence, fragment)

/-- What is told of decoding the bytes of a run and of turning them into text. -/
def sequenceNotes (o : Options) (settings : Settings) (bytes : Bytes) (mode : SignalingMode) :
    List Note :=
  .decoding o.sequenceName bytes.length mode ::
    CommandSequence.decodeNotes o.sequenceName mode [bytes] ++
      match CommandSequence.decode o.sequenceName mode [bytes] with
      | .error _ => []
      | .ok sequence =>
        sequence.operations.zipIdx.map (fun (op, index) => .listed index op) ++
          sequence.notes settings

/-- What is told on the way to the text, up to the step that fails. -/
def notes (o : Options) (around : Surroundings) : List Note :=
  (if o.config.isSome then [] else Settings.loadNotes around) ++
    match o.settings around, o.dumpBytes around with
    | .ok settings, .ok bytes =>
      SignalingMode.propertyNotes o.modeProperty ++
        match o.mode with
        | .error _ => []
        | .ok mode => o.sequenceNotes settings bytes mode
    | _, _ => []

def run (o : Options) (around : Surroundings) : Outcome :=
  let logged := around.logged (o.notes around)
  match o.fragment around with
  | .error failure => { exitCode := 1, output := logged, errors := failure.report }
  | .ok (sequence, fragment) =>
    let shown := logged ++ showFragment sequence fragment
    match o.panel with
    | none => { exitCode := 0, output := shown, errors := "" }
    | some panel =>
      match sequence.table panel with
      | .ok table => { exitCode := 0, output := shown ++ "\n" ++ table ++ "\n", errors := "" }
      | .error e => { exitCode := 1, output := shown, errors := (Failure.ofSynthesis e).report }

/-- The paths that a run may read. -/
def paths (o : Options) (lookup : String → Option String) : List String :=
  [o.config.getD ((lookup Settings.pathVariable).getD Settings.standardPath)] ++ o.file.toList

end Options

/-- The outcome of a command line that breaks a rule. -/
def usageOutcome : Outcome :=
  { exitCode := 2, output := "", errors := "error: the command line cannot be read\n" }

def runWords (around : Surroundings) (words : List String) : Outcome :=
  match Options.ofWords? words with
  | none => usageOutcome
  | some o => o.run around

end DsiPanel
