import DsiPanel.Sequence.SignalingMode
import DsiPanel.Settings.Override
import DsiPanel.Text.Numeral

/-!
# Options

The words of a command line. An option has a long name, and some have a letter too. Its value stands
after an equals sign, right after the letter, or in the next word, which then must not look like an
option itself. Two hyphens alone end the options. No option may stand twice; of the dump and the
file to read it from there may be one at most. A command line that breaks a rule has no options at
all.
-/

namespace DsiPanel

/-- An option of the command line. -/
inductive OptionName where
  | file
  | name
  | state
  | config
  | ignoreWait
  | conservative
  | panel
deriving DecidableEq, Repr

namespace OptionName

def all : List OptionName := [file, name, state, config, ignoreWait, conservative, panel]

/-- The name after two hyphens. -/
def long : OptionName → String
  | file => "file"
  | name => "name"
  | state => "state"
  | config => "config"
  | ignoreWait => "ignore-wait"
  | conservative => "conservative-dcs"
  | panel => "lk"

/-- The letter after one hyphen. -/
def letter? : OptionName → Option Char
  | file => some 'f'
  | name => some 'n'
  | config => some 'c'
  | _ => none

/-- The option is followed by a value. -/
def takesValue : OptionName → Bool
  | conservative => false
  | _ => true

def ofLong? (text : List Char) : Option OptionName := all.find? (·.long.toList == text)

def ofLetter? (c : Char) : Option OptionName := all.find? (·.letter? == some c)

end OptionName

/-- What a command line asks for. -/
structure Options where
  /-- The dump that stands on the command line. -/
  dump : Option String := none
  /-- The file to read the dump from. -/
  file : Option String := none
  name : Option String := none
  state : Option String := none
  /-- The file of settings. -/
  config : Option String := none
  ignoreWait : Option Nat := none
  conservative : Bool := false
  /-- The panel to make a bootloader table for. -/
  panel : Option String := none
deriving DecidableEq, Repr

/-- The word may not stand for a value: it begins an option. -/
def looksLikeOption (word : String) : Bool :=
  match word.toList with
  | '-' :: _ :: _ => true
  | _ => false

/-- The number of milliseconds that an option gives. -/
def readWait? (text : String) : Option Nat :=
  (readSigned? text).bind fun n =>
    if 0 ≤ n ∧ n < ignoreWaitBound then some n.toNat else none

namespace Options

/-- The text once, where nothing was given yet. -/
def once? (given : Option String) (text : String) : Option (Option String) :=
  if given.isSome then none else some (some text)

/-- A path once, where nothing was given yet; a path is not empty. -/
def pathOnce? (given : Option String) (text : String) : Option (Option String) :=
  if text.isEmpty then none else once? given text

/-- The options with one more that has a value. -/
def setValue? (o : Options) (text : String) : OptionName → Option Options
  | .file => (pathOnce? o.file text).map fun file => { o with file }
  | .name => (once? o.name text).map fun name => { o with name }
  | .state => (once? o.state text).map fun state => { o with state }
  | .config => (pathOnce? o.config text).map fun config => { o with config }
  | .ignoreWait =>
    if o.ignoreWait.isSome then none
    else (readWait? text).map fun n => { o with ignoreWait := some n }
  | .conservative => none
  | .panel => (once? o.panel text).map fun panel => { o with panel }

/-- The options with one more that has no value. -/
def setFlag? (o : Options) : OptionName → Option Options
  | .conservative => if o.conservative then none else some { o with conservative := true }
  | _ => none

def setDump? (o : Options) (text : String) : Option Options :=
  (once? o.dump text).map fun dump => { o with dump }

/-- The option that a word names, and the value in the word, if there is one. -/
def ofWord? (word : List Char) : Option (OptionName × Option String) :=
  match word with
  | '-' :: '-' :: rest => do
    let option ← OptionName.ofLong? (rest.takeWhile (· != '='))
    match rest.dropWhile (· != '=') with
    | _ :: value => some (option, some (String.ofList value))
    | [] => some (option, none)
  | '-' :: letter :: rest => do
    let option ← OptionName.ofLetter? letter
    match rest with
    | [] => some (option, none)
    | '=' :: value => some (option, some (String.ofList value))
    | value => some (option, some (String.ofList value))
  | _ => none

/-- The options of the words from one on that ends the options: each is a dump. -/
def readDumps? (o : Options) (words : List String) : Option Options :=
  words.foldlM setDump? o

/-- The options of the words after those already read. -/
def readWords? (o : Options) : List String → Option Options
  | [] => some o
  | word :: rest =>
    if word = "--" then o.readDumps? rest
    else if !looksLikeOption word then do
      let o ← o.setDump? word
      readWords? o rest
    else
      match ofWord? word.toList, rest with
      | none, _ => none
      | some (option, some value), rest => do
        let o ← o.setValue? value option
        readWords? o rest
      | some (option, none), rest =>
        if !option.takesValue then do
          let o ← o.setFlag? option
          readWords? o rest
        else
          match rest with
          | [] => none
          | value :: rest =>
            if looksLikeOption value then none
            else do
              let o ← o.setValue? value option
              readWords? o rest

def ofWords? (words : List String) : Option Options :=
  (readWords? {} words).filter fun o => o.dump.isNone || o.file.isNone

def sequenceName (o : Options) : String := o.name.getD "on"

def modeText (o : Options) : String := o.state.getD SignalingMode.standard.vendorName

end Options

end DsiPanel
