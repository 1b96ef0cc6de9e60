import DsiPanel.Kernel.Synthesis
import DsiPanel.Proofs.Dcs.Matching

/-!
# What operations are turned into

The text of a statement is judged by what stands in it, so the laws about text need to know which
functions are called, with which arguments, and what names reach a message. All of it comes from two
tables and a handful of fixed names: a call made for an operation calls one of `kernelFunctions`, its
arguments are literals or names (`IsArgument`), and its subject is the name of a command or
transaction (`Operation.action_plain`).

What a DCS payload resolves to is known from `resolve_eq_matched_iff`, so the tests of matching are not walked
through again here.
-/

namespace DsiPanel

/-- The function that is called for a write without any byte. -/
def WriteFamily.bareFunction : WriteFamily → String
  | generic => "mipi_dsi_generic_write"
  | dcs => "mipi_dsi_dcs_write_buffer"

/-- What becomes of a write: the bytes as they are, a call for the missing payload, and for a DCS write
also the command by its name or a call of the command's helper. -/
inductive WriteForm (conservative : Bool) (transaction : Transaction) :
    WriteFamily → Bytes → Action → Prop
  | raw (family : WriteFamily) {payload : Bytes} (ne : payload ≠ []) :
      WriteForm conservative transaction family payload (.writeBytes family payload)
  | missing (family : WriteFamily) :
      WriteForm conservative transaction family [] (emptyWrite family.bareFunction transaction)
  | named (command : DcsCommand) (arguments : Bytes) :
      WriteForm conservative transaction .dcs (command.opcode :: arguments)
        (.writeCommand command arguments)
  | helper {command : DcsCommand} {arguments : Bytes} {literals : List String} {function : String}
      (through : conservative = true → command.isConservative = true)
      (fits : command.arity.accepts arguments.length = true)
      (decoded : command.codec.decode arguments = .ok literals)
      (found : command.helper? = some function) :
      WriteForm conservative transaction .dcs (command.opcode :: arguments)
        (.call { function, arguments := literals, subject := command.name })

theorem genericAction_spec (conservative : Bool) (transaction : Transaction) (payload : Bytes) :
    WriteForm conservative transaction .generic payload (genericAction transaction payload) := by
  cases payload with
  | nil => exact .missing .generic
  | cons byte rest => exact .raw .generic (List.cons_ne_nil byte rest)

theorem commandAction_spec (conservative : Bool) (transaction : Transaction) (payload : Bytes) :
    WriteForm conservative transaction .dcs payload (commandAction conservative transaction payload) := by
  unfold commandAction
  split
  next command literals resolved =>
    obtain ⟨arguments, rfl, through, fits, decoded⟩ := resolve_eq_matched_iff.mp resolved
    split
    next function found => exact .helper through fits decoded found
    next => exact .named command arguments
  next =>
    cases payload with
    | nil => exact .missing .dcs
    | cons byte rest => exact .raw .dcs (List.cons_ne_nil byte rest)

/-! ## Functions, arguments and subjects -/

/-- The functions whose result is checked. -/
def kernelFunctions : List String :=
  ["mipi_dsi_generic_write", "mipi_dsi_dcs_write_buffer", "mipi_dsi_turn_on_peripheral",
    "mipi_dsi_shutdown_peripheral", "mipi_dsi_compression_mode"] ++ DcsCommand.all.filterMap (·.helper?)

/-- The names that stand as arguments. -/
def argumentNames : List String :=
  [TearMode.vertical.identifier, TearMode.verticalAndHorizontal.identifier, "NULL", "0", "true", "false"]

/-- A literal, or one of the names. -/
inductive IsArgument : String → Prop
  | literal (width value : Nat) : IsArgument (hexLiteral width value)
  | name {text : String} (h : text ∈ argumentNames) : IsArgument text

/-- What is said of every call that is made for an operation. -/
structure Call.Plain (c : Call) : Prop where
  function : c.function ∈ kernelFunctions
  arguments : ∀ text ∈ c.arguments, IsArgument text
  subject : IsWord c.subject

/-- What is said of every action that is made for an operation. -/
inductive Action.Plain : Action → Prop
  | call {c : Call} (h : c.Plain) : Action.Plain (.call c)
  | writeBytes (family : WriteFamily) (payload : Bytes) : Action.Plain (.writeBytes family payload)
  | writeCommand (command : DcsCommand) (arguments : Bytes) :
      Action.Plain (.writeCommand command arguments)
  | ignored {transaction : Transaction} (h : transaction.strategy = .ignore) :
      Action.Plain (.ignored transaction)
  | unknown (opcode : UInt8) : Action.Plain (.unknown opcode)

/-- How the names of sleep functions start. -/
def sleepPrefixes : List (List Char) := [['m', 's'], ['u', 's']]

-- Tables are gone through row by row, with each text as the list that it is spelled out of. Deciding
-- the same of the texts themselves would unfold the bytes of every one of them.

/-- The functions are named in small letters, and no name has in it what starts a sleep. -/
theorem kernelFunctions_spelled {function : String} (h : function ∈ kernelFunctions) :
    ∃ cs, function = String.ofList cs ∧ (∀ c ∈ cs, isWordChar c = true ∧ c.isUpper = false) ∧
      ∀ start ∈ sleepPrefixes, ¬ start <:+: cs := by
  rcases List.mem_append.mp h with direct | helper
  · simp only [List.mem_cons, List.not_mem_nil, or_false] at direct
    rcases direct with rfl | rfl | rfl | rfl | rfl <;> exact ⟨_, rfl, by decide, by decide⟩
  · obtain ⟨command, -, found⟩ := List.mem_filterMap.mp helper
    cases command <;> cases found <;> exact ⟨_, rfl, by decide, by decide⟩

theorem mem_kernelFunctions {function : String} (h : function ∈ kernelFunctions) {c : Char}
    (hc : c ∈ function.toList) : isWordChar c = true ∧ c.isUpper = false := by
  obtain ⟨cs, rfl, small, -⟩ := kernelFunctions_spelled h
  rw [String.toList_ofList] at hc
  exact small c hc

theorem kernelFunctions_not_sleep {function : String} (h : function ∈ kernelFunctions)
    {start : List Char} (hs : start ∈ sleepPrefixes) : ¬ start <:+: function.toList := by
  obtain ⟨cs, rfl, -, awake⟩ := kernelFunctions_spelled h
  rw [String.toList_ofList]
  exact awake start hs

/-- The commands are named in capital letters. -/
theorem DcsCommand.name_spelled (command : DcsCommand) :
    ∃ cs, command.name = String.ofList cs ∧ cs.length ≤ 23 ∧
      ∀ c ∈ cs, isWordChar c = true ∧ c.isLower = false := by
  cases command <;> exact ⟨_, rfl, by decide, by decide⟩

theorem DcsCommand.mem_name {command : DcsCommand} {c : Char} (hc : c ∈ command.name.toList) :
    isWordChar c = true ∧ c.isLower = false := by
  obtain ⟨cs, name, -, capital⟩ := command.name_spelled
  rw [name, String.toList_ofList] at hc
  exact capital c hc

theorem DcsCommand.length_name_le (command : DcsCommand) : command.name.length ≤ 23 := by
  obtain ⟨cs, name, short, -⟩ := command.name_spelled
  rw [name, String.length_ofList]
  exact short

theorem DcsCommand.name_isWord (c : DcsCommand) : IsWord c.name := fun _ hc => (DcsCommand.mem_name hc).1

theorem DcsCommand.mem_identifier {command : DcsCommand} {c : Char}
    (hc : c ∈ command.identifier.toList) : isWordChar c = true ∧ c.isLower = false := by
  rw [DcsCommand.identifier, String.toList_append, List.mem_append] at hc
  rcases hc with mark | name
  · have all : ∀ c ∈ "MIPI_DCS_".toList, isWordChar c = true ∧ c.isLower = false := by decide
    exact all c mark
  · exact DcsCommand.mem_name name

theorem DcsCommand.identifier_isWord (c : DcsCommand) : IsWord c.identifier :=
  fun _ hc => (DcsCommand.mem_identifier hc).1

theorem IsArgument.isWord {text : String} (h : IsArgument text) : IsWord text := by
  cases h with
  | literal width value => exact hexLiteral_isWord width value
  | name h =>
    simp only [argumentNames, List.mem_cons, List.not_mem_nil, or_false] at h
    rcases h with rfl | rfl | rfl | rfl | rfl | rfl <;> exact isWord_ofList (by decide)

/-- The names of transactions that a driver can send. -/
theorem Transaction.name_isWord {t : Transaction} (h : t.strategy ≠ .unsupported) : IsWord t.name := by
  cases t <;> first | exact absurd rfl h | exact isWord_ofList (by decide)

/-- A name in plain words has blanks, and else only what stands in names, but no capital letter. -/
theorem mem_inWords {name : String} (h : IsWord name) {c : Char} (hc : c ∈ (inWords name).toList) :
    c = ' ' ∨ isWordChar c = true ∧ c.isUpper = false := by
  rw [inWords, String.toList_ofList, List.mem_map] at hc
  obtain ⟨own, mem, rfl⟩ := hc
  split
  · exact .inl rfl
  · exact .inr (isWordChar_toLower (h own mem))

theorem helper_mem_kernelFunctions {c : DcsCommand} {function : String} (h : c.helper? = some function) :
    function ∈ kernelFunctions :=
  List.mem_append_right _ (List.mem_filterMap.mpr ⟨c, c.mem_all, h⟩)

/-- Argument literals are plain arguments, in every codec. -/
theorem isArgument_of_decode {codec : ArgumentCodec} {arguments : Bytes} {literals : List String}
    (h : codec.decode arguments = .ok literals) : ∀ text ∈ literals, IsArgument text := by
  unfold ArgumentCodec.decode at h
  split at h
  · cases h
    intro text mem
    obtain ⟨b, _, rfl⟩ := List.mem_map.mp mem
    exact .literal 1 b.toNat
  · contradiction
  · cases h
    intro text mem
    obtain ⟨group, _, rfl⟩ := List.mem_map.mp mem
    exact .literal _ _
  · contradiction
  · split at h
    next mode _ =>
      cases h
      intro text mem
      rw [List.mem_singleton] at mem
      subst mem
      refine .name ?_
      cases mode <;> simp [argumentNames]
    · contradiction

/-- What becomes of a write is plain. -/
theorem WriteForm.plain {conservative : Bool} {transaction : Transaction} {family : WriteFamily}
    {payload : Bytes} {action : Action} (supported : transaction.strategy ≠ .unsupported)
    (h : WriteForm conservative transaction family payload action) : action.Plain := by
  cases h with
  | raw => exact .writeBytes family payload
  | missing =>
    refine .call ⟨?_, ?_, Transaction.name_isWord supported⟩
    · cases family <;> simp [kernelFunctions, WriteFamily.bareFunction]
    · intro text mem
      refine .name ?_
      simp only [List.mem_cons, List.not_mem_nil, or_false] at mem
      rcases mem with rfl | rfl <;> simp [argumentNames]
  | named command arguments => exact .writeCommand command arguments
  | helper _ _ decoded found =>
    exact .call ⟨helper_mem_kernelFunctions found, isArgument_of_decode decoded, DcsCommand.name_isWord _⟩

/-- What is done for a transaction is plain. -/
theorem Transaction.action?_plain {conservative : Bool} {payload : Bytes} {t : Transaction}
    {action : Action} (h : t.action? conservative payload = some action) : action.Plain := by
  unfold Transaction.action? at h
  split at h
  next generic =>
    cases h
    exact (genericAction_spec conservative t payload).plain (by simp [generic])
  next command =>
    cases h
    exact (commandAction_spec conservative t payload).plain (by simp [command])
  next peripheral =>
    cases h
    refine .call ⟨?_, fun _ mem => absurd mem List.not_mem_nil, t.name_isWord (by simp [peripheral])⟩
    show (if t = .turnOnPeripheral then _ else _) ∈ kernelFunctions
    split <;> simp [kernelFunctions]
  next =>
    cases h
    refine .call ⟨by simp [kernelFunctions], ?_, Transaction.name_isWord (by decide)⟩
    intro text mem
    rw [List.mem_singleton] at mem
    subst mem
    refine .name ?_
    split <;> simp [argumentNames]
  next ignored =>
    cases h
    exact .ignored ignored
  next => contradiction

/-- What is done for an operation is a comment on its opcode, or what is done for its transaction. -/
theorem Operation.action_ok_cases {conservative : Bool} {index : Nat} {op : Operation} {action : Action}
    (h : op.action conservative index = .ok action) :
    action = .unknown op.opcode ∨
      ∃ t : Transaction, t.opcode = op.opcode ∧ t.action? conservative op.payload = some action := by
  unfold Operation.action at h
  split at h
  next =>
    cases h
    exact .inl rfl
  next t known =>
    split at h
    next found =>
      cases h
      exact .inr ⟨t, (Transaction.ofOpcode?_eq_some_iff op.opcode t).mp known, found⟩
    next => contradiction

/-- What is done for an operation is plain. -/
theorem Operation.action_plain {conservative : Bool} {index : Nat} {op : Operation} {action : Action}
    (h : op.action conservative index = .ok action) : action.Plain := by
  rcases Operation.action_ok_cases h with rfl | ⟨t, -, found⟩
  · exact .unknown op.opcode
  · exact Transaction.action?_plain found

end DsiPanel
