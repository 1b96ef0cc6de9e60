import DsiPanel.Proofs.Bootloader.Tables
import DsiPanel.Proofs.CommandLine.Dumps
import DsiPanel.Proofs.Text.GroupLines

/-!
# Arrays of packet bytes

The bytes of a packet are written as a list of literals, wrapped behind a tab. This module says what can be
read off the text of an array again, and how many literals stand on its lines.

**The law** (`CommandSequence.table_arrays`): a table is an array and a row for each operation, in their
order and under one name each. A dump reader finds the packet in the body of the array, no line of which
takes more than 54 columns. Up to eight bytes stand on one line. More of them stand in lines of seven
(`InSevens`): an eighth literal would fit but for its comma, so only the last literal of all, which has none,
can be the eighth on its line, and therefore it is never alone on one.

The count of literals is a matter of widths alone (`inSevens_of_rows`): rows of fives with a four at the end
that are no wider than 46 and end only where they must.
-/

namespace DsiPanel

/-! ## Lines of seven -/

/-- The counts are seven each, but for the last, which is two at least and eight at most. -/
def InSevens (counts : List Nat) : Prop :=
  ∃ full last, counts = List.replicate full 7 ++ [last] ∧ 2 ≤ last ∧ last ≤ 8

/-- What texts of these widths take on a line, with a space after each of them. -/
def spacedWidth (widths : List Nat) : Nat := (widths.map (· + 1)).sum

theorem spacedWidth_replicate (count width : Nat) :
    spacedWidth (List.replicate count width) = count * (width + 1) := by
  rw [spacedWidth, List.map_replicate, List.sum_replicate_nat]

theorem spacedWidth_append (widths others : List Nat) :
    spacedWidth (widths ++ others) = spacedWidth widths + spacedWidth others := by
  rw [spacedWidth, List.map_append, List.sum_append]
  rfl

/-- A line takes its texts with a space after each but the last. -/
theorem textWidth_intercalate {texts : List String} (ne : texts ≠ []) :
    textWidth (String.intercalate " " texts) + 1 = spacedWidth (texts.map textWidth) := by
  induction texts with
  | nil => exact absurd rfl ne
  | cons text texts ih =>
    cases texts with
    | nil =>
      rw [String.intercalate_singleton]
      rfl
    | cons next texts =>
      have space : textWidth " " = 1 := rfl
      rw [String.intercalate_cons_cons, textWidth_append, textWidth_append, space, Nat.add_assoc,
        ih (List.cons_ne_nil next texts)]
      rfl

/-- A nonempty rest of fives and a four has the four at its end, and only fives are before it. -/
theorem rest_of_fives {row rest : List Nat} {count : Nat} (ne : rest ≠ [])
    (h : row ++ rest = List.replicate count 5 ++ [4]) :
    ∃ here there, row = List.replicate here 5 ∧ rest = List.replicate there 5 ++ [4] := by
  rcases List.append_eq_append_iff.mp h with ⟨middle, fives, rfl⟩ | ⟨middle, rowFives, four⟩
  · obtain ⟨-, rowFives, middleFives⟩ := List.append_eq_replicate_iff.mp fives.symm
    exact ⟨row.length, middle.length, rowFives, by rw [← middleFives]⟩
  · rcases List.append_eq_singleton_iff.mp four.symm with ⟨rfl, rfl⟩ | ⟨-, none⟩
    · exact ⟨count, 0, by rw [rowFives, List.append_nil], rfl⟩
    · exact absurd none ne

/-- Fives and a four at the end stand in sevens, if a row of two or more stays within 46 columns and
a row ends only before what would have passed them. -/
theorem inSevens_of_rows {rows : List (List Nat)} {count : Nat} (many : 0 < count)
    (flat : rows.flatten = List.replicate count 5 ++ [4]) (ne : ∀ row ∈ rows, row ≠ [])
    (fits : ∀ row ∈ rows, 2 ≤ row.length → spacedWidth row ≤ 47)
    (full : rows.IsChain fun row next => ∀ width ∈ next.head?, 46 < spacedWidth row + width) :
    InSevens (rows.map List.length) := by
  have four : spacedWidth [4] = 5 := rfl
  induction rows generalizing count with
  | nil => exact absurd flat.symm (List.append_ne_nil_of_right_ne_nil _ (List.cons_ne_nil 4 []))
  | cons row rows ih =>
    obtain ⟨own, others⟩ := List.forall_mem_cons.mp fits
    cases rows with
    | nil =>
      rw [List.flatten_singleton] at flat
      subst flat
      rw [spacedWidth_append, spacedWidth_replicate, four, List.length_append, List.length_replicate,
        List.length_singleton] at own
      refine ⟨0, count + 1, ?_, by omega, by omega⟩
      rw [List.map_singleton, List.length_append, List.length_replicate]
      rfl
    | cons next rows =>
      obtain ⟨-, later⟩ := List.forall_mem_cons.mp ne
      obtain ⟨first, more, rfl⟩ := List.exists_cons_of_ne_nil (later next List.mem_cons_self)
      obtain ⟨ends, chain⟩ := List.isChain_cons_cons.mp full
      obtain ⟨here, there, rfl, rest⟩ := rest_of_fives (by simp) (List.flatten_cons ▸ flat)
      have wide := ends first rfl
      rw [spacedWidth_replicate] at own wide
      rw [List.length_replicate] at own
      -- A row that ends before the four would need eight fives, which are too wide for it.
      cases there with
      | zero =>
        have last : first = 4 := (List.cons.inj rest).1
        omega
      | succ there =>
        have five : first = 5 := (List.cons.inj rest).1
        obtain rfl : here = 7 := by omega
        obtain ⟨sevens, last, counts, bounds⟩ := ih (Nat.zero_lt_succ there) rest later others chain
        refine ⟨sevens + 1, last, ?_, bounds⟩
        rw [List.map_cons, counts, List.length_replicate]
        rfl

/-! ## Bodies -/

theorem packetFrame_separator : packetFrame.separator ≠ "" := by decide

theorem packetFrame_asciiMarks : packetFrame.AsciiMarks := ⟨by decide, by decide⟩

theorem packetFrame_plainMarks : packetFrame.PlainMarks :=
  ListFrame.plainMarks_of_not_mem (by decide) (by decide)

theorem packetFrame_breakless (packet : Bytes) : packetFrame.Breakless (byteLiterals packet) :=
  ⟨by decide, by decide, by decide,
    fun literal mem => (byteLiterals_isWord literal mem).not_mem (by decide)⟩

/-- A literal takes four columns, and five with its comma. -/
theorem width_marked_byteLiterals {packet : Bytes} (ne : packet ≠ []) :
    (packetFrame.marked (byteLiterals packet)).map textWidth =
      List.replicate (packet.length - 1) 5 ++ [4] := by
  obtain ⟨front, last, rfl⟩ := (List.eq_nil_or_concat' packet).resolve_left ne
  have separated (b : UInt8) : textWidth (byteLiteral b ++ packetFrame.separator) = 5 := by
    rw [textWidth_append, textWidth_byteLiteral]
    rfl
  have closed : textWidth (byteLiteral last ++ packetFrame.closing) = 4 := by
    rw [textWidth_append, textWidth_byteLiteral]
    rfl
  rw [byteLiterals, List.map_append, List.map_singleton, ListFrame.marked_append _ (List.cons_ne_nil _ _),
    ListFrame.marked, List.map_append, List.map_singleton, closed, List.map_map, List.map_map]
  simp only [Function.comp_def, separated, List.map_const', List.length_append, List.length_singleton,
    Nat.add_sub_cancel]

/-- A packet of `n` bytes would take `6n + 6` columns on one line. -/
theorem textWidth_single_packet {packet : Bytes} (ne : packet ≠ []) :
    textWidth (packetFrame.single (byteLiterals packet)) = 6 * packet.length + 6 := by
  have literals : byteLiterals packet ≠ [] := mt List.map_eq_nil_iff.mp ne
  have four : spacedWidth [4] = 5 := rfl
  have tab : textWidth packetFrame.opening = 8 := rfl
  have some := List.length_pos_iff.mpr ne
  have line := textWidth_intercalate (packetFrame.marked_ne_nil literals)
  rw [width_marked_byteLiterals ne, spacedWidth_append, spacedWidth_replicate, four] at line
  rw [ListFrame.intercalate_marked literals, ListFrame.joined] at line
  rw [ListFrame.single, String.append_assoc, textWidth_append, tab]
  omega

/-- The commas behind the literals add no digits. -/
theorem flatMap_tokenDigits_marked (items : List String) :
    (packetFrame.marked items).flatMap (fun text => tokenDigits text.toList) =
      items.flatMap fun item => tokenDigits item.toList := by
  have comma : packetFrame.separator.toList = [','] := rfl
  have nothing : packetFrame.closing = "" := rfl
  have separated (item : String) :
      tokenDigits (item ++ packetFrame.separator).toList = tokenDigits item.toList := by
    rw [String.toList_append, comma, tokenDigits_append_cons (by decide)]
    exact List.append_nil _
  induction items with
  | nil => rfl
  | cons item rest ih =>
    cases rest with
    | nil => rw [ListFrame.marked, nothing, String.append_empty]
    | cons next rest =>
      rw [ListFrame.marked, List.flatMap_cons, ih, separated]
      rfl

/-- What the dump reader finds in a body is the packet. -/
theorem readDump_packetBody {packet : Bytes} (ne : packet ≠ []) :
    readDump (packetBody packet) = .ok packet := by
  have literals : byteLiterals packet ≠ [] := mt List.map_eq_nil_iff.mp ne
  have tab : packetFrame.opening.toList = ['\t'] := rfl
  obtain ⟨text, body, spaced⟩ :=
    render_spaced packetFrame packetFrame_separator none packetLineWidth literals
  have digits := (spaced.mono fun _ gap => gap.blankRun.separatorRun).tokenDigits_eq
  rw [List.flatMap_map, flatMap_tokenDigits_marked] at digits
  refine readDump_of_literals ?_
  rw [packetBody, body, tab, ← digits]
  exact tokenDigits_append_cons (by decide) [] text

/-- Literals in groups that keep the width of a line and end only where they must are in sevens. -/
theorem inSevens_of_groups {packet : Bytes} (more : 1 < packet.length) {groups : List (List String)}
    (division : Division (byteLiterals packet) groups)
    (keeps : ∀ texts ∈ packetFrame.markedGroups groups, 2 ≤ texts.length →
      textWidth packetFrame.opening + textWidth (String.intercalate " " texts) ≤ packetLineWidth)
    (chain : (packetFrame.markedGroups groups).IsChain fun texts next => ∀ text ∈ next.head?,
      packetLineWidth < textWidth packetFrame.opening + textWidth (String.intercalate " " texts) + 1 +
        textWidth text) :
    InSevens (groups.map List.length) := by
  have ne : packet ≠ [] := List.ne_nil_of_length_pos (by omega)
  have tab : textWidth packetFrame.opening = 8 := rfl
  have flat : (packetFrame.markedGroups groups).flatten = packetFrame.marked groups.flatten :=
    ListFrame.flatten_markedGroups division.ne_nil
  have some : ∀ texts ∈ packetFrame.markedGroups groups, texts ≠ [] :=
    ListFrame.ne_nil_of_mem_markedGroups division.ne_nil
  have measured : groups.map List.length =
      ((packetFrame.markedGroups groups).map (List.map textWidth)).map List.length := by
    rw [← packetFrame.lengths_markedGroups groups, List.map_map]
    exact List.map_congr_left fun texts _ => (List.length_map textWidth).symm
  have fives : 0 < packet.length - 1 := Nat.sub_pos_of_lt more
  rw [measured]
  refine inSevens_of_rows fives ?_ ?_ ?_ ?_
  · rw [← List.map_flatten, flat, division.flatten, width_marked_byteLiterals ne]
  · exact List.forall_mem_map.mpr fun texts mem => mt List.map_eq_nil_iff.mp (some texts mem)
  · refine List.forall_mem_map.mpr fun texts mem two => ?_
    have line := keeps texts mem (by rwa [List.length_map] at two)
    rw [tab, packetLineWidth] at line
    rw [← textWidth_intercalate (some texts mem)]
    omega
  · rw [List.isChain_map]
    refine List.IsChain.imp_of_mem_imp (fun texts next mem _ ends width first => ?_) chain
    rw [List.head?_map, Option.mem_def, Option.map_eq_some_iff] at first
    obtain ⟨text, head, rfl⟩ := first
    have wide := ends text head
    rw [tab, packetLineWidth] at wide
    rw [← textWidth_intercalate (some texts mem)]
    omega

/-- The bytes of a packet of more than eight stand in lines of seven. -/
theorem packetBody_lines {packet : Bytes} (long : 8 < packet.length) :
    ∃ groups : List Bytes, groups.flatten = packet ∧
      textLines (packetBody packet) = packetFrame.lines (groups.map byteLiterals) ∧
      InSevens (groups.map List.length) := by
  have ne : packet ≠ [] := List.ne_nil_of_length_pos (by omega)
  have literals : byteLiterals packet ≠ [] := mt List.map_eq_nil_iff.mp ne
  have wide : packetLineWidth < textWidth (packetFrame.single (byteLiterals packet)) := by
    rw [textWidth_single_packet ne, packetLineWidth]
    omega
  have division := packetFrame.groups_division none packetLineWidth (byteLiterals packet)
  have keeps := (ListFrame.keepsWidth_iff division.ne_nil).mp
    (ListFrame.keepsWidth_groups packetFrame_separator packetFrame_plainMarks none packetLineWidth _)
  have sevens := inSevens_of_groups (by omega) division keeps
    (ListFrame.isChain_markedGroups packetFrame_separator packetFrame_asciiMarks packetLineWidth _)
  obtain ⟨groups, cut, texts⟩ := division.exists_of_map
  refine ⟨groups, cut.flatten, ?_, ?_⟩
  · rw [packetBody, ListFrame.textLines_render_of_wide packetFrame_separator (packetFrame_breakless packet)
      literals wide, ← texts]
    rfl
  · have counts : List.length ∘ List.map byteLiteral = List.length :=
      funext fun bytes => List.length_map byteLiteral
    rwa [← texts, List.map_map, counts] at sevens

/-- The text is a body for the packet: it reads back to it, no line is wider than 54 columns, and the
literals of up to eight bytes stand on one line and those of more in sevens. -/
structure WritesPacket (packet : Bytes) (body : String) : Prop where
  read : readDump body = .ok packet
  narrow : ∀ line ∈ textLines body, textWidth line ≤ 54
  lines : ∃ groups : List Bytes, groups.flatten = packet ∧
    textLines body = packetFrame.lines (groups.map byteLiterals) ∧
    (packet.length ≤ 8 → groups = [packet]) ∧ (8 < packet.length → InSevens (groups.map List.length))

theorem packetBody_writes {packet : Bytes} (ne : packet ≠ []) : WritesPacket packet (packetBody packet) where
  read := readDump_packetBody ne
  narrow line mem := by
    refine width_le_of_mem_render packetFrame_separator packetFrame_plainMarks
      (mt List.map_eq_nil_iff.mp ne) (fun text marked => ?_) mem
    have widths : textWidth text ∈ List.replicate (packet.length - 1) 5 ++ [4] := by
      rw [← width_marked_byteLiterals ne]
      exact List.mem_map_of_mem marked
    have tab : textWidth packetFrame.opening = 8 := rfl
    rw [List.mem_append, List.mem_replicate, List.mem_singleton] at widths
    rw [tab]
    omega
  lines := by
    by_cases long : 8 < packet.length
    · obtain ⟨groups, flatten, lines, sevens⟩ := packetBody_lines long
      exact ⟨groups, flatten, lines, fun short => absurd long (Nat.not_lt_of_le short), fun _ => sevens⟩
    · have fits : textWidth (packetFrame.single (byteLiterals packet)) ≤ packetLineWidth := by
        rw [textWidth_single_packet ne, packetLineWidth]
        omega
      refine ⟨[packet], List.flatten_singleton, ?_, fun _ => rfl, fun more => absurd more long⟩
      rw [packetBody, ListFrame.render_of_fits none packetLineWidth (.inr fits),
        textLines_of_not_mem (packetFrame_breakless packet).single]
      rfl

/-! ## Names and packets -/

/-- No two operations of a sequence have an array name in common. -/
theorem arrayName_injective (panel sequence : String) : Function.Injective (arrayName panel sequence) := by
  intro i j same
  have chars := congrArg String.toList same
  simp only [arrayName, String.toList_append] at chars
  exact toString_injective (String.toList_inj.mp (List.append_cancel_left chars))

theorem Operation.packet_ne_nil {index : Nat} {op : Operation} {packet : Bytes}
    (h : op.packet index = .ok packet) : packet ≠ [] := by
  obtain ⟨t, -, ⟨-, -, rfl⟩ | ⟨-, -, rfl⟩⟩ := Operation.packet_ok h <;> exact List.cons_ne_nil _ _

/-! ## The law -/

/-- The operation at `index` is written as this array and this row, under this name: the body of the array is
one for the packet of the operation, and the row names the array and gives the wait. -/
def Tabulated (name : String) (index : Nat) (op : Operation) (array row : String) : Prop :=
  ∃ packet body, op.packet index = .ok packet ∧ WritesPacket packet body ∧
    array = s!"static char {name}[] = " ++ "\x7b\n" ++ body ++ "\n\x7d;\n" ∧
    row = "\t\x7b sizeof(" ++ name ++ "), " ++ name ++ ", " ++ toString op.wait.toNat ++ " \x7d,\n"

/-- What stands in a table. It is the arrays of the operations, and the rows between the head of the table and
its end. There are as many of both as operations, each in the place of its operation, and no two arrays have
the same name. -/
theorem CommandSequence.table_arrays (panel table : String) (s : CommandSequence)
    (made : s.table panel = .ok table) :
    ∃ arrays rows : List String,
      table = String.join arrays ++ "\n" ++
        (s!"static struct mipi_dsi_cmd {panel}_{s.name}_command[] = " ++ "\x7b\n") ++
          String.join rows ++ "\x7d;" ∧
      arrays.length = s.operations.length ∧ rows.length = s.operations.length ∧
      (∀ (i : Nat) (op : Operation), s.operations[i]? = some op →
        ∃ array row, arrays[i]? = some array ∧ rows[i]? = some row ∧
          Tabulated (arrayName panel s.name i) i op array row) ∧
      Function.Injective (arrayName panel s.name) := by
  obtain ⟨entries, all, built⟩ := bind_eq_ok_iff.mp made
  cases built
  obtain ⟨length, places⟩ := mapM_zipIdx_ok all
  refine ⟨entries.map fun e => packetArray e.name e.packet, entries.map fun e => tableRow e.name e.wait,
    ?_, ?_, ?_, fun i op here => ?_, arrayName_injective panel s.name⟩
  · rfl
  · rw [List.length_map, length]
  · rw [List.length_map, length]
  · obtain ⟨entry, placed, own⟩ := places i op here
    obtain ⟨packet, sent, entered⟩ := bind_eq_ok_iff.mp own
    cases entered
    refine ⟨packetArray (arrayName panel s.name i) packet, tableRow (arrayName panel s.name i) op.wait,
      ?_, ?_, packet, packetBody packet, sent, packetBody_writes (Operation.packet_ne_nil sent), rfl, rfl⟩
    · rw [List.getElem?_map, placed]
      rfl
    · rw [List.getElem?_map, placed]
      rfl

/-- A write of 32 bytes and the end of sleep. -/
def wakeUp : CommandSequence where
  name := "on"
  mode := .lowPower
  operations := [{ opcode := 0x39, payload := List.replicate 32 0xaa },
    { opcode := 0x05, wait := 120, payload := [0x11] }]

/-- The write takes a packet of 36 bytes. Its last literal is the eighth on its line, where five lines of
seven would leave one byte over. -/
theorem CommandSequence.table_arrays_wakeUp :
    ∃ (table body : String) (arrays rows : List String), wakeUp.table "p" = .ok table ∧
      arrays.length = 2 ∧ rows.length = 2 ∧
      arrays[0]? = some ("static char p_on_cmd_0[] = \x7b\n" ++ body ++ "\n\x7d;\n") ∧
      rows[1]? = some "\t\x7b sizeof(p_on_cmd_1), p_on_cmd_1, 120 \x7d,\n" ∧
      readDump body = .ok ([0x20, 0x00, 0x39, 0x40] ++ List.replicate 32 0xaa) ∧
      ∃ groups : List Bytes, textLines body = packetFrame.lines (groups.map byteLiterals) ∧
        groups.map List.length = [7, 7, 7, 7, 8] := by
  obtain ⟨table, made⟩ : ∃ table, wakeUp.table "p" = .ok table := ⟨_, rfl⟩
  obtain ⟨arrays, rows, -, arrayCount, rowCount, places, -⟩ := wakeUp.table_arrays "p" table made
  obtain ⟨_, _, array, -, packet, body, sent, writes, rfl, -⟩ := places 0 _ rfl
  obtain ⟨_, _, -, row, _, _, -, -, -, rfl⟩ := places 1 _ rfl
  have known : packet = [0x20, 0x00, 0x39, 0x40] ++ List.replicate 32 0xaa := by
    refine Except.ok.inj (sent.symm.trans ?_)
    decide
  subst known
  obtain ⟨groups, flatten, lines, -, sevens⟩ := writes.lines
  obtain ⟨full, last, counts, two, eight⟩ := sevens (by decide)
  have total : 7 * full + last = 36 := by
    have sum := congrArg List.length flatten
    rw [List.length_flatten, counts, List.sum_append_nat, List.sum_replicate_nat, List.sum_singleton] at sum
    rw [Nat.mul_comm, sum]
    rfl
  obtain ⟨rfl, rfl⟩ : full = 4 ∧ last = 8 := by omega
  exact ⟨table, body, arrays, rows, made, arrayCount, rowCount, array, row, writes.read, groups, lines,
    counts⟩

end DsiPanel
