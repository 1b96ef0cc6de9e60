import DsiPanel.Proofs.Wire.Grammar
import Mathlib.Data.List.Induction

/-!
# Runs of reads

A cursor is asked again and again, for a byte, for a word or for a count of bytes, and the caller may go on
after a read that failed, with the cursor it had. This module tells such a run from the buffer alone: where the
cursor stands after any requests, what has been read on the way, and what the next read gives there
(`Cursor.Answers`).

**The law** (`Cursor.run_accounted`): no byte is skipped, read twice or lost. What the reads gave, one after
another, is the buffer from the start to the place that was reached, and the bytes left are those from there to
the end. A read fails exactly if it needs more than is left, says so, and changes nothing.

One invariant carries it (`Cursor.StandsIn`): the bytes left are those of the buffer behind the position. A
single read keeps it and gives the bytes between the places before and after it (`StandsIn.perform`), and a run
follows request by request. A count may be larger than any buffer: such a read fails and the position stays, so
it never passes the end.
-/

namespace DsiPanel

namespace Cursor

/-! ## Requests -/

/-- What a cursor can be asked for. -/
inductive Request where
  | byte
  | word
  | bytes (count : Nat)
deriving DecidableEq, Repr

namespace Request

/-- What the read gives where it succeeds. -/
def Value : Request → Type
  | byte => UInt8
  | word => Nat
  | bytes _ => Bytes

/-- How many bytes the read takes. -/
def need : Request → Nat
  | byte => 1
  | word => 2
  | bytes count => count

def read : (r : Request) → Cursor → Except Shortfall (r.Value × Cursor)
  | byte => readByte
  | word => readWord
  | bytes count => readBytes count

/-- The bytes that a value stands for, of a word the most significant first. -/
def written : (r : Request) → r.Value → Bytes
  | byte, b => [b]
  | word, n => Bytes.bigEndian16 n
  | bytes _, chunk => chunk

/-- The value is one that its bytes tell: a word has 16 bits. -/
def InRange : (r : Request) → r.Value → Prop
  | byte, _ => True
  | word, (n : Nat) => n < 65536
  | bytes _, _ => True

/-- A value is told by the bytes it stands for. -/
theorem written_inj {r : Request} {v w : r.Value} (hv : r.InRange v) (hw : r.InRange w)
    (h : r.written v = r.written w) : v = w := by
  cases r with
  | byte => exact (List.cons.inj h).1
  | word =>
    obtain ⟨high, low⟩ := List.cons.inj h
    have value := congrArg₂ Bytes.word high (List.cons.inj low).1
    rwa [Bytes.word_ofNat hv, Bytes.word_ofNat hw] at value
  | bytes count => exact h

/-- Where enough is left, the read takes the next bytes. -/
theorem read_of_le {r : Request} {c : Cursor} (h : r.need ≤ c.remaining) :
    ∃ value, r.read c = .ok (value, { position := c.position + r.need, rest := c.rest.drop r.need }) ∧
      r.InRange value ∧ r.written value = c.rest.take r.need := by
  obtain ⟨position, rest⟩ := c
  cases r with
  | byte =>
    match rest, h with
    | [], h => exact absurd h (Nat.not_succ_le_zero 0)
    | b :: _, _ => exact ⟨b, rfl, trivial, rfl⟩
  | word =>
    match rest, h with
    | [], h => exact absurd h (Nat.not_succ_le_zero 1)
    | [_], h => exact absurd h (Nat.not_succ_le_self 1)
    | high :: low :: _, _ =>
      exact ⟨Bytes.word high low, rfl, Bytes.word_lt high low, Bytes.bigEndian16_word high low⟩
  | bytes count => exact ⟨rest.take count, readBytes_of_le h, trivial, rfl⟩

/-- Where too little is left, the read fails and says by how much. -/
theorem read_of_lt {r : Request} {c : Cursor} (h : c.remaining < r.need) :
    r.read c = .error { need := r.need, available := c.remaining } := by
  obtain ⟨position, rest⟩ := c
  cases r with
  | byte =>
    match rest, h with
    | [], _ => rfl
    | _ :: rest, h => exact absurd (Nat.lt_of_succ_lt_succ h) (Nat.not_lt_zero rest.length)
  | word =>
    match rest, h with
    | [], _ => rfl
    | [_], _ => rfl
    | _ :: _ :: rest, h =>
      exact absurd (Nat.lt_of_succ_lt_succ (Nat.lt_of_succ_lt_succ h)) (Nat.not_lt_zero rest.length)
  | bytes count => exact readBytes_of_lt h

end Request

/-! ## One read after another -/

/-- The answer to a request, and where the caller goes on: behind what was read, or where it was. -/
def perform (c : Cursor) (r : Request) : Except Shortfall r.Value × Cursor :=
  match r.read c with
  | .ok (value, next) => (.ok value, next)
  | .error shortfall => (.error shortfall, c)

/-- A request and its answer. -/
structure Step where
  request : Request
  answer : Except Shortfall request.Value

/-- The bytes that were read, none if the read failed. -/
def Step.bytes (s : Step) : Bytes :=
  match s.answer with
  | .ok value => s.request.written value
  | .error _ => []

/-- What a run has come to: the requests so far with their answers, and the place that was reached. -/
structure Run where
  steps : List Step
  place : Cursor

/-- The run with one more request. -/
def Run.next (run : Run) (r : Request) : Run :=
  { steps := run.steps ++ [{ request := r, answer := (run.place.perform r).1 }]
    place := (run.place.perform r).2 }

/-- The bytes of all reads that succeeded, in their order. -/
def Run.bytes (run : Run) : Bytes := run.steps.flatMap Step.bytes

def run (c : Cursor) (requests : List Request) : Run :=
  requests.foldl Run.next { steps := [], place := c }

@[simp] theorem run_concat (c : Cursor) (requests : List Request) (r : Request) :
    c.run (requests ++ [r]) = (c.run requests).next r := by
  rw [run, List.foldl_append]
  rfl

theorem Run.bytes_next (run : Run) (r : Request) :
    (run.next r).bytes =
      run.bytes ++ Step.bytes { request := r, answer := (run.place.perform r).1 } := by
  simp only [Run.bytes, Run.next, List.flatMap_append, List.flatMap_singleton]

/-- What a read gives at a place of `data`, told without reading. -/
structure Answers (data : Bytes) (c : Cursor) (r : Request) : Prop where
  /-- The read succeeds exactly if enough is left, with the value of the next bytes. -/
  ok : ∀ value, (c.perform r).1 = .ok value ↔
    r.need ≤ c.remaining ∧ r.InRange value ∧ r.written value = (data.drop c.position).take r.need
  /-- It fails exactly if it needs more, and names what it needs and what there is. -/
  error : ∀ shortfall, (c.perform r).1 = .error shortfall ↔
    c.remaining < r.need ∧ shortfall = { need := r.need, available := c.remaining }
  /-- The place moves on by what was read. -/
  moves : r.need ≤ c.remaining → (c.perform r).2.position = c.position + r.need
  /-- A failed read leaves the cursor as it was. -/
  stays : c.remaining < r.need → (c.perform r).2 = c
  /-- A smaller read still succeeds after it. -/
  goesOn : c.remaining < r.need → ∀ smaller : Request, smaller.need ≤ c.remaining →
    ∃ value, ((c.perform r).2.perform smaller).1 = .ok value

theorem perform_of_le {c : Cursor} {r : Request} (h : r.need ≤ c.remaining) :
    ∃ value, c.perform r = (.ok value, { position := c.position + r.need, rest := c.rest.drop r.need }) ∧
      r.InRange value ∧ r.written value = c.rest.take r.need := by
  obtain ⟨value, read, told⟩ := Request.read_of_le h
  exact ⟨value, by rw [perform, read], told⟩

theorem perform_of_lt {c : Cursor} {r : Request} (h : c.remaining < r.need) :
    c.perform r = (.error { need := r.need, available := c.remaining }, c) := by
  rw [perform, Request.read_of_lt h]

/-- Where too little is left, the answer is the shortfall, whatever stands in the buffer. -/
theorem answers_of_lt {data : Bytes} {c : Cursor} {r : Request} (short : c.remaining < r.need) :
    c.Answers data r := by
  have performed := perform_of_lt short
  have notEnough : ¬ r.need ≤ c.remaining := Nat.not_le_of_lt short
  refine ⟨fun value => ?_, fun shortfall => ?_, fun enough => absurd enough notEnough,
    fun _ => by rw [performed], fun _ smaller fits => ?_⟩
  · rw [performed]
    exact ⟨(nomatch ·), fun told => absurd told.1 notEnough⟩
  · rw [performed]
    constructor
    · intro told
      exact ⟨short, (Except.error.inj told).symm⟩
    · rintro ⟨-, rfl⟩
      rfl
  · rw [performed]
    obtain ⟨value, again, -⟩ := perform_of_le fits
    exact ⟨value, congrArg Prod.fst again⟩

/-! ## Places of a buffer -/

/-- The cursor stands in `data`: what is left there are the bytes behind its position. -/
structure StandsIn (data : Bytes) (c : Cursor) : Prop where
  inside : c.position ≤ data.length
  rest : c.rest = data.drop c.position

theorem ofBytes_standsIn (data : Bytes) (start : Nat) : (ofBytes data start).StandsIn data :=
  ⟨Nat.min_le_right start data.length, ofBytes_rest data start⟩

namespace StandsIn

variable {data : Bytes} {c : Cursor}

theorem position_add_remaining (h : c.StandsIn data) : c.position + c.remaining = data.length := by
  rw [remaining, h.rest, List.length_drop]
  exact Nat.add_sub_of_le h.inside

/-- A read keeps the cursor in its buffer and gives the bytes between the places before and after it. -/
theorem perform (h : c.StandsIn data) (r : Request) :
    (c.perform r).2.StandsIn data ∧
      data.take c.position ++ Step.bytes { request := r, answer := (c.perform r).1 } =
        data.take (c.perform r).2.position := by
  rcases Nat.lt_or_ge c.remaining r.need with short | enough
  · rw [perform_of_lt short]
    exact ⟨h, List.append_nil _⟩
  · obtain ⟨value, performed, -, bytes⟩ := perform_of_le enough
    rw [performed]
    have whole := h.position_add_remaining
    refine ⟨⟨?_, ?_⟩, ?_⟩
    · show c.position + r.need ≤ data.length
      omega
    · show c.rest.drop r.need = data.drop (c.position + r.need)
      rw [h.rest, List.drop_drop]
    · show data.take c.position ++ r.written value = data.take (c.position + r.need)
      rw [bytes, h.rest, List.take_add]

/-- So does a run, whatever is asked. -/
theorem run (h : c.StandsIn data) (requests : List Request) :
    (c.run requests).place.StandsIn data ∧
      data.take c.position ++ (c.run requests).bytes = data.take (c.run requests).place.position := by
  -- From the last request: what was read before it ends at the place where it is asked.
  induction requests using List.reverseRecOn with
  | nil => exact ⟨h, List.append_nil _⟩
  | append_singleton earlier r ih =>
    obtain ⟨before, read⟩ := ih
    obtain ⟨after, last⟩ := before.perform r
    rw [run_concat, Run.bytes_next, ← List.append_assoc, read]
    exact ⟨after, last⟩

/-- Where enough is left, the answer is the value that the next bytes tell. -/
theorem answers_of_le (h : c.StandsIn data) {r : Request} (enough : r.need ≤ c.remaining) :
    c.Answers data r := by
  obtain ⟨value, performed, inRange, bytes⟩ := perform_of_le enough
  have notShort : ¬ c.remaining < r.need := Nat.not_lt_of_le enough
  rw [h.rest] at bytes
  refine ⟨fun other => ?_, fun shortfall => ?_, fun _ => by rw [performed], fun short => absurd short notShort,
    fun short => absurd short notShort⟩
  · rw [performed]
    constructor
    · intro told
      obtain rfl := Except.ok.inj told
      exact ⟨enough, inRange, bytes⟩
    · rintro ⟨-, otherInRange, otherBytes⟩
      exact congrArg Except.ok (Request.written_inj inRange otherInRange (bytes.trans otherBytes.symm))
  · rw [performed]
    exact ⟨(nomatch ·), fun told => absurd told.1 notShort⟩

/-- What a read gives is told by the buffer and the place. -/
theorem answers (h : c.StandsIn data) (r : Request) : c.Answers data r := by
  rcases Nat.lt_or_ge c.remaining r.need with short | enough
  · exact answers_of_lt short
  · exact h.answers_of_le enough

end StandsIn

/-! ## The law of runs -/

/-- A run answers each request in its turn. -/
theorem run_requests (c : Cursor) (requests : List Request) :
    (c.run requests).steps.map Step.request = requests := by
  induction requests using List.reverseRecOn with
  | nil => rfl
  | append_singleton earlier r ih =>
    rw [run_concat, Run.next, List.map_append, ih]
    rfl

/-- All bytes are accounted for after any run of requests, and so after each request of a longer one: those that
were read are the buffer from the start to the place that was reached, and what any read gives there is told by
the buffer and what is left of it. -/
theorem run_accounted (data : Bytes) (start : Nat) (requests : List Request) :
    let run := (ofBytes data start).run requests
    run.steps.map Step.request = requests ∧
      run.place.position + run.place.remaining = data.length ∧
      min start data.length ≤ run.place.position ∧
      run.bytes = (data.take run.place.position).drop (min start data.length) ∧
      ∀ r : Request, run.place.Answers data r := by
  intro run
  have origin := ofBytes_standsIn data start
  obtain ⟨place, read⟩ := origin.run requests
  have front : (data.take (ofBytes data start).position).length = min start data.length :=
    List.length_take_of_le origin.inside
  -- The bytes before the start stand in front of those that were read, so both tell the place.
  refine ⟨run_requests _ requests, place.position_add_remaining, ?_, ?_, place.answers⟩
  · have lengths := congrArg List.length read
    rw [List.length_append, front, List.length_take_of_le place.inside] at lengths
    exact Nat.le.intro lengths
  · rw [← read, ← front, List.drop_left]

/-- A word behind the first byte, then a count that no buffer has. The cursor stands behind the word, three
bytes are too many there, and after that two are still read. -/
theorem run_accounted_refused :
    let run := (ofBytes [0x39, 0x01, 0x02, 0xaa, 0xbb] 1).run [.word, .bytes 18446744073709551615]
    run.place.position = 3 ∧ run.place.remaining = 2 ∧ run.bytes = [0x01, 0x02] ∧
      (run.place.perform (.bytes 3)).1 = .error { need := 3, available := 2 } ∧
      (run.place.perform (.bytes 3)).2 = run.place ∧
      (∃ value, ((run.place.perform (.bytes 3)).2.perform (.bytes 2)).1 = .ok value) ∧
      (run.place.perform (.bytes 2)).1 = .ok [0xaa, 0xbb] := by
  intro run
  obtain ⟨-, -, -, bytes, answers⟩ :=
    run_accounted [0x39, 0x01, 0x02, 0xaa, 0xbb] 1 [.word, .bytes 18446744073709551615]
  have place : run.place = { position := 3, rest := [0xaa, 0xbb] } := by decide
  have short : run.place.remaining < Request.need (.bytes 3) := by
    rw [place]
    decide
  have fits : Request.need (.bytes 2) ≤ run.place.remaining := by
    rw [place]
    decide
  refine ⟨by rw [place], by rw [place]; rfl, bytes, ?_, (answers (.bytes 3)).stays short,
    (answers (.bytes 3)).goesOn short (.bytes 2) fits, ?_⟩
  · exact ((answers (.bytes 3)).error _).mpr ⟨short, by rw [place]; rfl⟩
  · exact ((answers (.bytes 2)).ok _).mpr ⟨fits, trivial, by rw [place]; rfl⟩

end Cursor

end DsiPanel
