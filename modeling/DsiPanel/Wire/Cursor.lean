import DsiPanel.Bytes

/-!
# A cursor over bytes

Reading goes forward over a buffer: a cursor is the position reached and the bytes that are left
from there. A read that needs more than is left fails, says by how much, and gives no new cursor,
so the caller goes on with the old one.
-/

namespace DsiPanel

/-- A read asked for `need` bytes where only `available` were left. -/
structure Shortfall where
  need : Nat
  available : Nat
deriving DecidableEq, Repr

/-- A place in a buffer. -/
structure Cursor where
  /-- The count of bytes before the place. -/
  position : Nat
  /-- The bytes from the place to the end. -/
  rest : Bytes
deriving DecidableEq, Repr

namespace Cursor

/-- The place `offset` bytes into the buffer; an offset past the end stands at the end. -/
def ofBytes (data : Bytes) (offset : Nat) : Cursor :=
  { position := min offset data.length, rest := data.drop offset }

def remaining (c : Cursor) : Nat := c.rest.length

def isEmpty (c : Cursor) : Bool := c.rest.isEmpty

/-- The next `n` bytes and the place after them. -/
def readBytes (n : Nat) (c : Cursor) : Except Shortfall (Bytes × Cursor) :=
  let chunk := c.rest.take n
  if chunk.length = n then .ok (chunk, { position := c.position + n, rest := c.rest.drop n })
  else .error { need := n, available := c.remaining }

/-- The next byte and the place after it. -/
def readByte (c : Cursor) : Except Shortfall (UInt8 × Cursor) :=
  match c.rest with
  | b :: rest => .ok (b, { position := c.position + 1, rest })
  | [] => .error { need := 1, available := 0 }

/-- The next two bytes as a word, most significant byte first, and the place after them. -/
def readWord (c : Cursor) : Except Shortfall (Nat × Cursor) :=
  match c.rest with
  | high :: low :: rest => .ok (Bytes.word high low, { position := c.position + 2, rest })
  | rest => .error { need := 2, available := rest.length }

/-! ## What a read gives -/

theorem readBytes_of_le {n : Nat} {c : Cursor} (h : n ≤ c.remaining) :
    c.readBytes n =
      .ok (c.rest.take n, { position := c.position + n, rest := c.rest.drop n }) := by
  have : (c.rest.take n).length = n := by
    rw [List.length_take]
    exact Nat.min_eq_left h
  simp [readBytes, this]

theorem readBytes_of_lt {n : Nat} {c : Cursor} (h : c.remaining < n) :
    c.readBytes n = .error { need := n, available := c.remaining } := by
  have : (c.rest.take n).length ≠ n := by
    rw [List.length_take]
    have : c.rest.length < n := h
    omega
  exact if_neg this

/-- A read that succeeds had enough left. -/
theorem readBytes_ok {n : Nat} {c next : Cursor} {chunk : Bytes}
    (h : c.readBytes n = .ok (chunk, next)) :
    n ≤ c.remaining ∧ chunk = c.rest.take n ∧
      next = { position := c.position + n, rest := c.rest.drop n } := by
  rcases Nat.lt_or_ge c.remaining n with short | enough
  · rw [readBytes_of_lt short] at h
    contradiction
  · rw [readBytes_of_le enough] at h
    cases h
    exact ⟨enough, rfl, rfl⟩

/-- A read that fails had too little left, and says so. -/
theorem readBytes_error {n : Nat} {c : Cursor} {shortfall : Shortfall}
    (h : c.readBytes n = .error shortfall) :
    c.remaining < n ∧ shortfall = { need := n, available := c.remaining } := by
  rcases Nat.lt_or_ge c.remaining n with short | enough
  · rw [readBytes_of_lt short] at h
    cases h
    exact ⟨short, rfl⟩
  · rw [readBytes_of_le enough] at h
    contradiction

/-- A read never leaves more than there was. -/
theorem length_of_readBytes {n : Nat} {c next : Cursor} {chunk : Bytes}
    (h : c.readBytes n = .ok (chunk, next)) : next.rest.length ≤ c.rest.length := by
  obtain ⟨_, _, rfl⟩ := readBytes_ok h
  exact List.length_drop ▸ Nat.sub_le c.rest.length n

end Cursor

end DsiPanel
