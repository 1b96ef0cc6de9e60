import DsiPanel.Wire.Cursor
import DsiPanel.Wire.Operation
import DsiPanel.Wire.Transaction

/-!
# Frames

A command array is a run of frames: seven bytes of header, the last two of which give the length of
the payload that follows. Reading stops at the first frame that cannot be complete or that names a
channel past the third; what was read before stays known (`Frames`), because messages about
those frames are given also when the whole array is refused.

A header that is complete is judged before its payload is asked for: a bad channel wins over a
payload that is cut off.
-/

namespace DsiPanel

/-- A frame as it stands in the array, marks as bytes and the payload whole. -/
structure Frame where
  opcode : UInt8
  last : UInt8
  channel : UInt8
  ack : UInt8
  wait : UInt8
  payload : Bytes
deriving DecidableEq, Repr

namespace Frame

/-- The operation of a frame: any mark but zero is set, and the payload is cut to what its
transaction carries. -/
def operation (f : Frame) : Operation :=
  { opcode := f.opcode
    last := f.last != 0
    channel := f.channel &&& channelMask
    ack := f.ack != 0
    wait := f.wait
    payload := keptPayload f.opcode f.payload }

def bytes (f : Frame) : Bytes :=
  [f.opcode, f.last, f.channel, f.ack, f.wait] ++ Bytes.bigEndian16 f.payload.length ++ f.payload

end Frame

/-- Why no frame could be read at a place. -/
inductive FrameFault where
  | short (shortfall : Shortfall)
  | channel (value : UInt8)
deriving DecidableEq, Repr

/-- The frame at a place, and the place after it. -/
def Cursor.readFrame (c : Cursor) : Except FrameFault (Frame × Cursor) :=
  match c.rest with
  | opcode :: last :: channel :: ack :: wait :: high :: low :: body =>
    if channelMask < channel then .error (.channel channel)
    else
      match Cursor.readBytes (Bytes.word high low)
          { position := c.position + headerSize, rest := body } with
      | .ok (payload, next) => .ok ({ opcode, last, channel, ack, wait, payload }, next)
      | .error shortfall => .error (.short shortfall)
  | rest => .error (.short { need := headerSize, available := rest.length })

/-- A frame takes bytes, so reading frames comes to an end. -/
theorem Cursor.length_of_readFrame {c next : Cursor} {frame : Frame}
    (h : c.readFrame = .ok (frame, next)) : next.rest.length < c.rest.length := by
  unfold Cursor.readFrame at h
  split at h
  · rename_i heq
    split at h
    · contradiction
    · split at h
      · rename_i hread
        injection h with h
        injection h with _ h
        subst h
        have := Cursor.length_of_readBytes hread
        rw [heq]
        simp only [List.length_cons] at this ⊢
        omega
      · contradiction
  · contradiction

/-- What reading a whole array gave: the complete frames, and the place and fault of the one at
which it stopped, if it did not reach the end. -/
structure Frames where
  frames : List Frame
  fault : Option (Nat × FrameFault)
deriving DecidableEq, Repr

/-- The frames from a place on. -/
def Cursor.readFrames (c : Cursor) : Frames :=
  if c.rest.isEmpty then { frames := [], fault := none }
  else
    match _h : c.readFrame with
    | .error fault => { frames := [], fault := some (c.position, fault) }
    | .ok (frame, next) =>
      let later := next.readFrames
      { later with frames := frame :: later.frames }
termination_by c.rest.length
decreasing_by exact Cursor.length_of_readFrame _h

end DsiPanel
