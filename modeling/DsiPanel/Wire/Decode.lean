import DsiPanel.Wire.Error
import DsiPanel.Wire.Frame

/-!
# Decoding a command array

The operations of an array are those of its frames. One frame that cannot be read refuses the whole
array; the error counts the complete frames before it and gives the place in the array, also where
reading began at an offset.
-/

namespace DsiPanel

/-- The error of a frame that stands after `index` complete ones. -/
def FrameFault.error (index offset : Nat) : FrameFault → DecodeError
  | short shortfall => .truncated index offset shortfall.need shortfall.available
  | channel value => .invalidChannel index offset value

/-- The operations of the array, if it was read to its end. -/
def Frames.operations (read : Frames) : Except DecodeError (List Operation) :=
  match read.fault with
  | none => .ok (read.frames.map Frame.operation)
  | some (offset, fault) => .error (fault.error read.frames.length offset)

/-- The operations that the bytes from `offset` on hold. -/
def decodeFrom (offset : Nat) (data : Bytes) : Except DecodeError (List Operation) :=
  (Cursor.ofBytes data offset).readFrames.operations

def decode (data : Bytes) : Except DecodeError (List Operation) := decodeFrom 0 data

end DsiPanel
