import DsiPanel.Kernel.Synthesis
import DsiPanel.Sequence.Basic

/-!
# Fragments

The statements of a sequence, in order, make a fragment of a function body. A statement that opens
a block stands in a paragraph of its own, and statements between two such stand together. Every
paragraph starts after a blank line and every line is ended, so the fragment can follow a line of
text as it is.
-/

namespace DsiPanel

/-- Two neighbours stand in one paragraph: neither opens a block. -/
def Statement.joins (a b : Statement) : Bool := !(a.opensBlock || b.opensBlock)

def paragraphs (statements : List Statement) : List (List Statement) :=
  statements.splitBy Statement.joins

/-- The text of a paragraph, from the blank line before it to the end of its last line. -/
def paragraphText (width : Nat) (paragraph : List Statement) : String :=
  "\n" ++ String.join (paragraph.map fun s => s.text width ++ "\n")

/-- Generated text with the features that it needs. -/
structure Fragment where
  text : String
  features : Features
deriving DecidableEq, Repr

def Fragment.ofStatements (width : Nat) (statements : List Statement) : Fragment where
  text := String.join ((paragraphs statements).map (paragraphText width))
  features := statements.foldl (fun set s => set.union s.features) .empty

namespace CommandSequence

/-- The statements of the sequence, or the error of the first operation that has none. -/
def statements (settings : Settings) (s : CommandSequence) :
    Except SynthesisError (List Statement) :=
  s.operations.zipIdx.mapM fun (op, index) => op.statement settings index

def synthesize (settings : Settings) (s : CommandSequence) : Except SynthesisError Fragment :=
  (s.statements settings).map (Fragment.ofStatements settings.wrapWidth)

end CommandSequence

/-- The fragment of the sequence whose array is given in segments. -/
def synthesizeRaw (settings : Settings) (name : String) (mode : SignalingMode)
    (segments : List Bytes) : Except SynthesisError Fragment :=
  match CommandSequence.decode name mode segments with
  | .error error => .error (.decode error)
  | .ok sequence => sequence.synthesize settings

end DsiPanel
