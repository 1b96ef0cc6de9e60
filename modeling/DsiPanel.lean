import DsiPanel.Bootloader.Packet
import DsiPanel.Bootloader.Table
import DsiPanel.Bytes
import DsiPanel.CommandLine.HexDump
import DsiPanel.CommandLine.Options
import DsiPanel.CommandLine.Run
import DsiPanel.Dcs.Arity
import DsiPanel.Dcs.Codec
import DsiPanel.Dcs.Command
import DsiPanel.Dcs.Resolution
import DsiPanel.Files
import DsiPanel.Interchange.Datum
import DsiPanel.Interchange.Form
import DsiPanel.Interchange.Reader
import DsiPanel.Kernel.Delay
import DsiPanel.Kernel.Feature
import DsiPanel.Kernel.Fragment
import DsiPanel.Kernel.Statement
import DsiPanel.Kernel.Synthesis
import DsiPanel.Main
import DsiPanel.Note.Basic
import DsiPanel.Note.Log
import DsiPanel.Note.Trace
import DsiPanel.Sequence.Basic
import DsiPanel.Sequence.SignalingMode
import DsiPanel.Settings.Basic
import DsiPanel.Settings.Document
import DsiPanel.Settings.Override
import DsiPanel.Surroundings
import DsiPanel.SynthesisError
import DsiPanel.Text.Blank
import DsiPanel.Text.Column
import DsiPanel.Text.Filling
import DsiPanel.Text.Hexadecimal
import DsiPanel.Text.Numeral
import DsiPanel.Text.Quoted
import DsiPanel.Text.Utf8
import DsiPanel.Text.Words
import DsiPanel.Text.Wrapped
import DsiPanel.Toml.Document
import DsiPanel.Toml.Number
import DsiPanel.Toml.Reader
import DsiPanel.Toml.Table
import DsiPanel.Toml.Text
import DsiPanel.Toml.Value
import DsiPanel.Wire.Cursor
import DsiPanel.Wire.Decode
import DsiPanel.Wire.Error
import DsiPanel.Wire.Frame
import DsiPanel.Wire.Operation
import DsiPanel.Wire.Transaction
import DsiPanel.Proofs.Traversal
import DsiPanel.Proofs.Bootloader.Packets
import DsiPanel.Proofs.Wire.Grammar
import DsiPanel.Proofs.Wire.RoundTrip
import DsiPanel.Proofs.Wire.NormalForm
import DsiPanel.Proofs.Wire.Concatenation
import DsiPanel.Proofs.Wire.Reads
import DsiPanel.Proofs.Text.Spaced
import DsiPanel.Proofs.Text.Wrapping
import DsiPanel.Proofs.Dcs.Integers
import DsiPanel.Proofs.Dcs.Arguments
import DsiPanel.Proofs.Dcs.Matching
import DsiPanel.Proofs.Kernel.Actions
import DsiPanel.Proofs.Kernel.Fragments
import DsiPanel.Proofs.Kernel.Invocation
import DsiPanel.Proofs.Kernel.Reading
import DsiPanel.Proofs.Kernel.Writes
import DsiPanel.Proofs.Kernel.Traces
import DsiPanel.Proofs.Kernel.Failures
import DsiPanel.Proofs.Text.LineWidth
import DsiPanel.Proofs.Kernel.Widths
import DsiPanel.Proofs.Kernel.Paragraphs
import DsiPanel.Proofs.Text.Paragraphs
import DsiPanel.Proofs.Text.WhiteSpace
import DsiPanel.Proofs.Kernel.Rewrapping
import DsiPanel.Proofs.Kernel.Sleeps
import DsiPanel.Proofs.Kernel.Conservative
import DsiPanel.Proofs.Bootloader.Tables
import DsiPanel.Proofs.CommandLine.Stages
import DsiPanel.Proofs.Settings.Layers
import DsiPanel.Proofs.CommandLine.Settings
import DsiPanel.Proofs.Sequence.ModeProperty
import DsiPanel.Proofs.CommandLine.Log
import DsiPanel.Proofs.CommandLine.Outcomes
import DsiPanel.Proofs.Text.Filling
import DsiPanel.Proofs.Text.Groups
import DsiPanel.Proofs.Text.GroupLines
import DsiPanel.Proofs.Text.FewestLines
import DsiPanel.Proofs.CommandLine.Dumps
import DsiPanel.Proofs.Bootloader.Arrays
import DsiPanel.Proofs.Settings.Overriding
import DsiPanel.Proofs.CommandLine.DumpLayouts
import DsiPanel.Proofs.Text.WordLines
import DsiPanel.Proofs.Note.Reports
import DsiPanel.Proofs.Note.Truncations
import DsiPanel.Proofs.Note.Warnings
