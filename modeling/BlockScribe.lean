import BlockScribe.Main
import BlockScribe.Document.View
import BlockScribe.Record.OutputLine
import BlockScribe.Record.Sample
import BlockScribe.Proofs.Block.Violations
import BlockScribe.Proofs.Document.RoundTrip
import BlockScribe.Proofs.Stream.Decoding
import BlockScribe.Proofs.Document.Schema
import BlockScribe.Proofs.Stream.Faults
import BlockScribe.Proofs.Stream.Inputs
import BlockScribe.Proofs.Document.NormalForm
import BlockScribe.Proofs.Json.Faults
import BlockScribe.Proofs.Block.Faults
import BlockScribe.Proofs.Record.Messages
import BlockScribe.Proofs.Stream.Diagnostics
import BlockScribe.Proofs.Document.Defaults
import BlockScribe.Proofs.Document.Order
import BlockScribe.Proofs.Document.Positions
import BlockScribe.Proofs.Document.Append
import BlockScribe.Proofs.Document.Independence
import BlockScribe.Proofs.Document.Recutting
import BlockScribe.Proofs.Record.Samples
import BlockScribe.Proofs.Block.Cells
import BlockScribe.Proofs.Block.Contents
import BlockScribe.Proofs.Command.Actor
import BlockScribe.Proofs.Command.Options
import BlockScribe.Proofs.Command.Program
import BlockScribe.Proofs.Record.SampleLines
import BlockScribe.Proofs.Document.Stores
import BlockScribe.Proofs.Document.Flattening
import BlockScribe.Proofs.Record.CompositeIds
import BlockScribe.Proofs.Block.Levels
import BlockScribe.Proofs.Document.Activity
import BlockScribe.Proofs.Record.ActiveBlocks
