import PackedTables.Bytes
import PackedTables.Bytes.Hex
import PackedTables.Bytes.Sha256
import PackedTables.Declaration
import PackedTables.Declaration.Json
import PackedTables.Fault
import PackedTables.Json.Basic
import PackedTables.Json.Printer
import PackedTables.Json.Reader
import PackedTables.Json.Shape
import PackedTables.Json.Token
import PackedTables.Layout.Basic
import PackedTables.Layout.Plan
import PackedTables.Layout.Word
import PackedTables.Number.Binary64
import PackedTables.Number.Decimal
import PackedTables.Record.Basic
import PackedTables.Record.Lengths
import PackedTables.Record.Read
import PackedTables.Record.Write
import PackedTables.Row.Basic
import PackedTables.Row.Cell
import PackedTables.Schema.Basic
import PackedTables.Schema.Check
import PackedTables.Settings.Basic
import PackedTables.Settings.Conversion
import PackedTables.Settings.Environment
import PackedTables.Settings.Json
import PackedTables.Settings.Load
import PackedTables.Settings.Path
import PackedTables.Settings.Save
import PackedTables.Settings.Tree
import PackedTables.Text.Blank
import PackedTables.Text.Identifier
import PackedTables.Text.Lower
import PackedTables.Text.Numeral
import PackedTables.Text.Utf8
import PackedTables.Time.Date
import PackedTables.Time.Instant
import PackedTables.Toml.Document
import PackedTables.Toml.Moment
import PackedTables.Toml.Quote
import PackedTables.Toml.Reader
import PackedTables.Toml.Scalar
import PackedTables.Toml.Token
import PackedTables.Types.Json
import PackedTables.Types.Kind
import PackedTables.Types.Registry
import PackedTables.World.Basic
import PackedTables.World.Catalog
import PackedTables.World.Draft
import PackedTables.World.Fingerprint
import PackedTables.World.Manifest
import PackedTables.World.Manifest.Json
import PackedTables.World.Suggestion
import PackedTables.World.TableId
import PackedTables.Proofs.Bytes.Pieces
import PackedTables.Proofs.Outcome
import PackedTables.Proofs.Record.Spelling
import PackedTables.Proofs.Record.Payload
import PackedTables.Proofs.Layout.Sound
import PackedTables.Proofs.Layout.Extent
import PackedTables.Proofs.Layout.Position
import PackedTables.Proofs.Record.Header
import PackedTables.Proofs.Record.Filling
import PackedTables.Proofs.Record.Reading
import PackedTables.Proofs.Record.Writing
import PackedTables.Proofs.Record.Completion
import PackedTables.Proofs.Record.RoundTrip
import PackedTables.Proofs.Record.Refusal
import PackedTables.Proofs.Record.Omission
import PackedTables.Proofs.Record.Canonical
import PackedTables.Proofs.Record.Cutting
import PackedTables.Proofs.Record.Single
import PackedTables.Proofs.Machine.Step
import PackedTables.Proofs.Machine.Reader
import PackedTables.Proofs.Machine.Part
import PackedTables.Proofs.Machine.Record
import PackedTables.Proofs.Record.Shape
import PackedTables.Proofs.Record.Transfer
import PackedTables.Proofs.World.Draft
import PackedTables.Proofs.World.Fingerprint
import PackedTables.Proofs.World.Manifest
import PackedTables.Proofs.World.Writable
import PackedTables.Proofs.World.Catalog
import PackedTables.Proofs.World.Batch
import PackedTables.Proofs.World.Answers
import PackedTables.Proofs.Record.Format
import PackedTables.Proofs.Record.Key
import PackedTables.Proofs.Schema.Growth
import PackedTables.Proofs.World.Binding
import PackedTables.Proofs.Layout.Placement
import PackedTables.Proofs.Record.Range
import PackedTables.Proofs.Types.WellFormed
import PackedTables.Proofs.Text.Order
import PackedTables.Proofs.Record.Acceptance
import PackedTables.Proofs.Record.Verdict
import PackedTables.Proofs.Layout.Unnamed
import PackedTables.Proofs.Record.Unnamed
import PackedTables.Proofs.World.Alias
import PackedTables.Proofs.Record.Packing
import PackedTables.Proofs.Record.Integer
import PackedTables.Proofs.Record.Places
import PackedTables.Proofs.Record.Truth
import PackedTables.Proofs.Record.Settled
import PackedTables.Proofs.Record.Lenient
import PackedTables.Proofs.Record.Locality
import PackedTables.Proofs.Text.Numeral
import PackedTables.Proofs.Text.Identifier
import PackedTables.Proofs.Types.Grammar
import PackedTables.Proofs.Types.Nesting
import PackedTables.Proofs.Layout.Word
import PackedTables.Proofs.Schema.Verdict
import PackedTables.Proofs.Text.Ascii
import PackedTables.Proofs.World.TableId
import PackedTables.Proofs.Text.Digits
import PackedTables.Proofs.Time.Instant
import PackedTables.Proofs.Json.Spread
import PackedTables.Proofs.World.Persistence
import PackedTables.Proofs.Toml.Token
import PackedTables.Proofs.Toml.Quote
import PackedTables.Proofs.Toml.Value
import PackedTables.Proofs.Settings.Overlay
import PackedTables.Proofs.Toml.Document
import PackedTables.Proofs.Settings.Saving
import PackedTables.Proofs.Settings.Heading
import PackedTables.Proofs.Settings.Naming
import PackedTables.Proofs.Settings.Spelling
import PackedTables.Proofs.Settings.Precedence
