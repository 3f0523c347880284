import ContainerFeed.Batch.Decoding
import ContainerFeed.Batch.Encoding
import ContainerFeed.Batch.Octets
import ContainerFeed.Binary64
import ContainerFeed.Binary64.Reading
import ContainerFeed.Binary64.Shortest
import ContainerFeed.HostConfig
import ContainerFeed.Http.Exposure
import ContainerFeed.Http.Ingest
import ContainerFeed.Http.Message
import ContainerFeed.Ingest
import ContainerFeed.Ingest.Container
import ContainerFeed.Ingest.InPlace
import ContainerFeed.Ingest.Round
import ContainerFeed.Json.Lexer
import ContainerFeed.Json.Number
import ContainerFeed.Json.Reader
import ContainerFeed.Json.Token
import ContainerFeed.Json.Writer
import ContainerFeed.Keyed
import ContainerFeed.Main
import ContainerFeed.Measurement
import ContainerFeed.Node
import ContainerFeed.Node.Address
import ContainerFeed.Node.InPlace
import ContainerFeed.Node.Pointer
import ContainerFeed.Node.Visit
import ContainerFeed.Options
import ContainerFeed.Path
import ContainerFeed.Plugin
import ContainerFeed.Power
import ContainerFeed.Proofs.Batch.Canonical
import ContainerFeed.Proofs.Batch.RoundTrip
import ContainerFeed.Proofs.Document.Edits
import ContainerFeed.Proofs.Document.Fields
import ContainerFeed.Proofs.Document.InPlace
import ContainerFeed.Proofs.Document.Keeping
import ContainerFeed.Proofs.Document.Laws
import ContainerFeed.Proofs.Document.Leaves
import ContainerFeed.Proofs.Document.Places
import ContainerFeed.Proofs.Document.Size
import ContainerFeed.Proofs.Document.Standing
import ContainerFeed.Proofs.Document.Visits
import ContainerFeed.Proofs.Document.Writing
import ContainerFeed.Proofs.Ingest.Accounting
import ContainerFeed.Proofs.Ingest.Classification
import ContainerFeed.Proofs.Ingest.Commuting
import ContainerFeed.Proofs.Ingest.Dropped
import ContainerFeed.Proofs.Ingest.InPlace
import ContainerFeed.Proofs.Ingest.Interfaces
import ContainerFeed.Proofs.Ingest.Isolation
import ContainerFeed.Proofs.Ingest.Kept
import ContainerFeed.Proofs.Ingest.LastWriter
import ContainerFeed.Proofs.Ingest.Layout
import ContainerFeed.Proofs.Ingest.Naming
import ContainerFeed.Proofs.Ingest.Parts
import ContainerFeed.Proofs.Ingest.PathFailures
import ContainerFeed.Proofs.Ingest.Rounds
import ContainerFeed.Proofs.Ingest.Routing
import ContainerFeed.Proofs.Ingest.Stamps
import ContainerFeed.Proofs.Ingest.WriteOnce
import ContainerFeed.Proofs.Json.Literals
import ContainerFeed.Proofs.Json.Reading
import ContainerFeed.Proofs.Json.RoundTrip
import ContainerFeed.Proofs.Json.Spelling
import ContainerFeed.Proofs.KeyedLookup
import ContainerFeed.Proofs.Numerals
import ContainerFeed.Proofs.Outcomes
import ContainerFeed.Proofs.Paths
import ContainerFeed.Proofs.Publisher.Lifecycle
import ContainerFeed.Proofs.Publisher.Reading
import ContainerFeed.Proofs.Publisher.Replay
import ContainerFeed.Proofs.Settings
import ContainerFeed.Proofs.Store.Reading
import ContainerFeed.Proofs.Store.Retention
import ContainerFeed.Proofs.Template.Acceptance
import ContainerFeed.Proofs.Template.Compiling
import ContainerFeed.Proofs.Template.Encodings
import ContainerFeed.Proofs.Template.Found
import ContainerFeed.Proofs.Template.Groups
import ContainerFeed.Proofs.Template.Lookup
import ContainerFeed.Proofs.Template.Positions
import ContainerFeed.Proofs.Template.Regions
import ContainerFeed.Proofs.Template.Registration
import ContainerFeed.Proofs.Template.Remains
import ContainerFeed.Proofs.Template.Roots
import ContainerFeed.Proofs.Template.Skeletons
import ContainerFeed.Proofs.Template.Substitution
import ContainerFeed.Proofs.Text.OctetOrder
import ContainerFeed.Proofs.Text.Trimming
import ContainerFeed.Proofs.Time.Calendar
import ContainerFeed.Proofs.Time.SampleTime
import ContainerFeed.Proofs.Time.Stamps
import ContainerFeed.Publisher
import ContainerFeed.Publisher.Fault
import ContainerFeed.Scalar
import ContainerFeed.Settings
import ContainerFeed.Store
import ContainerFeed.Store.Container
import ContainerFeed.Store.Counters
import ContainerFeed.Store.History
import ContainerFeed.Template
import ContainerFeed.Template.Builtin
import ContainerFeed.Template.Fault
import ContainerFeed.Template.Region
import ContainerFeed.Template.Source
import ContainerFeed.Template.Spec
import ContainerFeed.Template.Table
import ContainerFeed.Testkit.BatchBuilder
import ContainerFeed.Testkit.Harness
import ContainerFeed.Text.Blank
import ContainerFeed.Text.Numeral
import ContainerFeed.Text.Octets
import ContainerFeed.Time.Calendar
import ContainerFeed.Time.Span
import ContainerFeed.Time.SpanText
import ContainerFeed.Time.Timestamp
import ContainerFeed.Yaml.Cell
import ContainerFeed.Yaml.Layout
import ContainerFeed.Yaml.Lexer
import ContainerFeed.Yaml.Reader
import ContainerFeed.Yaml.Resolution
import ContainerFeed.Yaml.Scalar
import ContainerFeed.Yaml.Token
