import ContentStore.Access.Context
import ContentStore.Access.Operator
import ContentStore.Access.Principal
import ContentStore.Catalog.Declaration
import ContentStore.Catalog.Document
import ContentStore.Catalog.Param
import ContentStore.CommandLine.Arguments
import ContentStore.CommandLine.Request
import ContentStore.CommandLine.Run
import ContentStore.Embedding.Assembly
import ContentStore.Embedding.Completion
import ContentStore.Embedding.Cycles
import ContentStore.Embedding.Instances
import ContentStore.Error
import ContentStore.Event
import ContentStore.Ident.Basic
import ContentStore.Ident.Version
import ContentStore.Item.Basic
import ContentStore.Item.Change
import ContentStore.Item.Param
import ContentStore.Json.Basic
import ContentStore.Json.Printer
import ContentStore.Json.Reader
import ContentStore.Json.Record
import ContentStore.Main
import ContentStore.Number.Binary64
import ContentStore.Number.Decimal
import ContentStore.Number.Word
import ContentStore.Pairing
import ContentStore.Proofs.Announcements
import ContentStore.Proofs.Catalog.Batches
import ContentStore.Proofs.Catalog.Changes
import ContentStore.Proofs.Catalog.Closed
import ContentStore.Proofs.Catalog.Fields
import ContentStore.Proofs.Catalog.Loading
import ContentStore.Proofs.Catalog.Models
import ContentStore.Proofs.Catalog.Nesting
import ContentStore.Proofs.Catalog.Order
import ContentStore.Proofs.Catalog.Packages
import ContentStore.Proofs.Catalog.Redrawn
import ContentStore.Proofs.Catalog.Rewriting
import ContentStore.Proofs.Catalog.Shapes
import ContentStore.Proofs.Catalog.Targets
import ContentStore.Proofs.Catalog.Ties
import ContentStore.Proofs.Catalog.TwoWay
import ContentStore.Proofs.Catalog.WellFormed
import ContentStore.Proofs.Catalog.Wired
import ContentStore.Proofs.Catalog.Zones
import ContentStore.Proofs.Contents
import ContentStore.Proofs.Declarations.Additions
import ContentStore.Proofs.Declarations.Applying
import ContentStore.Proofs.Declarations.Entries
import ContentStore.Proofs.Declarations.Fields
import ContentStore.Proofs.Declarations.Interrupted
import ContentStore.Proofs.Declarations.Repeated
import ContentStore.Proofs.Declarations.Runs
import ContentStore.Proofs.Declarations.Spared
import ContentStore.Proofs.Effects
import ContentStore.Proofs.Embedding.Assembling
import ContentStore.Proofs.Embedding.Ending
import ContentStore.Proofs.Embedding.Governing
import ContentStore.Proofs.Embedding.Known
import ContentStore.Proofs.Embedding.Reaching
import ContentStore.Proofs.Embedding.Rendering
import ContentStore.Proofs.Embedding.Rounds
import ContentStore.Proofs.Embedding.Search
import ContentStore.Proofs.Embedding.Traversals
import ContentStore.Proofs.Histories.Calls
import ContentStore.Proofs.Histories.Conflicts
import ContentStore.Proofs.Histories.Growth
import ContentStore.Proofs.Histories.Published
import ContentStore.Proofs.Histories.Returned
import ContentStore.Proofs.Histories.Rows
import ContentStore.Proofs.Histories.Saves
import ContentStore.Proofs.Histories.Sound
import ContentStore.Proofs.Identifiers
import ContentStore.Proofs.Items.Accepted
import ContentStore.Proofs.Items.Besides
import ContentStore.Proofs.Items.Changes
import ContentStore.Proofs.Items.Completion
import ContentStore.Proofs.Items.Conforming
import ContentStore.Proofs.Items.Input
import ContentStore.Proofs.Items.Live
import ContentStore.Proofs.Items.Maps
import ContentStore.Proofs.Items.Merging
import ContentStore.Proofs.Items.Reordered
import ContentStore.Proofs.Items.Slots
import ContentStore.Proofs.Items.Trails
import ContentStore.Proofs.Loops
import ContentStore.Proofs.Metadata
import ContentStore.Proofs.Pairing.Consistency
import ContentStore.Proofs.Pairing.Edges
import ContentStore.Proofs.Pairing.Edits
import ContentStore.Proofs.Pairing.Fields
import ContentStore.Proofs.Pairing.Losses
import ContentStore.Proofs.Pairing.Minimal
import ContentStore.Proofs.Pairing.Partners
import ContentStore.Proofs.Pairing.Repairs
import ContentStore.Proofs.Pairing.Touched
import ContentStore.Proofs.Queries.Negation
import ContentStore.Proofs.Queries.Paging
import ContentStore.Proofs.Queries.Relative
import ContentStore.Proofs.Queries.Selecting
import ContentStore.Proofs.Reachable
import ContentStore.Proofs.Reads
import ContentStore.Proofs.Records
import ContentStore.Proofs.Required
import ContentStore.Proofs.Runs
import ContentStore.Proofs.Storage.Dates
import ContentStore.Proofs.Storage.Records
import ContentStore.Proofs.Storage.RoundTrip
import ContentStore.Proofs.Storage.Text
import ContentStore.Proofs.Storage.VersionIds
import ContentStore.Proofs.Uniqueness.Lookups
import ContentStore.Proofs.Uniqueness.Shared
import ContentStore.Proofs.Values.Calendar
import ContentStore.Proofs.Values.Instants
import ContentStore.Proofs.Values.Order
import ContentStore.Proofs.Values.Periods
import ContentStore.Proofs.Values.Preparing
import ContentStore.Proofs.Values.RoundTrip
import ContentStore.Proofs.Workspaces
import ContentStore.Proofs.Writes.Batches
import ContentStore.Proofs.Writes.Carried
import ContentStore.Proofs.Writes.Catalog
import ContentStore.Proofs.Writes.Content
import ContentStore.Proofs.Writes.Events
import ContentStore.Proofs.Writes.Followers
import ContentStore.Proofs.Writes.Frames
import ContentStore.Proofs.Writes.Items
import ContentStore.Proofs.Writes.Latest
import ContentStore.Proofs.Writes.Publishing
import ContentStore.Proofs.Writes.Reshaping
import ContentStore.Proofs.Writes.Sparing
import ContentStore.Proofs.Writes.Supply
import ContentStore.Query.Basic
import ContentStore.Query.Condition
import ContentStore.Query.ConditionRecord
import ContentStore.Query.Page
import ContentStore.Query.Selector
import ContentStore.Rows
import ContentStore.Schema.Basic
import ContentStore.Schema.Defect
import ContentStore.Schema.Field
import ContentStore.Schema.FieldType
import ContentStore.Schema.Package
import ContentStore.Schema.Validation
import ContentStore.Sorting
import ContentStore.Storage.Archive
import ContentStore.Storage.Packages
import ContentStore.Storage.Session
import ContentStore.Storage.Tables
import ContentStore.Store.Basic
import ContentStore.Store.Declaring
import ContentStore.Store.Fields
import ContentStore.Store.Items
import ContentStore.Store.Models
import ContentStore.Store.Opening
import ContentStore.Store.Publishing
import ContentStore.Store.Reading
import ContentStore.Text.Blank
import ContentStore.Text.LowerCase
import ContentStore.Text.LowerCase.Table
import ContentStore.Text.Order
import ContentStore.Text.Search
import ContentStore.Time.Clock
import ContentStore.Time.Date
import ContentStore.Time.Instant
import ContentStore.Time.Rfc3339
import ContentStore.Uniqueness
import ContentStore.Value.Basic
import ContentStore.Value.Coerce
import ContentStore.Value.Defect
import ContentStore.Value.Kind
import ContentStore.Value.Values
import ContentStore.Version.History
import ContentStore.Version.Ref
import ContentStore.Yaml.Cursor
import ContentStore.Yaml.Document
import ContentStore.Yaml.Node
import ContentStore.Yaml.Printer
import ContentStore.Yaml.Resolution
import ContentStore.Yaml.Scalar
import ContentStore.Yaml.Token
