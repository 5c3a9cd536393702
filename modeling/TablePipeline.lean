import TablePipeline.Calendar.Date
import TablePipeline.Calendar.Reading
import TablePipeline.Calendar.Timestamp
import TablePipeline.Connection.Client
import TablePipeline.Connection.Column
import TablePipeline.Connection.Descriptor
import TablePipeline.Connection.Endpoint
import TablePipeline.Connection.Firebird
import TablePipeline.Exchange.Client
import TablePipeline.Exchange.Frame
import TablePipeline.Exchange.Plan
import TablePipeline.Exchange.Scalar
import TablePipeline.Exchange.Sql
import TablePipeline.Execution.Engine
import TablePipeline.Execution.Gather
import TablePipeline.Execution.Memory
import TablePipeline.Execution.Result
import TablePipeline.Execution.Services
import TablePipeline.Execution.Sources
import TablePipeline.Execution.Target
import TablePipeline.Failure
import TablePipeline.Frame.Basic
import TablePipeline.Frame.Name
import TablePipeline.Frame.Rule
import TablePipeline.Graph.Basic
import TablePipeline.Graph.Check
import TablePipeline.Graph.Config
import TablePipeline.Graph.Error
import TablePipeline.Graph.Order
import TablePipeline.Json
import TablePipeline.Json.Reading
import TablePipeline.Json.Shape
import TablePipeline.Main
import TablePipeline.Number.Binary64
import TablePipeline.Number.Binary64.Layout
import TablePipeline.Number.Binary64.Reading
import TablePipeline.Number.Conversion
import TablePipeline.Number.Decimal
import TablePipeline.Number.Decimal.Arithmetic
import TablePipeline.Number.Decimal.Reading
import TablePipeline.Number.Digits
import TablePipeline.Number.Integer
import TablePipeline.Number.Rounding
import TablePipeline.Pipeline.Descriptor
import TablePipeline.Plan.Basic
import TablePipeline.Plan.Compile
import TablePipeline.Plan.Rule
import TablePipeline.Plan.Schema
import TablePipeline.Plan.Stage
import TablePipeline.Proofs.Execution.Counting
import TablePipeline.Proofs.Execution.Fitting
import TablePipeline.Proofs.Execution.Sessions
import TablePipeline.Proofs.Execution.SharedRun
import TablePipeline.Proofs.Execution.StrictGathering
import TablePipeline.Proofs.Execution.Tracking
import TablePipeline.Proofs.Execution.Untouched
import TablePipeline.Proofs.Frame.EmptyResults
import TablePipeline.Proofs.Frame.RowRules
import TablePipeline.Proofs.Graph.Cycles
import TablePipeline.Proofs.Graph.Reordering
import TablePipeline.Proofs.Plan.Aliases
import TablePipeline.Proofs.Plan.Failures
import TablePipeline.Proofs.Plan.SelectLists
import TablePipeline.Proofs.Query.Arithmetic
import TablePipeline.Proofs.Query.Conditions
import TablePipeline.Proofs.Query.Folding
import TablePipeline.Proofs.Rows.FilteredProduct
import TablePipeline.Proofs.Rule.Decided
import TablePipeline.Proofs.Rule.Like
import TablePipeline.Proofs.Rule.Orientation
import TablePipeline.Proofs.Rule.Serials
import TablePipeline.Proofs.Rule.WholeNumbers
import TablePipeline.Proofs.Rule.Widening
import TablePipeline.Proofs.Run.Lifecycle
import TablePipeline.Proofs.Run.Reaping
import TablePipeline.Proofs.Secret.Vault
import TablePipeline.Proofs.Sql.Injection
import TablePipeline.Proofs.Sql.Placeholders
import TablePipeline.Proofs.Sql.Segments
import TablePipeline.Proofs.Sql.Unambiguous
import TablePipeline.Proofs.Sql.Unquoting
import TablePipeline.Proofs.Warehouse.BatchStatements
import TablePipeline.Proofs.Warehouse.SessionLocks
import TablePipeline.Proofs.Warehouse.TablePaths
import TablePipeline.Rehearsal.Label
import TablePipeline.Rehearsal.Server
import TablePipeline.Rehearsal.Source
import TablePipeline.Rule.Arithmetic
import TablePipeline.Rule.Cast
import TablePipeline.Rule.Comparison
import TablePipeline.Rule.Join
import TablePipeline.Rule.Like
import TablePipeline.Rule.Policy
import TablePipeline.Run.Basic
import TablePipeline.Run.Id
import TablePipeline.Run.Store
import TablePipeline.Run.Sweep
import TablePipeline.Scalar
import TablePipeline.Secret.Aes256
import TablePipeline.Secret.Base64
import TablePipeline.Secret.Gcm
import TablePipeline.Secret.Sha256
import TablePipeline.Secret.Vault
import TablePipeline.Service.Address
import TablePipeline.Service.Document
import TablePipeline.Service.Handler
import TablePipeline.Service.Location
import TablePipeline.Service.Message
import TablePipeline.Service.Route
import TablePipeline.Service.Sampling
import TablePipeline.Service.Settings
import TablePipeline.Service.Startup
import TablePipeline.Sql.Clause
import TablePipeline.Sql.Dialect
import TablePipeline.Sql.Error
import TablePipeline.Sql.Name
import TablePipeline.Sql.Operator
import TablePipeline.Sql.Piece
import TablePipeline.Sql.Syntax
import TablePipeline.Sql.Writing
import TablePipeline.Text.Class
import TablePipeline.Text.Quoted
import TablePipeline.Text.Utf8
import TablePipeline.Text.Yaml
import TablePipeline.Warehouse.Batch
import TablePipeline.Warehouse.Memory
import TablePipeline.Warehouse.Postgres
import TablePipeline.Warehouse.Statement
import TablePipeline.Warehouse.Table
