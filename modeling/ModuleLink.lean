import ModuleLink.Binary.Codec
import ModuleLink.Binding.Basic
import ModuleLink.Binding.Render
import ModuleLink.Binding.Request
import ModuleLink.Binding.Resolve
import ModuleLink.Condition
import ModuleLink.Connection
import ModuleLink.Data.Dict
import ModuleLink.Data.Distinct
import ModuleLink.Decimal.Shortest
import ModuleLink.Exchange.Basic
import ModuleLink.Exchange.Exports
import ModuleLink.Exchange.Merge
import ModuleLink.Exchange.Module
import ModuleLink.Exports.Arena
import ModuleLink.Exports.Marking
import ModuleLink.Exports.Record
import ModuleLink.Exports.Snapshot
import ModuleLink.Exports.State
import ModuleLink.Exports.Summary
import ModuleLink.Graph.Attributes
import ModuleLink.Graph.Basic
import ModuleLink.Graph.Binary
import ModuleLink.Graph.Dot
import ModuleLink.Graph.Edit
import ModuleLink.Graph.Error
import ModuleLink.Graph.Query
import ModuleLink.Graph.Target
import ModuleLink.Identifier
import ModuleLink.LogLevel
import ModuleLink.Merge.Basic
import ModuleLink.Merge.Error
import ModuleLink.Merge.Walk
import ModuleLink.Module
import ModuleLink.ModuleId
import ModuleLink.Options
import ModuleLink.Options.File
import ModuleLink.Path
import ModuleLink.Proofs.Basic
import ModuleLink.Proofs.Condition
import ModuleLink.Proofs.MergeSet
import ModuleLink.Proofs.Merge.Imports
import ModuleLink.Proofs.Merge.Walk
import ModuleLink.Proofs.Merge.Complete
import ModuleLink.Proofs.Merge.Order
import ModuleLink.Proofs.Rename.Allocation
import ModuleLink.Proofs.Rename.FreshName
import ModuleLink.PropertyAccess
import ModuleLink.Readable
import ModuleLink.Rename.Candidate
import ModuleLink.Rename.Table
import ModuleLink.Rename.Visibility
import ModuleLink.ReservedName
import ModuleLink.RuntimeSpec
import ModuleLink.Scope
import ModuleLink.Text.CharClass
import ModuleLink.Text.CharRange
import ModuleLink.Text.JsonString
import ModuleLink.Text.Lowercase
import ModuleLink.Text.Printable
import ModuleLink.Text.Quoted
import ModuleLink.Text.Raw
import ModuleLink.Toml.Date
import ModuleLink.Toml.Document
import ModuleLink.Toml.Lexical
import ModuleLink.Toml.Table
import ModuleLink.Value.Basic
import ModuleLink.Value.Json
import ModuleLink.Value.Number
import ModuleLink.Proofs.Rename.Capture
import ModuleLink.Proofs.Exports.Operation
import ModuleLink.Proofs.Exports.Redirect
import ModuleLink.Proofs.Graph.Operation
import ModuleLink.Proofs.Graph.Lists
import ModuleLink.Proofs.Graph.Edges
import ModuleLink.Proofs.Graph.Target
import ModuleLink.Proofs.Graph.Reexport
import ModuleLink.Proofs.Binding.Agreement
import ModuleLink.Proofs.Binding.Termination
import ModuleLink.Proofs.Merge.Refusal
import ModuleLink.Proofs.Merge.External
import ModuleLink.Proofs.Exports.Descent
import ModuleLink.Proofs.Exports.Usage
import ModuleLink.Proofs.Exports.Provision
import ModuleLink.Proofs.Exports.Monotone
import ModuleLink.Proofs.Exports.Ownership
import ModuleLink.Proofs.Exports.Snapshot
import ModuleLink.Proofs.Exports.Restore
import ModuleLink.Proofs.Graph.Hops
import ModuleLink.Proofs.Graph.Failure
import ModuleLink.Proofs.Binary.Codec
import ModuleLink.Proofs.Exports.Forest
import ModuleLink.Proofs.Binary.Graph
import ModuleLink.Proofs.Graph.Storage
import ModuleLink.Proofs.Binding.Cycle
import ModuleLink.Proofs.Binding.Unguarded
import ModuleLink.Proofs.Exports.Creation
import ModuleLink.Proofs.Exports.Marking
import ModuleLink.Proofs.Exports.Swap
import ModuleLink.Proofs.Exports.Completion
import ModuleLink.Proofs.Binding.Outcome
import ModuleLink.Proofs.Binding.Needed
import ModuleLink.Proofs.Exports.Circle
import ModuleLink.Proofs.Exports.Spelling
import ModuleLink.Proofs.Binding.Symbol
import ModuleLink.Proofs.Exports.Trail
import ModuleLink.Proofs.Exports.Account
import ModuleLink.Proofs.Exports.Report
import ModuleLink.Proofs.Exports.Star
import ModuleLink.Proofs.Merge.Idle
import ModuleLink.Proofs.Exports.Rollback
import ModuleLink.Proofs.Graph.Move
import ModuleLink.Proofs.Binding.Deferral
import ModuleLink.Proofs.Exports.Consumption
import ModuleLink.Proofs.Exports.SideEffects
import ModuleLink.Proofs.Connection
import ModuleLink.Proofs.Graph.Retarget
import ModuleLink.Proofs.Identifier
import ModuleLink.Proofs.Rename.Candidate
import ModuleLink.Proofs.StringLiteral
import ModuleLink.Proofs.PropertyAccess
import ModuleLink.Proofs.Exports.Listing
import ModuleLink.Proofs.Binary.Frame
import ModuleLink.Proofs.Decimal.Nearest
import ModuleLink.Proofs.Decimal.Shortest
import ModuleLink.Proofs.ModuleId
import ModuleLink.Proofs.NumericKey
import ModuleLink.Proofs.Rename.ScopeWalk
import ModuleLink.Proofs.Rename.Visibility
import ModuleLink.Proofs.SourceText
import ModuleLink.Proofs.Binding.Comment
