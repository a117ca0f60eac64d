import StartNodes.Cache.Basic
import StartNodes.Cache.Invalidation
import StartNodes.Cache.Timeout
import StartNodes.Command.Arguments
import StartNodes.Command.Files
import StartNodes.Command.Grammar
import StartNodes.Command.Help
import StartNodes.Command.Run
import StartNodes.Decimal.Binary64
import StartNodes.Decimal.Numeral
import StartNodes.Decimal.Reading
import StartNodes.Decimal.Shortest
import StartNodes.Directory.Basic
import StartNodes.Directory.Snapshot
import StartNodes.Directory.Trees
import StartNodes.Graph.Basic
import StartNodes.Graph.Search
import StartNodes.Hierarchy
import StartNodes.Item
import StartNodes.Json.Printer
import StartNodes.Json.Reader
import StartNodes.Json.Shown
import StartNodes.Json.Value
import StartNodes.Main
import StartNodes.NodeName
import StartNodes.Path
import StartNodes.Principal
import StartNodes.Proofs.Cache.Computed
import StartNodes.Proofs.Cache.Contention
import StartNodes.Proofs.Cache.Forgetting
import StartNodes.Proofs.Cache.Programs
import StartNodes.Proofs.Cache.Reached
import StartNodes.Proofs.Cache.Refinement
import StartNodes.Proofs.Cache.Registry
import StartNodes.Proofs.Cache.Slots
import StartNodes.Proofs.Command.Arguments
import StartNodes.Proofs.Command.Files
import StartNodes.Proofs.Command.Given
import StartNodes.Proofs.Command.Printed
import StartNodes.Proofs.Command.Runs
import StartNodes.Proofs.Decimal.Canonical
import StartNodes.Proofs.Decimal.Length
import StartNodes.Proofs.Decimal.RoundTrip
import StartNodes.Proofs.Directory.Ancestry
import StartNodes.Proofs.Directory.EditedPaths
import StartNodes.Proofs.Directory.Edits
import StartNodes.Proofs.Directory.Likeness
import StartNodes.Proofs.Directory.Loads
import StartNodes.Proofs.Directory.Paths
import StartNodes.Proofs.Directory.Regrouped
import StartNodes.Proofs.Directory.Reload
import StartNodes.Proofs.Directory.Reports
import StartNodes.Proofs.Directory.Respelled
import StartNodes.Proofs.Directory.Snapshots
import StartNodes.Proofs.Graph.Edges
import StartNodes.Proofs.Graph.Lineage
import StartNodes.Proofs.Graph.Reshape
import StartNodes.Proofs.Graph.Search
import StartNodes.Proofs.Graph.Subtree
import StartNodes.Proofs.Graph.Trail
import StartNodes.Proofs.Graph.Tree
import StartNodes.Proofs.Json.Plain
import StartNodes.Proofs.Json.RoundTrip
import StartNodes.Proofs.List.Distinct
import StartNodes.Proofs.List.Lookup
import StartNodes.Proofs.Path.Codec
import StartNodes.Proofs.Path.Containment
import StartNodes.Proofs.Path.RoundTrip
import StartNodes.Proofs.Principal.View
import StartNodes.Proofs.Scope.ClosedForm
import StartNodes.Proofs.Scope.Combine
import StartNodes.Proofs.Scope.Descent
import StartNodes.Proofs.Scope.Growth
import StartNodes.Proofs.Scope.NormalForm
import StartNodes.Proofs.Scope.Order
import StartNodes.Proofs.Scope.Spelling
import StartNodes.Proofs.Service.Access
import StartNodes.Proofs.Service.Answering
import StartNodes.Proofs.Service.Apart
import StartNodes.Proofs.Service.Contention
import StartNodes.Proofs.Service.Elsewhere
import StartNodes.Proofs.Service.Frozen
import StartNodes.Proofs.Service.Indistinct
import StartNodes.Proofs.Service.Kept
import StartNodes.Proofs.Service.Lookups
import StartNodes.Proofs.Service.Perform
import StartNodes.Proofs.Service.Refinement
import StartNodes.Proofs.Service.RootAccess
import StartNodes.Proofs.Service.Runs
import StartNodes.Proofs.Service.Serving
import StartNodes.Proofs.Service.Trashed
import StartNodes.Proofs.Text.Ascii
import StartNodes.Scope.Access
import StartNodes.Scope.Combine
import StartNodes.Scope.Lookup
import StartNodes.Scope.Profile
import StartNodes.Scope.Stored
import StartNodes.Service.Basic
import StartNodes.Service.Cached
import StartNodes.Service.Queries
import StartNodes.Settings
import StartNodes.Text.Blank
import StartNodes.Text.CodePoint
import StartNodes.Text.Digit
import StartNodes.Text.FileName
import StartNodes.Text.Printable
import StartNodes.Text.Quoted
import StartNodes.Text.Utf8
import StartNodes.Validation.Fault
import StartNodes.Validation.NumberText
import StartNodes.Validation.Principal
import StartNodes.Validation.Value
