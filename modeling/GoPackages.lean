import GoPackages.Environment.FileRules
import GoPackages.Environment.Import
import GoPackages.Locator.FileTree
import GoPackages.Locator.SourceRoots
import GoPackages.Locator.Workspace
import GoPackages.Registry.Implementations
import GoPackages.Source.Builder
import GoPackages.Source.Unfold
import GoPackages.Proofs.TypeGraph.Path
import GoPackages.Proofs.TypeGraph.Redirect
import GoPackages.Proofs.TypeGraph.Run
import GoPackages.Proofs.TypeGraph.Alias
import GoPackages.Proofs.TypeGraph.Attached
import GoPackages.Proofs.Analysis.After
import GoPackages.Proofs.Analysis.Extends
import GoPackages.Proofs.Analysis.Denotes
import GoPackages.Proofs.Analysis.Reads
import GoPackages.Proofs.Analysis.Resolve
import GoPackages.Proofs.Analysis.Members
import GoPackages.Proofs.Registry.Declare
import GoPackages.Proofs.Analysis.TypeSpecs
import GoPackages.Proofs.Analysis.Values
import GoPackages.Proofs.Registry.Actions
import GoPackages.Proofs.TypeGraph.Bound
import GoPackages.Proofs.Registry.Builtins
import GoPackages.Proofs.Environment.Moves
import GoPackages.Proofs.Environment.Isolation
import GoPackages.Proofs.Analysis.Written
import GoPackages.Proofs.Environment.Items
import GoPackages.Proofs.Registry.Later
import GoPackages.Proofs.Environment.Recorded
import GoPackages.Proofs.Environment.Tracks
import GoPackages.Proofs.Environment.Progress
import GoPackages.Proofs.Environment.Files
import GoPackages.Proofs.Environment.ForwardReferences
import GoPackages.Proofs.Registry.WellFormed
import GoPackages.Proofs.Registry.Edits
import GoPackages.Proofs.Analysis.Works
import GoPackages.Proofs.Registry.Outlines
import GoPackages.Proofs.Environment.Settles
import GoPackages.Proofs.Environment.WellFormed
import GoPackages.Proofs.Environment.Nesting
import GoPackages.Proofs.Analysis.Steady
import GoPackages.Proofs.Analysis.Consults
import GoPackages.Proofs.Analysis.Views
import GoPackages.Proofs.Analysis.Sites
import GoPackages.Proofs.Analysis.Expands
import GoPackages.Proofs.Environment.Terminals
import GoPackages.Proofs.Environment.Lookups
import GoPackages.Proofs.Environment.Redirects
import GoPackages.Proofs.Environment.Places
import GoPackages.Proofs.Environment.Readings
import GoPackages.Proofs.Environment.Covers
import GoPackages.Proofs.Environment.Ends
import GoPackages.Proofs.Environment.Unordered
import GoPackages.Proofs.Environment.Implementing
import GoPackages.Proofs.Environment.Reordering
import GoPackages.Proofs.Environment.Fresh
import GoPackages.Proofs.Environment.OrderIndependence
import GoPackages.Proofs.Environment.Visits
import GoPackages.Proofs.Environment.Quiet
import GoPackages.Proofs.Environment.Loops
import GoPackages.Proofs.Environment.Once
import GoPackages.Proofs.Environment.PackageCalls
import GoPackages.Proofs.Registry.Course
import GoPackages.Proofs.Registry.Tables
import GoPackages.Proofs.Registry.Lookup
import GoPackages.Proofs.Registry.Interchange
import GoPackages.Proofs.Environment.Precedence
import GoPackages.Proofs.Environment.Gains
import GoPackages.Proofs.Environment.QualifiedNames
import GoPackages.Proofs.Environment.PackageRecords
import GoPackages.Proofs.Environment.CrossPackage
import GoPackages.Proofs.Registry.PackageTree
import GoPackages.Proofs.Environment.Steps
import GoPackages.Proofs.Environment.Trace
import GoPackages.Proofs.Environment.Traced
import GoPackages.Proofs.Environment.Requests
import GoPackages.Proofs.Environment.Protocol
import GoPackages.Proofs.Environment.Documentation
import GoPackages.Proofs.Registry.Heads
import GoPackages.Proofs.Registry.Recursion
import GoPackages.Proofs.Environment.RecursiveAliases
import GoPackages.Proofs.StructTag.Acceptance
import GoPackages.Proofs.StructTag.RoundTrip
import GoPackages.Proofs.StructTag.Literals
import GoPackages.Proofs.TypeGraph.Identity
import GoPackages.Proofs.TypeGraph.Satisfaction
import GoPackages.Proofs.Package.DeclLists
import GoPackages.Proofs.Package.Headings
import GoPackages.Proofs.Analysis.Conservative
import GoPackages.Proofs.Registry.ListedTypes
import GoPackages.Proofs.StructTag.FirstOfKey
import GoPackages.Proofs.Analysis.Batches
import GoPackages.Proofs.Analysis.DeclaredMembers
import GoPackages.Proofs.Analysis.Closure
import GoPackages.Proofs.Analysis.Shields
import GoPackages.Proofs.Registry.ListedValues
import GoPackages.Proofs.TypeGraph.Upholds
import GoPackages.Proofs.Registry.StoredTypes
import GoPackages.Proofs.Registry.TypeParameters
import GoPackages.Proofs.Registry.OutOfReach
import GoPackages.Proofs.Registry.ParameterScopes
import GoPackages.Proofs.Environment.ItemRuns
import GoPackages.Proofs.Environment.ConstantGroups
import GoPackages.Proofs.Environment.LiteralTypes
import GoPackages.Proofs.Environment.EmbeddedFields
import GoPackages.Proofs.Text.Utf8
import GoPackages.Proofs.StructTag.Composition
import GoPackages.Proofs.StructTag.ByteCursor
import GoPackages.Proofs.StructTag.ByteCuts
import GoPackages.Proofs.Analysis.Spine
import GoPackages.Proofs.TypeGraph.RecordedInterfaces
import GoPackages.Proofs.Environment.RecordedImplementations
import GoPackages.Proofs.Registry.OverruledMethods
import GoPackages.Proofs.Environment.ListedInterfaces
import GoPackages.Proofs.Environment.OverruledRecords
import GoPackages.Proofs.Environment.RepeatedImports
import GoPackages.Proofs.Package.InsertionOrder
import GoPackages.Proofs.Source.Recovery
import GoPackages.Proofs.Locator.PackageClause
import GoPackages.Proofs.Locator.Components
import GoPackages.Proofs.Locator.Agreement
import GoPackages.Proofs.Source.ParameterLists
import GoPackages.Proofs.Source.NodeOrder
import GoPackages.Proofs.Source.LayeredBuilds
import GoPackages.Proofs.Source.LayeredCalls
import GoPackages.Proofs.Source.Unfolding
import GoPackages.Proofs.Source.NodeReadings
import GoPackages.Proofs.Source.Interning
import GoPackages.Proofs.IndexedMap
import GoPackages.Proofs.Source.ParameterNames
