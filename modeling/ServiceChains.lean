import ServiceChains.Analysis
import ServiceChains.Artifact
import ServiceChains.CallGraph
import ServiceChains.CallSite
import ServiceChains.Chain.Json
import ServiceChains.Chain.Key
import ServiceChains.Chain.Node
import ServiceChains.Chain.Tracer
import ServiceChains.CommandLine
import ServiceChains.CommandLine.Invocation
import ServiceChains.CommandLine.Words
import ServiceChains.Comparison
import ServiceChains.Endpoint
import ServiceChains.Error
import ServiceChains.FileTree
import ServiceChains.FileTree.Change
import ServiceChains.FileTree.Ignore
import ServiceChains.Interactions
import ServiceChains.Json.Quoted
import ServiceChains.Json.Reader
import ServiceChains.Json.Record
import ServiceChains.Json.Value
import ServiceChains.Main
import ServiceChains.Matching
import ServiceChains.Path
import ServiceChains.Proofs.Artifact
import ServiceChains.Proofs.CallGraph
import ServiceChains.Proofs.Chain.Artifact
import ServiceChains.Proofs.Chain.Calls
import ServiceChains.Proofs.Chain.Coverage
import ServiceChains.Proofs.Chain.Forest
import ServiceChains.Proofs.Chain.Key
import ServiceChains.Proofs.Chain.Occurrence
import ServiceChains.Proofs.Chain.Reordering
import ServiceChains.Proofs.Chain.Tracing
import ServiceChains.Proofs.Comparison
import ServiceChains.Proofs.Comparison.Counts
import ServiceChains.Proofs.Comparison.Report
import ServiceChains.Proofs.Interactions
import ServiceChains.Proofs.Json.Layout
import ServiceChains.Proofs.Json.Quoted
import ServiceChains.Proofs.Json.Scalar
import ServiceChains.Proofs.Matching
import ServiceChains.Proofs.Reachability
import ServiceChains.Proofs.Sorting
import ServiceChains.Proofs.Source.Method
import ServiceChains.Proofs.Source.Region
import ServiceChains.Proofs.Source.Route
import ServiceChains.Proofs.Tally
import ServiceChains.Proofs.Template
import ServiceChains.Proofs.Text.Blank
import ServiceChains.Proofs.Text.Cursor
import ServiceChains.Proofs.Text.Decimal
import ServiceChains.Reachability
import ServiceChains.Scan.ServiceList
import ServiceChains.Scan.SourceFile
import ServiceChains.Settings
import ServiceChains.Settings.Layers
import ServiceChains.Settings.Load
import ServiceChains.Settings.Toml
import ServiceChains.Source.Client
import ServiceChains.Source.Mapping
import ServiceChains.Source.Method
import ServiceChains.Source.Region
import ServiceChains.Source.Route
import ServiceChains.Source.SourceUnit
import ServiceChains.Table
import ServiceChains.Template
import ServiceChains.Text.Blank
import ServiceChains.Text.Cursor
import ServiceChains.Text.Decimal
import ServiceChains.Text.Word
import ServiceChains.Toml.Entries
import ServiceChains.Toml.Reader
import ServiceChains.Toml.Scalar
import ServiceChains.Toml.Text
import ServiceChains.Toml.Value
import ServiceChains.Toml.Writer
import ServiceChains.Verb
import ServiceChains.Proofs.Source.Client
import ServiceChains.Proofs.FileTree.Following
import ServiceChains.Proofs.Path
import ServiceChains.Proofs.FileTree.Below
import ServiceChains.Proofs.Scan.SourceFile
import ServiceChains.Proofs.Scan.Agreement
import ServiceChains.Proofs.FileTree.Removal
import ServiceChains.Proofs.Scan.Report
import ServiceChains.Proofs.Scan.Isolation
import ServiceChains.Proofs.FailedWrite
import ServiceChains.Proofs.Settings.Layers
import ServiceChains.Proofs.Template.Literals
import ServiceChains.Proofs.Matching.Partial
import ServiceChains.Proofs.Chain.Rewriting
import ServiceChains.Proofs.Matching.Policy
import ServiceChains.Proofs.Source.Blanking
import ServiceChains.Proofs.Source.Binding
import ServiceChains.Proofs.Text.Leftmost
import ServiceChains.Proofs.Source.SourceUnit
import ServiceChains.Proofs.Text.LastDot
import ServiceChains.Proofs.Chain.Triggers
import ServiceChains.Proofs.Scan.Discovery
import ServiceChains.Proofs.Relations
import ServiceChains.Proofs.CallGraph.Sources
import ServiceChains.Proofs.Scan.ServiceList
import ServiceChains.Proofs.Toml.Quoted
import ServiceChains.Proofs.Toml.Scalar
import ServiceChains.Proofs.Toml.Document
import ServiceChains.Proofs.Settings.RoundTrip
import ServiceChains.Proofs.Text.Encoding
import ServiceChains.Proofs.Source.Buffer
import ServiceChains.Proofs.Source.Overwriting
