import ObjectGraph.CommandLine.Run
import ObjectGraph.Main
import ObjectGraph.Path.Resolve
import ObjectGraph.Pattern.Parse
import ObjectGraph.Proofs.Document.Compressed
import ObjectGraph.Proofs.Document.Criteria
import ObjectGraph.Proofs.Document.Parts
import ObjectGraph.Proofs.Document.Symbols
import ObjectGraph.Proofs.Graph.Ancestry
import ObjectGraph.Proofs.Graph.MapKeys
import ObjectGraph.Proofs.Graph.Operation
import ObjectGraph.Proofs.Number.Equality
import ObjectGraph.Proofs.Path.Culprits
import ObjectGraph.Proofs.Path.Inserted
import ObjectGraph.Proofs.Path.Strict
import ObjectGraph.Proofs.Report.Listing
import ObjectGraph.Proofs.Report.Members
import ObjectGraph.Proofs.Search.Dangling
import ObjectGraph.Proofs.Search.DepthLimit
import ObjectGraph.Proofs.Search.Exact
import ObjectGraph.Proofs.Search.FailingRead
import ObjectGraph.Proofs.Search.FirstWalk
import ObjectGraph.Proofs.Search.Genuine
import ObjectGraph.Proofs.Search.RecordAsMap
import ObjectGraph.Proofs.Search.Renaming
import ObjectGraph.Proofs.Search.Replay
import ObjectGraph.Proofs.Search.Selection
import ObjectGraph.Proofs.Search.Subclass
import ObjectGraph.Proofs.Settings
import ObjectGraph.Report.Basic
import ObjectGraph.Search.Literal
import ObjectGraph.Settings
import ObjectGraph.Source
import ObjectGraph.Yaml.Parse
