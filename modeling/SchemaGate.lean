import SchemaGate.Catalog.Instance
import SchemaGate.Catalog.References
import SchemaGate.Datum
import SchemaGate.Digraph.Reachability
import SchemaGate.Main
import SchemaGate.Schema.Acceptance
import SchemaGate.Schema.Comparison
import SchemaGate.Schema.Conformance
import SchemaGate.Schema.Equality
import SchemaGate.Tool.Gate
import SchemaGate.Proofs.Catalog.Resolution
import SchemaGate.Proofs.Digraph.Cycles
import SchemaGate.Proofs.Digraph.Leftover
import SchemaGate.Proofs.Catalog.ReferenceGraph
import SchemaGate.Proofs.Catalog.Replacement
import SchemaGate.Proofs.Schema.Sharing
import SchemaGate.Proofs.Json.PartOrder
import SchemaGate.Proofs.Schema.Projection
import SchemaGate.Proofs.Schema.Closure
import SchemaGate.Proofs.Catalog.Assembly
import SchemaGate.Proofs.Catalog.Declaration
import SchemaGate.Proofs.Catalog.Instances
import SchemaGate.Proofs.Schema.Counters
import SchemaGate.Proofs.Catalog.Locality
import SchemaGate.Proofs.Catalog.Sides
import SchemaGate.Proofs.Schema.Agreement
import SchemaGate.Tool.History
import SchemaGate.Proofs.Schema.RoundTrip
import SchemaGate.Proofs.Tool.Listing
import SchemaGate.Proofs.Tool.Calls
import SchemaGate.Proofs.Schema.Shortfall
import SchemaGate.Proofs.Catalog.Records
import SchemaGate.Proofs.Tool.Responses
import SchemaGate.Proofs.Catalog.CycleAudit
import SchemaGate.Proofs.Schema.Visibility
import SchemaGate.Proofs.Catalog.StoredForms
import SchemaGate.Proofs.CommandLine.Recheck
import SchemaGate.Proofs.Catalog.CycleReport
import SchemaGate.Proofs.Catalog.Bound
import SchemaGate.Proofs.Catalog.Mirror
import SchemaGate.Proofs.Catalog.FirstOffence
import SchemaGate.Proofs.Schema.Relaxation
import SchemaGate.Proofs.Catalog.Creation
import SchemaGate.Proofs.Schema.PathText
import SchemaGate.Proofs.Digraph.Passage
