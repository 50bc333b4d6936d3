import GraphTransformation.Decimal.Reading
import GraphTransformation.Graph.Dot
import GraphTransformation.Main
import GraphTransformation.Proofs.Derivation.Runs
import GraphTransformation.Proofs.Production.Structure
import GraphTransformation.Proofs.Search.Exactness
import GraphTransformation.Proofs.Production.Validity
import GraphTransformation.Proofs.Search.Verification
import GraphTransformation.Proofs.Production.Effect
import GraphTransformation.Proofs.Production.Failure
import GraphTransformation.Proofs.Graph.Succession
import GraphTransformation.Proofs.Derivation.Lineage
import GraphTransformation.Proofs.Derivation.Matching
import GraphTransformation.Proofs.Derivation.Failure
import GraphTransformation.Proofs.Graph.Renaming
import GraphTransformation.Proofs.Production.Commutation
import GraphTransformation.Proofs.Derivation.Resumption
import GraphTransformation.Proofs.Exhaustion
import GraphTransformation.Proofs.Allocation
import GraphTransformation.Proofs.Descent
import GraphTransformation.Proofs.Production.Revalidation
import GraphTransformation.Proofs.Graph.Saving
import GraphTransformation.Proofs.Json.Numbers
import GraphTransformation.Proofs.Json.Scanning
import GraphTransformation.Proofs.Value
import GraphTransformation.Proofs.Graph.Admission
import GraphTransformation.Proofs.Production.Attributes
import GraphTransformation.Proofs.Production.Reoccurrence
import GraphTransformation.Proofs.Search.Interruption
import GraphTransformation.Proofs.Search.Lawful
import GraphTransformation.Proofs.Declaration.Graph
import GraphTransformation.Proofs.Graph.Removal
import GraphTransformation.Proofs.Declaration.Pairs
import GraphTransformation.Proofs.Production.Drafts
import GraphTransformation.Proofs.Declaration.Production
import GraphTransformation.Proofs.Graph.Incidence
import GraphTransformation.Proofs.Graph.Restriction
import GraphTransformation.Proofs.Production.Covering
import GraphTransformation.Proofs.Production.Insertions
import GraphTransformation.Proofs.Search.Restatement
import GraphTransformation.Proofs.Dot.Drawing
import GraphTransformation.Proofs.Graph.Conditions
import GraphTransformation.Proofs.Comparison
import GraphTransformation.Proofs.Search.Placement
import GraphTransformation.Proofs.Search.Sequence
