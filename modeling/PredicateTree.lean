import PredicateTree.Folding.Fold
import PredicateTree.Proofs.Equality.Congruence
import PredicateTree.Proofs.Evaluation.Attribution
import PredicateTree.Proofs.Evaluation.FreeParameters
import PredicateTree.Proofs.Evaluation.Lambdas
import PredicateTree.Proofs.Evaluation.Paths
import PredicateTree.Proofs.Evaluation.Structure
import PredicateTree.Proofs.Folding.Classification
import PredicateTree.Proofs.Folding.Commutation
import PredicateTree.Proofs.Folding.InvalidOverrides
import PredicateTree.Proofs.Folding.Strictness
import PredicateTree.Proofs.Format.Readability
import PredicateTree.Proofs.Renaming.Chains
import PredicateTree.Proofs.Renaming.Pointwise
import PredicateTree.Proofs.Traversal.FreeOccurrences
import PredicateTree.Proofs.Traversal.References
import PredicateTree.Proofs.Typing.Soundness
import PredicateTree.Value.Change
import PredicateTree.Value.Copy
