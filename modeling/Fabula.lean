import Fabula.Disk
import Fabula.Main
import Fabula.Proofs.Change
import Fabula.Proofs.Delivery
import Fabula.Proofs.Safety
import Fabula.Proofs.Consistency
import Fabula.Proofs.Clock
import Fabula.Proofs.History
import Fabula.Proofs.Duration
import Fabula.Proofs.Frames
import Fabula.Proofs.Limit
import Fabula.Proofs.Rendering
import Fabula.Proofs.Declaration
import Fabula.Proofs.WellFormed
import Fabula.Proofs.Agreement
import Fabula.Proofs.Assignment
import Fabula.Proofs.Classes
import Fabula.Proofs.Provenance
import Fabula.Proofs.Lines
import Fabula.Proofs.Composition
import Fabula.Proofs.Opening
import Fabula.Proofs.Independence
import Fabula.Proofs.Coverage
import Fabula.Proofs.Verdict
import Fabula.Proofs.Meaning
import Fabula.Proofs.LastEffect
import Fabula.Proofs.Precedence
import Fabula.Proofs.Spacing
import Fabula.Proofs.Leaves
import Fabula.Proofs.Atomicity
import Fabula.Proofs.Acceptance
import Fabula.Proofs.Expansion
import Fabula.Proofs.RuleOrder
import Fabula.Proofs.Lexicon
import Fabula.Proofs.Capitals
import Fabula.Proofs.NormalForm
import Fabula.Proofs.Product
import Fabula.Proofs.Nesting
