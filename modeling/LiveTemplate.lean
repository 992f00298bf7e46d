import LiveTemplate.Dom.Fixture
import LiveTemplate.Proofs.Agreement
import LiveTemplate.Proofs.Amendments
import LiveTemplate.Proofs.Anchoring
import LiveTemplate.Proofs.Application
import LiveTemplate.Proofs.Assembly
import LiveTemplate.Proofs.Clearance
import LiveTemplate.Proofs.Correspondence
import LiveTemplate.Proofs.Delegation
import LiveTemplate.Proofs.Denotation
import LiveTemplate.Proofs.Emerging
import LiveTemplate.Proofs.Extending
import LiveTemplate.Proofs.Granting
import LiveTemplate.Proofs.Hooks
import LiveTemplate.Proofs.Inserting
import LiveTemplate.Proofs.Joining
import LiveTemplate.Proofs.Legibility
import LiveTemplate.Proofs.Merging
import LiveTemplate.Proofs.Neighbours
import LiveTemplate.Proofs.Once
import LiveTemplate.Proofs.Ordering
import LiveTemplate.Proofs.Owning
import LiveTemplate.Proofs.Printing
import LiveTemplate.Proofs.Releasing
import LiveTemplate.Proofs.Restoring
import LiveTemplate.Proofs.Restyling
import LiveTemplate.Proofs.Retrying
import LiveTemplate.Proofs.Severance
import LiveTemplate.Proofs.SharedTargets
import LiveTemplate.Proofs.Synchronisation
import LiveTemplate.Proofs.Teardown
import LiveTemplate.Proofs.Unwinding
import LiveTemplate.Proofs.Wording
import LiveTemplate.Selector.Printer
