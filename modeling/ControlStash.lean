import ControlStash.Main
import ControlStash.Wire.Encode
import ControlStash.Proofs.Adequacy
import ControlStash.Proofs.Footing
import ControlStash.Proofs.Environment
import ControlStash.Proofs.Scope
import ControlStash.Proofs.Scoping
import ControlStash.Proofs.Joining
import ControlStash.Proofs.Threshold
import ControlStash.Proofs.TailCall
import ControlStash.Proofs.RoundTrip
import ControlStash.Proofs.Bisimilar
import ControlStash.Proofs.Sentinel
import ControlStash.Proofs.Likeness
import ControlStash.Proofs.Lockstep
import ControlStash.Proofs.Loops
import ControlStash.Proofs.DerivedForms
import ControlStash.Proofs.Additions
import ControlStash.Proofs.Sharing
import ControlStash.Proofs.Printing
import ControlStash.Proofs.Hygiene
import ControlStash.Proofs.Wrapping
import ControlStash.Proofs.Arithmetic
import ControlStash.Proofs.Ownership
import ControlStash.Proofs.Height
import ControlStash.Proofs.Cells
import ControlStash.Proofs.Unwinding
import ControlStash.Proofs.Declarations
