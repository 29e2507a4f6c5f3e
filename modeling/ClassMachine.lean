import ClassMachine.ClassFile.Encode
import ClassMachine.Files.Tree
import ClassMachine.Main
import ClassMachine.Proofs.ClassFile.Code
import ClassMachine.Proofs.ClassFile.Slots
import ClassMachine.Proofs.Descriptor
import ClassMachine.Proofs.Machine.Arithmetic
import ClassMachine.Proofs.Machine.Budget
import ClassMachine.Proofs.Machine.Depth
import ClassMachine.Proofs.Machine.Places
import ClassMachine.Proofs.Machine.Recursion
import ClassMachine.Proofs.Machine.Termination
import ClassMachine.Proofs.Machine.Tracing
import ClassMachine.Proofs.Pool.Growth
import ClassMachine.Proofs.Pool.References
import ClassMachine.Proofs.Session.Locations
import ClassMachine.Proofs.Session.Results
import ClassMachine.Proofs.Session.Sites
import ClassMachine.Proofs.Session.Stability
import ClassMachine.Proofs.Text.LongForms
