import Jack.Command.Disk
import Jack.Command.Run
import Jack.Compile
import Jack.Listing
import Jack.Main
import Jack.Tree.Grammar
import Jack.Vm.Device
import Jack.Proofs.Token.Lexemes
import Jack.Proofs.Token.Gaps
import Jack.Proofs.Token.Tokenisation
import Jack.Proofs.Token.Faults
import Jack.Proofs.Tree.Terminals
import Jack.Proofs.Tree.Reading
import Jack.Proofs.Tree.Soundness
import Jack.Proofs.Tree.Completeness
import Jack.Proofs.Tree.Acceptance
import Jack.Proofs.Tree.Lockstep
import Jack.Proofs.Tree.Tracking
import Jack.Proofs.Tree.Misplaced
import Jack.Proofs.Vm.Machine
import Jack.Proofs.Vm.Meaning
import Jack.Proofs.Vm.Code
import Jack.Proofs.Vm.Heights
import Jack.Proofs.Vm.ExprRun
import Jack.Proofs.Vm.ElementStore
import Jack.Proofs.Vm.Labels
import Jack.Proofs.Vm.StmtRun
import Jack.Proofs.Scope
import Jack.Proofs.Vm.Declarations
import Jack.Proofs.Vm.SubroutineRun
import Jack.Proofs.Vm.Blocks
import Jack.Proofs.Vm.StackDiscipline
import Jack.Proofs.Vm.Stops
import Jack.Proofs.Vm.Jumps
import Jack.Proofs.Vm.Slots
import Jack.Proofs.Vm.Occurrences
import Jack.Proofs.Vm.Sites
import Jack.Proofs.Vm.Validity
import Jack.Proofs.Vm.Violations
import Jack.Proofs.Text.Lines
import Jack.Proofs.Listing
import Jack.Proofs.Vm.LabelNumbers
import Jack.Proofs.Safety
import Jack.Proofs.Text.Places
import Jack.Proofs.Vm.Independence
import Jack.Proofs.Tree.Relocation
import Jack.Proofs.Vm.Relocation
import Jack.Proofs.Layout
import Jack.Proofs.Command.Paths
import Jack.Proofs.Command.Writes
import Jack.Proofs.Command.Effects
import Jack.Proofs.Command.Order
import Jack.Proofs.Scope.Density
import Jack.Proofs.Vm.Names
import Jack.Proofs.Vm.Decoding
import Jack.Proofs.Listing.Agreement
import Jack.Proofs.Command.Plans
import Jack.Proofs.Command.Directories
import Jack.Proofs.Command.Starts
import Jack.Proofs.Command.Threads
import Jack.Proofs.Command.Outcome
import Jack.Proofs.Vm.Renaming
import Jack.Proofs.Command.Scripts
import Jack.Proofs.Command.Pool
import Jack.Proofs.Tree.Levels
import Jack.Proofs.Tree.Parts
import Jack.Proofs.Tree.Streams
import Jack.Proofs.Scope.Declaring
import Jack.Proofs.Token.Joining
import Jack.Proofs.Token.Progress
import Jack.Proofs.Vm.Headers
import Jack.Proofs.Listing.Rows
import Jack.Proofs.Listing.Entries
import Jack.Proofs.Listing.Nesting
import Jack.Proofs.Vm.Writing
import Jack.Proofs.Tree.Loops
import Jack.Proofs.Tree.Contract
import Jack.Proofs.Text.Positions
import Jack.Proofs.Text.Surroundings
import Jack.Proofs.Token.Decimals
import Jack.Proofs.Vm.Constants
