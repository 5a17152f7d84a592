import ChipVm.Config.File
import ChipVm.Host
import ChipVm.Proofs.Config.Described
import ChipVm.Proofs.Config.Saved
import ChipVm.Proofs.Instruction.Positions
import ChipVm.Proofs.Instruction.Words
import ChipVm.Proofs.Json.RoundTrip
import ChipVm.Proofs.Json.Tokens
import ChipVm.Proofs.Machine.Alike
import ChipVm.Proofs.Machine.Arithmetic
import ChipVm.Proofs.Machine.Blocks
import ChipVm.Proofs.Machine.Calls
import ChipVm.Proofs.Machine.Choices
import ChipVm.Proofs.Machine.Clock
import ChipVm.Proofs.Machine.Decimal
import ChipVm.Proofs.Machine.Drawing
import ChipVm.Proofs.Machine.Draws
import ChipVm.Proofs.Machine.Execute
import ChipVm.Proofs.Machine.FailStop
import ChipVm.Proofs.Machine.Fault
import ChipVm.Proofs.Machine.Footprint
import ChipVm.Proofs.Machine.History
import ChipVm.Proofs.Machine.Independence
import ChipVm.Proofs.Machine.Latch
import ChipVm.Proofs.Machine.NextPc
import ChipVm.Proofs.Machine.Reachable
import ChipVm.Proofs.Machine.Reset
import ChipVm.Proofs.Machine.Run
import ChipVm.Proofs.Machine.Simulation
import ChipVm.Proofs.Machine.Step
import ChipVm.Proofs.Machine.TimerTrace
import ChipVm.Proofs.Machine.Waiting
import ChipVm.Proofs.Machine.Writes
import ChipVm.Proofs.Memory.Array
import ChipVm.Proofs.Memory.Program
import ChipVm.Proofs.Registers.Written
import ChipVm.Proofs.Screen.Algebra
import ChipVm.Proofs.Screen.Coverage
import ChipVm.Proofs.Screen.Readings
import ChipVm.Proofs.Screen.Slices
import ChipVm.Proofs.Screen.Views
import ChipVm.Proofs.Snapshot.Difference
import ChipVm.Proofs.Snapshot.Future
import ChipVm.Proofs.Timers.Bookkeeping
import ChipVm.Proofs.Timers.Gate
import ChipVm.Screen.Display
import ChipVm.Snapshot.Diff
