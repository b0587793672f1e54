import Microkernel.Address
import Microkernel.Arena
import Microkernel.Arguments.Reader
import Microkernel.Arguments.Writer
import Microkernel.Boot.Bootstrap
import Microkernel.Boot.Record
import Microkernel.CallTable
import Microkernel.Clock
import Microkernel.Config
import Microkernel.Crash
import Microkernel.Epitaph
import Microkernel.Hint
import Microkernel.Indexed
import Microkernel.Interface.ErrorCode
import Microkernel.Interface.Fault
import Microkernel.Interface.Identifier
import Microkernel.Interface.ProcessState
import Microkernel.Interface.Syscall
import Microkernel.Kernel.Calls
import Microkernel.Kernel.Dispatch
import Microkernel.Kernel.PipeCalls
import Microkernel.Kernel.Slots
import Microkernel.Kernel.Start
import Microkernel.Memory
import Microkernel.Memory.Lemmas
import Microkernel.Paging.Descriptor
import Microkernel.Paging.Map
import Microkernel.Paging.Survey
import Microkernel.Partition
import Microkernel.Pipe
import Microkernel.Privilege
import Microkernel.Process
import Microkernel.Program.Call
import Microkernel.Program.LogLine
import Microkernel.Proofs.Arena
import Microkernel.Proofs.Boot.Attempt
import Microkernel.Proofs.Boot.BootMap
import Microkernel.Proofs.Boot.Bootstrap
import Microkernel.Proofs.Calls.Continuity
import Microkernel.Proofs.Calls.Discreet
import Microkernel.Proofs.Calls.Fate
import Microkernel.Proofs.Calls.Handling
import Microkernel.Proofs.Calls.Outcome
import Microkernel.Proofs.Calls.Preservation
import Microkernel.Proofs.Calls.Secrecy
import Microkernel.Proofs.Calls.Spawn
import Microkernel.Proofs.Calls.Start
import Microkernel.Proofs.Calls.Steady
import Microkernel.Proofs.Calls.Transfer
import Microkernel.Proofs.Calls.Turns
import Microkernel.Proofs.Execution
import Microkernel.Proofs.Kernel.Accounting
import Microkernel.Proofs.Kernel.Addressing
import Microkernel.Proofs.Kernel.Awakening
import Microkernel.Proofs.Kernel.Break
import Microkernel.Proofs.Kernel.Confidentiality
import Microkernel.Proofs.Kernel.Effects
import Microkernel.Proofs.Kernel.Exposure
import Microkernel.Proofs.Kernel.Failure
import Microkernel.Proofs.Kernel.Faults
import Microkernel.Proofs.Kernel.HangUp
import Microkernel.Proofs.Kernel.Identity
import Microkernel.Proofs.Kernel.Integrity
import Microkernel.Proofs.Kernel.Isolation
import Microkernel.Proofs.Kernel.Mapping
import Microkernel.Proofs.Kernel.Names
import Microkernel.Proofs.Kernel.Placement
import Microkernel.Proofs.Kernel.Preference
import Microkernel.Proofs.Kernel.Retry
import Microkernel.Proofs.Kernel.Room
import Microkernel.Proofs.Kernel.Run
import Microkernel.Proofs.Kernel.Script
import Microkernel.Proofs.Kernel.Sleeping
import Microkernel.Proofs.Kernel.Spawning
import Microkernel.Proofs.Kernel.Startup
import Microkernel.Proofs.Kernel.Stream
import Microkernel.Proofs.Kernel.Survival
import Microkernel.Proofs.Kernel.Switch
import Microkernel.Proofs.Kernel.Transfers
import Microkernel.Proofs.Kernel.Waiting
import Microkernel.Proofs.Kernel.Writing
import Microkernel.Proofs.Memory.Agreement
import Microkernel.Proofs.Memory.ArgumentBlock
import Microkernel.Proofs.Memory.ArgumentList
import Microkernel.Proofs.Memory.ArgumentReader
import Microkernel.Proofs.Memory.Extent
import Microkernel.Proofs.Memory.RoundTrip
import Microkernel.Proofs.Memory.Texts
import Microkernel.Proofs.Memory.Words
import Microkernel.Proofs.Partition
import Microkernel.Proofs.Paging.Bits
import Microkernel.Proofs.Paging.Leaf
import Microkernel.Proofs.Paging.ProcessMap
import Microkernel.Proofs.Paging.Skeleton
import Microkernel.Proofs.Paging.WholeMap
import Microkernel.Proofs.Pipe.BoundedQueue
import Microkernel.Proofs.Pipe.Holders
import Microkernel.Proofs.Pipe.Queue
import Microkernel.Proofs.Process.Blocks
import Microkernel.Proofs.Process.Break
import Microkernel.Proofs.Process.Checks
import Microkernel.Proofs.Process.Mapped
import Microkernel.Proofs.Process.Naming
import Microkernel.Proofs.Process.Ownership
import Microkernel.Proofs.Process.Program
import Microkernel.Proofs.Process.Readiness
import Microkernel.Proofs.Process.Sound
import Microkernel.Proofs.Process.StringReads
import Microkernel.Proofs.Program.LogLine
import Microkernel.Proofs.Region.Access
import Microkernel.Proofs.Region.Exact
import Microkernel.Proofs.Region.Granting
import Microkernel.Proofs.Region.Order
import Microkernel.Proofs.Schedule.Choice
import Microkernel.Proofs.Schedule.Gathering
import Microkernel.Proofs.Schedule.Idle
import Microkernel.Proofs.Schedule.Preference
import Microkernel.Proofs.Schedule.Promptness
import Microkernel.Proofs.Schedule.Rotation
import Microkernel.Proofs.Schedule.Tally
import Microkernel.Proofs.Schedule.Wake
import Microkernel.Proofs.Tables.Bystanders
import Microkernel.Proofs.Tables.Hints
import Microkernel.Proofs.Tables.LettingGo
import Microkernel.Proofs.Tables.Obtain
import Microkernel.Proofs.Tables.Parting
import Microkernel.Proofs.Tables.Release
import Microkernel.Proofs.Tables.Sound
import Microkernel.Proofs.Tables.Writers
import Microkernel.Proofs.Text.Numeral
import Microkernel.Region
import Microkernel.Region.Access
import Microkernel.Region.Table
import Microkernel.Registers
import Microkernel.Ring
import Microkernel.Schedule
import Microkernel.System
import Microkernel.Teardown
import Microkernel.Text.Hex
import Microkernel.Text.Numeral
import Microkernel.Text.Quoted
import Microkernel.Text.Unicode
import Microkernel.Text.Utf8
import Microkernel.Tunables
import Microkernel.UserSlice
import Microkernel.UserString
import Microkernel.Word
