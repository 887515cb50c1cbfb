import LongMode.ThreadGroup.Basic
import LongMode.Proofs.Memory.LatestStores
import LongMode.Proofs.Core.Sessions
import LongMode.Proofs.Core.Recordings
import LongMode.Proofs.ThreadGroup.Failures
import LongMode.Proofs.Machine.Moves
import LongMode.Proofs.Machine.LockPrefix
import LongMode.Proofs.Core.Truncation
import LongMode.Proofs.Elf.InitialStack
import LongMode.Proofs.Machine.Arithmetic
import LongMode.Proofs.Machine.DoubleShift
import LongMode.Proofs.Machine.Chains
import LongMode.Proofs.Core.Confinement
import LongMode.Proofs.ThreadGroup.Batches
import LongMode.Proofs.Machine.Comparisons
import LongMode.Proofs.Machine.Division
import LongMode.Proofs.Machine.Fills
import LongMode.Proofs.Machine.Searches
import LongMode.Proofs.Machine.BitStrings
import LongMode.Proofs.Memory.Updates
import LongMode.Proofs.Memory.FirstFit
import LongMode.Proofs.Machine.StringFaults
import LongMode.Proofs.Memory.Bounds
import LongMode.Proofs.Core.Blocks
import LongMode.Proofs.Core.Interference
import LongMode.Proofs.Core.Lifetimes
import LongMode.Proofs.Decode.Windows
import LongMode.Proofs.Machine.Packed
import LongMode.Proofs.Core.ControlForms
import LongMode.Proofs.Linux.Heap
import LongMode.Proofs.Linux.Mappings
import LongMode.Proofs.Linux.Input
import LongMode.Proofs.Linux.Output
import LongMode.Proofs.Linux.OpenFlags
import LongMode.Proofs.Linux.Answers
import LongMode.Proofs.ThreadGroup.Settings
import LongMode.Proofs.Register.Aliases
import LongMode.Proofs.Core.Hits
import LongMode.Proofs.ThreadGroup.CacheSizes
