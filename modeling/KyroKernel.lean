import KyroKernel.Foundations.Memory
import KyroKernel.Foundations.Run
import KyroKernel.Foundations.LinkedList
import KyroKernel.Foundations.RoundRobin
import KyroKernel.Foundations.RingBuffer
import KyroKernel.Foundations.X86
import KyroKernel.Heap.FailedRequests
import KyroKernel.Paging.AddressSpaces
import KyroKernel.Paging.HardwareWalk
import KyroKernel.Paging.Permissions
import KyroKernel.Paging.Frames
import KyroKernel.Paging.OutOfFrames
import KyroKernel.Paging.NoPageTable
import KyroKernel.Process.FrameUse
import KyroKernel.Process.Creation
import KyroKernel.Process.Termination
import KyroKernel.Process.Fairness
import KyroKernel.Process.Running
import KyroKernel.Process.SavedCr3
import KyroKernel.Process.KernelMapping
import KyroKernel.Process.ProcessIds
import KyroKernel.Drivers.KeyboardTyping
import KyroKernel.Drivers.KeyboardModifiers
import KyroKernel.Drivers.KeyboardLocks
import KyroKernel.Drivers.Timer
import KyroKernel.Drivers.Pic
import KyroKernel.Console.ScreenWindow
import KyroKernel.Console.FormatReads
import KyroKernel.Console.Numbers
import KyroKernel.Console.FormatCounts
import KyroKernel.Console.StringPrinters
import KyroKernel.Console.LineReads
import KyroKernel.Console.StdinLines
import KyroKernel.Console.EditedLine
import KyroKernel.Fs.FileNames
import KyroKernel.Users.AccountHistory
import KyroKernel.Users.UserIds
import KyroKernel.Asm.SyscallGate
import KyroKernel.Syscall.Write
import KyroKernel.Asm.InterruptStubs
import KyroKernel.Interrupts.Guarantees
import KyroKernel.Interrupts.Clock
import KyroKernel.Interrupts.Faults
import KyroKernel.Asm.ContextSwitches
import KyroKernel.Boot.BootLoader
import KyroKernel.Utils.Math
import KyroKernel.Utils.MemoryMoves
import KyroKernel.Utils.StringCopies
import KyroKernel.Utils.StringSearches
import KyroKernel.Utils.StringAppends
import KyroKernel.Fs.Listing
import KyroKernel.Users.Listing
import KyroKernel.Shell.Transcript
import KyroKernel.Shell.Login
import KyroKernel.Syscall.Services
import KyroKernel.Process.Family
import KyroKernel.Fs.FileStore
import KyroKernel.Users.AccountStore
import KyroKernel.Utils.MemoryBlocks
