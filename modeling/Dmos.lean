import Dmos.Library.AddressSpace
import Dmos.Library.ByteMemory
import Dmos.Kernel.List
import Dmos.Library.LinkedList
import Dmos.Library.Loop
import Dmos.Library.Ownership
import Dmos.Library.Transition
import Dmos.Kernel.Ownership
import Dmos.Kernel.FreePage
import Dmos.Kernel.HeldPages
import Dmos.Dev.Fifo
import Dmos.Dev.Text
import Dmos.Dev.Output
import Dmos.Dev.Input
import Dmos.Fs.Files
import Dmos.Fs.Loads
import Dmos.Task.Args
import Dmos.Task.ExecFails
import Dmos.Task.ForkFails
import Dmos.Task.ForkLeak
import Dmos.Task.Loader
import Dmos.Task.Machine
import Dmos.Task.Mutex
import Dmos.Task.Occupied
import Dmos.Task.Selectors
import Dmos.Task.Semaphore
import Dmos.Task.Sleeping
import Dmos.Task.Slots
import Dmos.Task.Waiting
import Dmos.Kernel.AllocFails
import Dmos.Kernel.CreateMap
import Dmos.Task.Sbrk
import Dmos.Task.Shrink
import Dmos.Library.History
import Dmos.Dev.Keyboard
import Dmos.Fs.Devices
import Dmos.Fs.ReadWrite
import Dmos.Kernel.FreshFrames
import Dmos.Task.Bss
import Dmos.Kernel.LowBytes
import Dmos.Dev.EscText
import Dmos.Dev.Erase
import Dmos.Task.SleepWalk
import Dmos.Kernel.BitmapRuns
import Dmos.Kernel.HeldRuns
import Dmos.Library.FreeRun
import Dmos.Kernel.Walk
import Dmos.Kernel.CopyRange
import Dmos.Kernel.Destroy
import Dmos.Dev.ReadLine
import Dmos.Loader.Reload
import Dmos.Task.Placed
import Dmos.Library.Cells
import Dmos.Kernel.MemoryInit
import Dmos.Kernel.Reserved
import Dmos.Kernel.ListRuns
import Dmos.Task.NewSpace
import Dmos.Klib.Strings
import Dmos.Klib.Itoa
import Dmos.Klib.Vsprint
import Dmos.Fs.Opening
import Dmos.Fs.TempReads
import Dmos.Task.Labels
import Dmos.Task.States
import Dmos.Library.Words
import Dmos.Shell.Tokens
import Dmos.Kernel.BitArray
import Dmos.Task.DescLayout
import Dmos.Task.KernelHalf
import Dmos.Task.Isolation
import Dmos.Library.WordStack
import Dmos.Entry.Gate
import Dmos.Entry.Cpu
import Dmos.Entry.Syscall
import Dmos.Entry.Forking
import Dmos.Entry.Interrupt
import Dmos.Entry.Dispatching
import Dmos.Entry.Preempt
import Dmos.Dev.Screens
import Dmos.Task.Booted
