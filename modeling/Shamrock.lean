import Shamrock.Codes
import Shamrock.Lib.AtomicCell
import Shamrock.Lib.Before
import Shamrock.Lib.BitFields
import Shamrock.Lib.Bytes
import Shamrock.Lib.Calls
import Shamrock.Lib.Chunks
import Shamrock.Lib.Fairness
import Shamrock.Lib.Loop
import Shamrock.Lib.LoopNest
import Shamrock.Lib.Odometer
import Shamrock.Lib.Outcome
import Shamrock.Lib.Packing
import Shamrock.Lib.RefCount
import Shamrock.Lib.Relocation
import Shamrock.Lib.Segments
import Shamrock.Lib.Strided
import Shamrock.Lib.Tally
import Shamrock.Lib.Transition
import Shamrock.Lib.Words
import Shamrock.Scheduler.Accounting
import Shamrock.Scheduler.Barriers
import Shamrock.Scheduler.Booking
import Shamrock.Scheduler.Callbacks
import Shamrock.Scheduler.Cases
import Shamrock.Scheduler.Counters
import Shamrock.Scheduler.Dependency
import Shamrock.Scheduler.Edges
import Shamrock.Scheduler.Effects
import Shamrock.Scheduler.Event
import Shamrock.Scheduler.Failure
import Shamrock.Scheduler.Frames
import Shamrock.Scheduler.InOrder
import Shamrock.Scheduler.Ledger
import Shamrock.Scheduler.Links
import Shamrock.Scheduler.Load
import Shamrock.Scheduler.Locks
import Shamrock.Scheduler.Marker
import Shamrock.Scheduler.MarkerCalls
import Shamrock.Scheduler.Mirror
import Shamrock.Scheduler.Monotone
import Shamrock.Scheduler.Profiling
import Shamrock.Scheduler.Propagation
import Shamrock.Scheduler.Reports
import Shamrock.Scheduler.Starvation
import Shamrock.Scheduler.State
import Shamrock.Scheduler.Step
import Shamrock.Scheduler.Traversal
import Shamrock.Scheduler.Waiting
import Shamrock.Cpu.Arguments
import Shamrock.Cpu.Completion
import Shamrock.Cpu.Coverage
import Shamrock.Cpu.Device
import Shamrock.Cpu.Launch
import Shamrock.Cpu.LockStep
import Shamrock.Cpu.NDRange
import Shamrock.Cpu.Projection
import Shamrock.Cpu.Queries
import Shamrock.Cpu.Rounds
import Shamrock.Cpu.SubDevices
import Shamrock.Cpu.WorkGroup
import Shamrock.Builtins.Atomics
import Shamrock.Builtins.MadSat
import Shamrock.Builtins.MulHi
import Shamrock.Runtime.AddFunction
import Shamrock.Runtime.ArgsInfo
import Shamrock.Runtime.Binary
import Shamrock.Runtime.Buffer
import Shamrock.Runtime.BuildOptions
import Shamrock.Runtime.Cascade
import Shamrock.Runtime.Commands
import Shamrock.Runtime.Destruction
import Shamrock.Runtime.DeviceBuffers
import Shamrock.Runtime.Enqueue
import Shamrock.Runtime.Fill
import Shamrock.Runtime.Image
import Shamrock.Runtime.Kernel
import Shamrock.Runtime.KernelEvent
import Shamrock.Runtime.KernelList
import Shamrock.Runtime.Lifetime
import Shamrock.Runtime.Linear
import Shamrock.Runtime.Linking
import Shamrock.Runtime.Lookup
import Shamrock.Runtime.MapImage
import Shamrock.Runtime.MapList
import Shamrock.Runtime.Object
import Shamrock.Runtime.Overlap
import Shamrock.Runtime.Program
import Shamrock.Runtime.ProgramState
import Shamrock.Runtime.QueueEvent
import Shamrock.Runtime.Rect
import Shamrock.Runtime.RectCopy
import Shamrock.Runtime.Retention
import Shamrock.Runtime.Sampler
import Shamrock.Runtime.SetArg
import Shamrock.Runtime.Snapshot
import Shamrock.Runtime.WorkGroupSize
import Shamrock.Dsp.Aggregation
import Shamrock.Dsp.AggregationMeaning
import Shamrock.Dsp.Agreement
import Shamrock.Dsp.BufferEvents
import Shamrock.Dsp.BufferStore
import Shamrock.Dsp.DdrSplit
import Shamrock.Dsp.DeviceMemory
import Shamrock.Dsp.DmaPipeline
import Shamrock.Dsp.DmaWrite
import Shamrock.Dsp.Driver
import Shamrock.Dsp.Heap
import Shamrock.Dsp.HeapLayout
import Shamrock.Dsp.HeapRuns
import Shamrock.Dsp.KernelRun
import Shamrock.Dsp.LocalBuffers
import Shamrock.Dsp.Reloc
import Shamrock.Dsp.RelocTable
import Shamrock.Dsp.Transfer
import Shamrock.Dsp.Worker
import Shamrock.Dsp.WorkerLoop
import Shamrock.Dsp.WorkerMemory
import Shamrock.Dsp.WorkerProgress
