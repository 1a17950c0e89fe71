import Quantum.Lib.AddCarry
import Quantum.Lib.BitField
import Quantum.Lib.ByteMem
import Quantum.Lib.Worklist
import Quantum.Lib.Machine
import Quantum.Lib.Parser
import Quantum.Lib.Checked
import Quantum.Lib.LeWord
import Quantum.A64.Insn
import Quantum.A64.Exec
import Quantum.A64.Equiv.Run
import Quantum.A64.Equiv.Stack
import Quantum.A64.Equiv.Footprint
import Quantum.A64.Equiv.Certificate
import Quantum.X86.Flags
import Quantum.X86.OpcodeMap
import Quantum.X86.Address
import Quantum.Jit.Iform
import Quantum.Jit.Emitter
import Quantum.Jit.EmitterSimd
import Quantum.Jit.Lifter.Basic
import Quantum.Jit.Lifter.Integer
import Quantum.Jit.Lifter.Sse
import Quantum.Jit.Lifter
import Quantum.Jit.Decoder
import Quantum.Jit.Block
import Quantum.Jit.Equiv.Decode
import Quantum.Jit.Equiv.DecodeRow
import Quantum.Jit.Equiv.ModRm
import Quantum.Jit.Equiv.DecodeMap
import Quantum.Jit.Equiv.DecodeSecondary
import Quantum.Jit.Equiv.DecodeLength
import Quantum.Jit.Equiv.DecodeNames
import Quantum.Jit.Equiv.NextRip
import Quantum.Jit.Equiv.Encode
import Quantum.Jit.Equiv.Emit
import Quantum.Jit.Equiv.Misencode
import Quantum.Jit.Equiv.Address
import Quantum.Jit.Equiv.MemoryAccess
import Quantum.Jit.Equiv.Compare
import Quantum.Jit.Equiv.Alu
import Quantum.Jit.Equiv.FlagProducers
import Quantum.Jit.Equiv.FlagConsumers
import Quantum.Jit.Equiv.Lea
import Quantum.Jit.Equiv.WideArith
import Quantum.Jit.Equiv.DivMul
import Quantum.Jit.Equiv.CallBridge
import Quantum.Jit.Equiv.Certify
import Quantum.Jit.Equiv.Exits
import Quantum.Jit.Equiv.LegacyStack
import Quantum.Jit.Equiv.Flow
import Quantum.Jit.Equiv.DecodeXmm
import Quantum.Jit.Equiv.Steady
import Quantum.Jit.Equiv.SteadyLifts
import Quantum.Jit.Equiv.SteadySse
import Quantum.Jit.Equiv.Standalone
import Quantum.Runtime.Dispatcher
import Quantum.Loader.Image
import Quantum.Loader.Exception
import Quantum.Loader.Pe
import Quantum.Loader.Load
import Quantum.Loader.Reloc
import Quantum.Loader.Tls
import Quantum.Loader.Exports
import Quantum.Loader.Unwind
import Quantum.Loader.Resources
import Quantum.Loader.Imports
import Quantum.Loader.Protect
import Quantum.Loader.Equiv.Image
import Quantum.Loader.Equiv.Load
import Quantum.Loader.Equiv.Protect
import Quantum.Loader.Equiv.Reloc
import Quantum.Loader.Equiv.Tls
import Quantum.Loader.Equiv.Totality
import Quantum.Loader.Equiv.Cstr
import Quantum.Loader.Equiv.Exports
import Quantum.Loader.Equiv.Imports
import Quantum.Loader.Equiv.ImportWidth
import Quantum.Loader.Equiv.Resources
import Quantum.Loader.Equiv.Unwind
import Quantum.Loader.Equiv.Exception
import Quantum.Kernel32.Process
import Quantum.Kernel32.Seh
import Quantum.Kernel32.Handles
import Quantum.Kernel32.Threads
import Quantum.Kernel32.Schedule
import Quantum.Kernel32.Equiv.Process
import Quantum.Kernel32.Equiv.Handles
import Quantum.Kernel32.Equiv.Semaphores
import Quantum.Kernel32.Equiv.Sync
import Quantum.Kernel32.Equiv.OtherThreads
import Quantum.Kernel32.Equiv.WaitMultiple
import Quantum.Cli.SideDlls
import Quantum.Cli.Resolve
import Quantum.Cli.RunPe
import Quantum.Cli.DispatcherLoop
import Quantum.Cli.Seh
import Quantum.Cli.Equiv.SideDlls
import Quantum.Cli.Equiv.Resolve
import Quantum.Cli.Equiv.ExportLookup
import Quantum.Cli.Equiv.ExitCode
import Quantum.Cli.Equiv.Seh
import Quantum.Cli.Equiv.FaultSite
import Quantum.Kernel32.Equiv.ExitTrap
import Quantum.Kernel32.Equiv.CriticalSection
import Quantum.Kernel32.Equiv.Heap
import Quantum.Kernel32.Equiv.WindowsState
import Quantum.Kernel32.Equiv.Modules
import Quantum.Kernel32.Equiv.Dxbc
import Quantum.Runtime.CodeCache
import Quantum.Runtime.Equiv.CodeCache
import Quantum.Jit.Equiv.Labels
import Quantum.Jit.Equiv.RepString
import Quantum.Jit.Equiv.CompareCondition
import Quantum.Jit.Equiv.Extend
import Quantum.Jit.Equiv.Shift
import Quantum.Jit.Equiv.Bitscan
import Quantum.Jit.Equiv.GuestStack
import Quantum.Jit.Equiv.Straight
import Quantum.Jit.Equiv.BlockParts
import Quantum.Jit.Equiv.ChainExit
import Quantum.Runtime.Equiv.ChainPatch
import Quantum.Jit.Equiv.ChainSite
import Quantum.Jit.Equiv.RetExit
import Quantum.Jit.Equiv.HostState
import Quantum.Jit.Equiv.CtxPointer
import Quantum.Cli.Invoke
import Quantum.Cli.Equiv.Invoke
import Quantum.Runtime.GuestStack
import Quantum.Cli.Entry
import Quantum.Cli.Equiv.Entry
import Quantum.Lib.Lanes
import Quantum.A64.Equiv.Lanes
import Quantum.X86.Packed
import Quantum.Jit.Equiv.Packed
import Quantum.Jit.Equiv.PackedMask
import Quantum.Kernel32.Equiv.HandleValues
import Quantum.Kernel32.Equiv.HeapRealloc
import Quantum.Kernel32.Vm
import Quantum.Kernel32.Equiv.Vm
import Quantum.Kernel32.MessageLoop
import Quantum.Kernel32.Equiv.MessageLoop
import Quantum.Kernel32.Equiv.ClassAtoms
import Quantum.Kernel32.FilePointer
import Quantum.Kernel32.Equiv.FilePointer
import Quantum.Kernel32.CreateFile
import Quantum.Kernel32.Equiv.CreateFile
import Quantum.Kernel32.Sockaddr
import Quantum.Kernel32.Equiv.Sockaddr
import Quantum.Kernel32.Clock
import Quantum.Kernel32.Equiv.Clock
import Quantum.Kernel32.Instructions
import Quantum.Kernel32.Equiv.Instructions
import Quantum.Kernel32.Operands
import Quantum.Kernel32.Equiv.Operands
import Quantum.Kernel32.Signature
import Quantum.Kernel32.Equiv.Signature
import Quantum.Kernel32.Msl
import Quantum.Kernel32.Equiv.Msl
import Quantum.Jit.Equiv.FinishRuns
import Quantum.Jit.Equiv.TwoArms
import Quantum.Jit.Equiv.Exchange
import Quantum.Jit.Equiv.ExchangeMemory
import Quantum.Jit.Equiv.DecodeExchange
import Quantum.Jit.Equiv.ExchangeRight
import Quantum.Jit.Equiv.Verdict
import Quantum.Jit.Equiv.VerdictLifts
import Quantum.Jit.Equiv.VerdictLabels
import Quantum.Jit.Equiv.VerdictSse
import Quantum.Jit.Equiv.DecodeTotal
import Quantum.Jit.Equiv.Panics
import Quantum.Jit.Equiv.StandalonePanics
import Quantum.Cli.SharedLoop
import Quantum.Cli.Equiv.SharedLoop
import Quantum.Cli.Equiv.HostRun
