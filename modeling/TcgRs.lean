import TcgRs.Interface.X86Decode
import TcgRs.Analysis.OperandEncoding
import TcgRs.Library.LinkedChain
import TcgRs.Model.CodeBuffer
import TcgRs.Model.Exec.Tb
import TcgRs.Model.X86.Codegen
import TcgRs.Analysis.JumpPatching
import TcgRs.Model.Exec.TbStore
import TcgRs.Analysis.HashTable
import TcgRs.Analysis.StoreHistory
import TcgRs.Model.Exec.ExecLoop
import TcgRs.Analysis.CodeLayout
import TcgRs.Analysis.ChainSections
import TcgRs.Analysis.JumpEdges
import TcgRs.Model.Exec.Concurrent
import TcgRs.Analysis.ThreadSteps
import TcgRs.Analysis.MachineInvariant
import TcgRs.Analysis.UniqueTranslation
import TcgRs.Analysis.ChainRace
import TcgRs.Analysis.BlockExtent
import TcgRs.Model.Exec.CpuLoop
import TcgRs.Analysis.CachedLoop
import TcgRs.Analysis.Exhaustion
import TcgRs.Model.Ir.Context
import TcgRs.Model.X86.Constraints
import TcgRs.Model.RegAlloc
import TcgRs.Library.TwoWay
import TcgRs.Analysis.RegBooks
import TcgRs.Analysis.RegKept
import TcgRs.Analysis.RegInputs
import TcgRs.Analysis.RegOperands
import TcgRs.Analysis.RegBookkeeping
import TcgRs.Interface.X86Flags
import TcgRs.Model.X86.Branch
import TcgRs.Interface.IrSemantics
import TcgRs.Model.Optimize
import TcgRs.Analysis.BranchFolding
import TcgRs.Analysis.FoldValues
import TcgRs.Analysis.OptimizerFacts
import TcgRs.Analysis.OptimizerMeaning
import TcgRs.Analysis.RegValues
import TcgRs.Analysis.CallMarshalling
import TcgRs.Library.ByteReader
import TcgRs.Model.Serialize
import TcgRs.Analysis.Serialization
import TcgRs.Model.Decode.Generate
import TcgRs.Interface.DecodeMeaning
import TcgRs.Analysis.FieldExtraction
import TcgRs.Analysis.DecodeFileFacts
import TcgRs.Analysis.GeneratedDecoder
import TcgRs.Model.Riscv.Insn32
import TcgRs.Analysis.DecodeSections
import TcgRs.Analysis.Insn32Table
import TcgRs.Interface.RiscvDecode
import TcgRs.Analysis.Insn32Selection
import TcgRs.Analysis.Insn32Decoder
import TcgRs.Interface.X86Exec
import TcgRs.Model.X86.OutOp
import TcgRs.Analysis.EmittedInsns
import TcgRs.Analysis.FieldOps
import TcgRs.Analysis.CarryChain
import TcgRs.Analysis.DeadTemps
import TcgRs.Analysis.UntrustedInput
import TcgRs.Analysis.ArithOps
import TcgRs.Analysis.LocalRewrites
import TcgRs.Analysis.EmittedCalls
import TcgRs.Analysis.EmissionSteps
import TcgRs.Analysis.LabelPatching
import TcgRs.Interface.GuestMachine
import TcgRs.Analysis.GeneratedCode
import TcgRs.Interface.RiscvExec
import TcgRs.Analysis.GuestCode
import TcgRs.Analysis.MulDiv
import TcgRs.Analysis.GuestAccess
import TcgRs.Analysis.WordAtomics
import TcgRs.Analysis.Reservations
import TcgRs.Analysis.JumpSlots
import TcgRs.Model.Riscv.Translator
import TcgRs.Analysis.BlockShape
import TcgRs.Interface.RiscvCpu
import TcgRs.Analysis.CpuFields
import TcgRs.Analysis.FpCsrViews
import TcgRs.Analysis.FloatMinMax
import TcgRs.Interface.DecodeChecks
import TcgRs.Analysis.MalformedPatterns
import TcgRs.Model.Riscv.FpuHelpers
import TcgRs.Model.Riscv.TransFp
import TcgRs.Interface.RiscvFpExec
import TcgRs.Analysis.FpCode
import TcgRs.Analysis.FpFlags
import TcgRs.Analysis.FsDirty
import TcgRs.Analysis.NanValues
import TcgRs.Analysis.FpConversions
import TcgRs.Analysis.PatchableJumps
import TcgRs.Analysis.SpillSlots
import TcgRs.Analysis.AllocatorRuns
import TcgRs.Library.ByteMemory
import TcgRs.Model.Linux.GuestSpace
import TcgRs.Model.Linux.Elf
import TcgRs.Model.Linux.Loader
import TcgRs.Analysis.InitialStack
import TcgRs.Analysis.GuestRuns
import TcgRs.Analysis.ImageLoading
import TcgRs.Analysis.ImageRanges
import TcgRs.Model.Linux.Syscall
import TcgRs.Interface.LinuxCalls
import TcgRs.Analysis.VectoredWrites
import TcgRs.Analysis.SyscallSafety
import TcgRs.Interface.RiscvIntExec
import TcgRs.Analysis.BaseInsns
import TcgRs.Analysis.CsrCode
import TcgRs.Analysis.BlockRuns
import TcgRs.Analysis.PreciseTraps
