import Matcore.Proof.SessionInvariant
import Matcore.Proof.FusedPair
import Matcore.Proof.ContextVerdict
import Matcore.Proof.Partition
import Matcore.Proof.EffectChain
import Matcore.Proof.GpuFrames
import Matcore.Proof.HostRewrite
import Matcore.Proof.IrRoundTrip
import Matcore.Proof.IrBridge
import Matcore.Proof.ArgumentFile
import Matcore.Proof.Quoting
import Matcore.Proof.Workspace
import Matcore.Proof.Publication
import Matcore.Proof.TwoGemm
import Matcore.Proof.MemoryPool
import Matcore.Proof.GraphReplay
import Matcore.Proof.Tracing
import Matcore.Proof.HostReplay
import Matcore.Proof.FusionExecute
import Matcore.Proof.PoolScan
import Matcore.Proof.VectorCopy
import Matcore.Proof.PlanCapture
import Matcore.Proof.FillElision
import Matcore.Proof.OutputZeroing
import Matcore.Proof.ExecutionCache
import Matcore.Proof.StructuredHandoff
import Matcore.Proof.DiskCache
import Matcore.Proof.BlockAttnRes
import Matcore.Proof.FamilyC
import Matcore.Proof.FamilyB
import Matcore.Proof.LdMatrix
import Matcore.Proof.AccumulatorHoist
import Matcore.Proof.DataStaging
import Matcore.Proof.Mapping
import Matcore.Proof.Domain
import Matcore.Proof.DirectCommand
import Matcore.Proof.Dependencies
import Matcore.Proof.Extents
import Matcore.Proof.PlainGemm
import Matcore.Proof.Diagnostics
import Matcore.Proof.PlanIdentity
import Matcore.Proof.CpuList
