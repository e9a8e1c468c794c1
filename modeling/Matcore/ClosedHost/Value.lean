import Matcore.Lib.Memory

/-!
# The data of a closed-host session

Status, host views, immutable values and the machine a session runs on
(`closed_host_v1.h`, `region_storage.h`).

A value handle is `none` or owns a `Storage`, whose element count is fixed by its extents.
`Host` collects what a session reads from outside its own state: the `#if` choices of the
build, and the answers of the allocator, the floating-point environment and the candidate
implementations at each frontier. Every frontier is begun at most once by a session, so an
answer that depends on the frontier covers every behaviour in time.
-/

namespace Matcore.ClosedHost

open FlatMemory

inductive Access where
  | readOnly
  | readWrite
  deriving DecidableEq

inductive Numeric where
  | strictF32
  | reassociateF32
  deriving DecidableEq

inductive Code where
  | ok
  | invalidFrontier
  | invalidValue
  | invalidView
  | shapeMismatch
  | extentOverflow
  | insufficientCapacity
  | accessDenied
  | allocationFailure
  | candidateFailure
  | unsupportedFpEnvironment
  | reentrantUse
  | alreadyComplete
  | invalidCandidate
  | candidateUnavailable
  | candidateIncompatible
  deriving DecidableEq

/-- The codes that candidate implementations and capability queries return. -/
def Code.ofCandidate : Code → Bool
  | .ok | .invalidView | .shapeMismatch | .extentOverflow | .allocationFailure
  | .candidateFailure | .candidateUnavailable | .candidateIncompatible => true
  | _ => false

abbrev CandidateCode := { code : Code // code.ofCandidate = true }

structure Status where
  code : Code := .ok
  failedFrontier : ℕ := 0
  completedFrontier : ℕ := 0
  completedEffectFrontier : ℕ := 0
  publications : ℕ := 0
  observations : ℕ := 0
  completed : Bool := false
  deriving DecidableEq

structure ResourceView where
  data : ℕ := 0
  rows : ℕ := 0
  columns : ℕ := 0
  capacityElements : ℕ := 0
  access : Access := .readOnly

inductive Candidate where
  | automatic
  | nativeStrict
  | generatedStrict
  | existingNative
  | authenticatedOpenblas
  | generatedReassociate
  | generatedStrictAvx
  | generatedStrictAvx2
  | generatedStrictAvx512f
  | generatedNvvm
  | generatedRocdl
  deriving DecidableEq

inductive Implementation where
  | none
  | nativeStrict
  | generatedStrict
  | existingReference
  | authenticatedOpenblas
  | emptyOutput
  | zeroReduction
  | generatedReassociate
  | generatedStrictAvx
  | generatedStrictAvx2
  | generatedStrictAvx512f
  | generatedNvvm
  | generatedRocdl
  | generatedStrictFusedPair
  | generatedNvvmFusedPair
  | generatedRocdlFusedPair

structure CandidateReport where
  frontier : ℕ := 0
  requested : Candidate := .nativeStrict
  actual : Implementation := .none
  numeric : Numeric := .strictF32
  code : Code := .ok
  invocationAttempted : Bool := false
  valueIssued : Bool := false
  providerContractChecked : Bool := false
  providerProbeInvoked : Bool := false
  actualThreads : ℕ := 0

/-- `sizeof(float)`. -/
def floatBytes : ℕ := 4

theorem floatBytes_pos : 0 < floatBytes := by decide

/-- The shared storage of a value. No operation changes it once a handle owns it. -/
@[ext] structure Storage (F : Type) where
  rows : ℕ
  columns : ℕ
  elements : List F
  length_eq : elements.length = rows * columns

variable {F : Type}

namespace Storage

/-- Storage of the given extents with element `i` equal to `f i`. -/
def fill (rows columns : ℕ) (f : ℕ → F) : Storage F :=
  ⟨rows, columns, (List.range (rows * columns)).map f, by simp⟩

theorem fill_congr {rows columns : ℕ} {f g : ℕ → F} (h : ∀ i < rows * columns, f i = g i) :
    fill rows columns f = fill rows columns g := by
  ext1
  · rfl
  · rfl
  · exact List.map_congr_left fun i hi => h i (List.mem_range.1 hi)

/-- `elements[i]`; every index the code computes is within the vector. -/
def get (s : Storage F) (zero : F) (i : ℕ) : F := s.elements.getD i zero

end Storage

/-- `ValueAbiV2`: empty, or a handle on a storage. -/
abbrev Value (F : Type) := Option (Storage F)

namespace Value

def rows : Value F → ℕ
  | none => 0
  | some storage => storage.rows

def columns : Value F → ℕ
  | none => 0
  | some storage => storage.columns

end Value

/-- The preprocessor choices of the runtime build. -/
structure Build where
  generatedStrict : Bool := false
  generatedReassociate : Bool := false
  generatedStrictIsa : Bool := false
  generatedNvvm : Bool := false
  generatedRocdl : Bool := false
  legacyCandidates : Bool := false
  openblas : Bool := false
  fusedPairCpu : Bool := false
  generatedNvvmFusedPair : Bool := false
  generatedRocdlFusedPair : Bool := false

inductive LegacyStatus where
  | ok
  | unavailableVariant
  | other
  deriving DecidableEq

/-- What `matcore_runtime_gemm_f32_execute_v1` reports to `legacyGemm`. -/
structure LegacyReply (F : Type) where
  status : LegacyStatus
  identified : Bool
  planSelected : Bool
  out : ℕ → F

/-- The build, the arithmetic and the answers of everything a session calls. The leaves give
the final contents of the output cells. -/
structure Host (F : Type) where
  build : Build
  zero : F
  add : F → F → F
  mul : F → F → F
  supportedPlatform : Bool
  /-- whether the `n`-th allocation attempt of the operation at a frontier succeeds -/
  allocationAllowed : ℕ → ℕ → Bool
  /-- whether a record vector of this size is at its capacity -/
  recordsFull : ℕ → Bool
  fpValid : ℕ → Bool
  fpControlsUnchanged : ℕ → Bool
  fpProbeControlsUnchanged : ℕ → Bool
  generatedReassociateCpuSupported : ℕ → Bool
  closedCpuIsaSupported : Candidate → ℕ → Bool
  cudaCandidateAvailable : ℕ → CandidateCode
  rocdlCandidateAvailable : ℕ → CandidateCode
  cudaFusedPairImageAvailable : ℕ → CandidateCode
  rocdlFusedPairImageAvailable : ℕ → CandidateCode
  /-- the verdict of the provider probe, and whether this call ran it -/
  closedProviderContract : ℕ → CandidateCode × Bool
  generatedStrictLeaf : Storage F → Storage F → ℕ → F
  generatedReassociateLeaf : Storage F → Storage F → ℕ → F
  generatedStrictIsaLeaf : Candidate → Storage F → Storage F → ℕ → F
  fusedPairLeaf : Storage F → Storage F → Storage F → ℕ → F
  cudaGemmCandidate : ℕ → Storage F → Storage F → CandidateCode × (ℕ → F)
  rocdlGemmCandidate : ℕ → Storage F → Storage F → CandidateCode × (ℕ → F)
  cudaFusedPairCandidate : ℕ → Storage F → Storage F → Storage F → CandidateCode × (ℕ → F)
  rocdlFusedPairCandidate : ℕ → Storage F → Storage F → Storage F → CandidateCode × (ℕ → F)
  legacyExecute : Candidate → ℕ → Storage F → Storage F → LegacyReply F

end Matcore.ClosedHost
