import Matcore.ClosedHost.Value

/-!
# The closed-host session

`SessionAbiV2` of `closed_host_v1.cpp`: the guard ladders of every operation, and what a
success or a failure does to the session. An operation returns `status_`, so its status is
the `status` of the session it leaves. The production build is modelled: the test hooks,
their injected candidate and their reentry are compiled out there, so no call finds the
session active and `status_` cannot change between a call's guards and its end.
-/

namespace Matcore.ClosedHost

open FlatMemory

variable {F : Type}

/-- The largest `int64_t` and the largest `ptrdiff_t`. -/
def int64Max : ℕ := 2 ^ 63 - 1

/-- The largest `size_t`, `uintptr_t` and `Frontier`. -/
def sizeMax : ℕ := 2 ^ 64 - 1

/-- The element count of a matrix. -/
def extent (rows columns : ℕ) : Except Code ℕ :=
  if rows > int64Max ∨ columns > int64Max ∨ (rows ≠ 0 ∧ columns > int64Max / rows) then
    .error .extentOverflow
  else if rows * columns > sizeMax / floatBytes ∨ rows * columns > int64Max / floatBytes then
    .error .extentOverflow
  else .ok (rows * columns)

def validate (view : ResourceView) (write : Bool) : Except Code ℕ :=
  match extent view.rows view.columns with
  | .error code => .error code
  | .ok elements =>
    if view.capacityElements < elements then .error .insufficientCapacity
    else if write && view.access ≠ .readWrite then .error .accessDenied
    else if elements = 0 then .ok elements
    else if view.data = 0 ∨ view.data % floatBytes ≠ 0 then .error .invalidView
    else if elements * floatBytes > sizeMax - view.data then .error .extentOverflow
    else .ok elements

def selectedCandidate (build : Build) (request : Candidate) : Candidate :=
  if request ≠ .automatic then request
  else if build.generatedStrict then .generatedStrict
  else .nativeStrict

def Host.candidateLegality (host : Host F) (request : Candidate) (numeric : Numeric)
    (frontier : ℕ) : Code :=
  match selectedCandidate host.build request with
  | .nativeStrict => .ok
  | .generatedNvvm =>
    if host.build.generatedNvvm then (host.cudaCandidateAvailable frontier).1
    else .candidateUnavailable
  | .generatedRocdl =>
    if host.build.generatedRocdl then (host.rocdlCandidateAvailable frontier).1
    else .candidateUnavailable
  | .generatedStrict => if host.build.generatedStrict then .ok else .candidateUnavailable
  | .generatedReassociate =>
    if numeric ≠ .reassociateF32 then .candidateIncompatible
    else if host.build.generatedReassociate then
      if host.generatedReassociateCpuSupported frontier then .ok else .candidateUnavailable
    else .candidateUnavailable
  | .generatedStrictAvx | .generatedStrictAvx2 | .generatedStrictAvx512f =>
    if host.build.generatedStrictIsa then
      if host.closedCpuIsaSupported request frontier then .ok else .candidateUnavailable
    else .candidateUnavailable
  | .existingNative | .authenticatedOpenblas =>
    if numeric ≠ .reassociateF32 then .candidateIncompatible
    else if ¬ host.build.legacyCandidates then .candidateUnavailable
    else if request = .authenticatedOpenblas ∧ ¬ host.build.openblas then .candidateUnavailable
    else .ok
  | .automatic => .invalidCandidate

def closedGpuShapeCompatible (m n k : ℕ) : Bool :=
  !(m > 65535 || n > 65535 || k > 65535) && m * n ≤ 2 ^ 20 && (k == 0 || m * n ≤ 2 ^ 26 / k)

def closedGpuFusedPairCompatible (m k n p : ℕ) : Bool :=
  closedGpuShapeCompatible m n k && closedGpuShapeCompatible m p n &&
    m * n * (k + p) ≤ 2 ^ 18

/-- Element `(i, j)` of a product, as `strictGemm` accumulates it. -/
def strictSum (host : Host F) (lhs rhs : Storage F) (i j : ℕ) : F :=
  (List.range lhs.columns).foldl
    (fun sum k => host.add sum
      (host.mul (lhs.get host.zero (i * lhs.columns + k)) (rhs.get host.zero (k * rhs.columns + j))))
    host.zero

/-- The cells of `result` after the loops of `strictGemm`. -/
def strictGemm (host : Host F) (lhs rhs : Storage F) : ℕ → F :=
  (List.range lhs.rows).foldl
    (fun out i => (List.range rhs.columns).foldl
      (fun out j => Function.update out (i * rhs.columns + j) (strictSum host lhs rhs i j)) out)
    fun _ => host.zero

/-- What a candidate leaves: its report, its code and the output cells. -/
structure CandidateRun (F : Type) where
  report : CandidateReport
  code : Code
  out : ℕ → F

def Host.legacyGemm (host : Host F) (candidate : Candidate) (frontier : ℕ)
    (lhs rhs : Storage F) (report : CandidateReport) : CandidateRun F :=
  let provider := candidate == .authenticatedOpenblas
  let reply := host.legacyExecute candidate frontier lhs rhs
  let report := { report with invocationAttempted := true }
  let report := if reply.identified then
      { report with
        actual := if provider then .authenticatedOpenblas else .existingReference
        actualThreads := 1 }
    else report
  let code : Code :=
    if reply.status = .unavailableVariant then .candidateUnavailable
    else if reply.status ≠ .ok ∨ ¬ reply.identified ∨ ¬ reply.planSelected then .candidateFailure
    else .ok
  ⟨report, code, reply.out⟩

/-- The report of a leaf that runs on the calling thread. -/
def CandidateReport.ran (report : CandidateReport) (actual : Implementation) : CandidateReport :=
  { report with actual, invocationAttempted := true, actualThreads := 1 }

/-- The implementation that `gemm` reports for an ISA candidate. -/
def isaImplementation : Candidate → Implementation
  | .generatedStrictAvx => .generatedStrictAvx
  | .generatedStrictAvx2 => .generatedStrictAvx2
  | .generatedStrictAvx512f => .generatedStrictAvx512f
  | _ => .none

/-- The dispatch of `gemm` once the output storage and the environment are ready. -/
def Host.runCandidate (host : Host F) (candidate : Candidate) (frontier : ℕ)
    (lhs rhs : Storage F) (report : CandidateReport) : CandidateRun F :=
  let unavailable : CandidateRun F := ⟨report, .candidateUnavailable, fun _ => host.zero⟩
  if lhs.rows * rhs.columns = 0 then
    ⟨{ report with actual := .emptyOutput }, .ok, fun _ => host.zero⟩
  else if lhs.columns = 0 then
    ⟨{ report with actual := .zeroReduction }, .ok, fun _ => host.zero⟩
  else
    match selectedCandidate host.build candidate with
    | .nativeStrict => ⟨report.ran .nativeStrict, .ok, strictGemm host lhs rhs⟩
    | .generatedStrict =>
      if host.build.generatedStrict then
        ⟨report.ran .generatedStrict, .ok, host.generatedStrictLeaf lhs rhs⟩
      else unavailable
    | .generatedReassociate =>
      if host.build.generatedReassociate then
        ⟨report.ran .generatedReassociate, .ok, host.generatedReassociateLeaf lhs rhs⟩
      else unavailable
    | .generatedNvvm =>
      if host.build.generatedNvvm then
        let reply := host.cudaGemmCandidate frontier lhs rhs
        ⟨{ report with actual := .generatedNvvm, invocationAttempted := true }, reply.1.1, reply.2⟩
      else unavailable
    | .generatedRocdl =>
      if host.build.generatedRocdl then
        let reply := host.rocdlGemmCandidate frontier lhs rhs
        ⟨{ report with actual := .generatedRocdl, invocationAttempted := true }, reply.1.1, reply.2⟩
      else unavailable
    | .generatedStrictAvx | .generatedStrictAvx2 | .generatedStrictAvx512f =>
      if host.build.generatedStrictIsa then
        ⟨report.ran (isaImplementation candidate), .ok,
          host.generatedStrictIsaLeaf candidate lhs rhs⟩
      else unavailable
    | .existingNative | .authenticatedOpenblas =>
      if host.build.legacyCandidates then host.legacyGemm candidate frontier lhs rhs report
      else unavailable
    | .automatic => ⟨report, .invalidCandidate, fun _ => host.zero⟩

/-- `allocate`, whose first allocation attempt at this frontier is number `attempt`. -/
def Host.allocate (host : Host F) (frontier : ℕ) (attempt rows columns : ℕ) :
    Except Code (Storage F) :=
  match extent rows columns with
  | .error code => .error code
  | .ok count =>
    if ¬ host.allocationAllowed frontier attempt then .error .allocationFailure
    else if count ≠ 0 ∧ ¬ host.allocationAllowed frontier (attempt + 1) then
      .error .allocationFailure
    else .ok (.fill rows columns fun _ => host.zero)

/-- The storage that copies the cells of a view. -/
def ResourceView.copy (view : ResourceView) (mem : Mem F) : Storage F :=
  ⟨view.rows, view.columns, readCells floatBytes mem view.data (view.rows * view.columns),
    by simp⟩

def Host.snapshot (host : Host F) (frontier : ℕ) (mem : Mem F) (view : ResourceView) :
    Except Code (Storage F) :=
  match validate view false with
  | .error code => .error code
  | .ok _ =>
    match host.allocate frontier 0 view.rows view.columns with
    | .error code => .error code
    | .ok _ => .ok (view.copy mem)

/-- The guards of `read` after `begin`. -/
def Host.readStorage (host : Host F) (frontier : ℕ) (mem : Mem F) (view : ResourceView)
    (rows columns : ℕ) : Except Code (Storage F) :=
  match extent rows columns with
  | .error code => .error code
  | .ok _ =>
    if view.rows ≠ rows ∨ view.columns ≠ columns then .error .shapeMismatch
    else host.snapshot frontier mem view

/-- The guards of `readForwarded` after `begin`. -/
def forwardedStorage (view : ResourceView) (rows columns : ℕ) (published : Value F) :
    Except Code (Storage F) :=
  match extent rows columns with
  | .error code => .error code
  | .ok _ =>
    if view.rows ≠ rows ∨ view.columns ≠ columns then .error .shapeMismatch
    else
      match validate view false with
      | .error code => .error code
      | .ok _ =>
        match published with
        | none => .error .invalidValue
        | some storage =>
          if storage.rows ≠ rows ∨ storage.columns ≠ columns then .error .shapeMismatch
          else .ok storage

/-- The candidate and GPU shape guards of `gemm`. -/
def Host.gemmLegality (host : Host F) (candidate : Candidate) (numeric : Numeric)
    (frontier : ℕ) (lhs rhs : Storage F) : Code :=
  let code := host.candidateLegality candidate numeric frontier
  if code = .ok ∧ (candidate = .generatedNvvm ∨ candidate = .generatedRocdl) then
    match extent lhs.rows rhs.columns with
    | .error code => code
    | .ok _ =>
      if closedGpuShapeCompatible lhs.rows rhs.columns lhs.columns then .ok
      else .candidateIncompatible
  else code

/-- The provider contract that `gemm` checks for a forced provider. -/
def Host.providerGuard (host : Host F) (candidate : Candidate) (frontier : ℕ)
    (report : CandidateReport) : CandidateReport × Code :=
  if host.build.legacyCandidates ∧ candidate = .authenticatedOpenblas then
    let verdict := host.closedProviderContract frontier
    ({ report with
        providerContractChecked := true
        providerProbeInvoked := report.providerProbeInvoked || verdict.2 },
      if host.fpProbeControlsUnchanged frontier then verdict.1.1 else .candidateFailure)
  else (report, .ok)

/-- `gemm` between `begin` and the assignment of its result. -/
def Host.gemmStorage (host : Host F) (candidate : Candidate) (frontier : ℕ)
    (lhs rhs : Value F) (numeric : Numeric) (report : CandidateReport) :
    CandidateReport × Except Code (Storage F) :=
  match lhs, rhs with
  | some lhs, some rhs =>
    if lhs.columns ≠ rhs.rows then (report, .error .shapeMismatch)
    else if host.gemmLegality candidate numeric frontier lhs rhs ≠ .ok then
      (report, .error (host.gemmLegality candidate numeric frontier lhs rhs))
    else
      match host.allocate frontier 0 lhs.rows rhs.columns with
      | .error code => (report, .error code)
      | .ok _ =>
        if ¬ host.fpValid frontier then (report, .error .unsupportedFpEnvironment)
        else
          let guarded := host.providerGuard candidate frontier report
          if guarded.2 ≠ .ok then (guarded.1, .error guarded.2)
          else
            let run := host.runCandidate candidate frontier lhs rhs guarded.1
            if ¬ host.fpControlsUnchanged frontier then (run.report, .error .candidateFailure)
            else if run.code ≠ .ok then (run.report, .error run.code)
            else (run.report, .ok (.fill lhs.rows rhs.columns run.out))
  | _, _ => (report, .error .invalidValue)

/-- The lambda `pairLegality` of `gemmStrictFusedPair`. -/
def Host.pairLegality (host : Host F) (candidate : Candidate) (numeric : Numeric)
    (frontier : ℕ) : Code :=
  if host.candidateLegality candidate numeric frontier ≠ .ok then
    host.candidateLegality candidate numeric frontier
  else if numeric ≠ .strictF32 then .candidateIncompatible
  else
    match candidate with
    | .generatedStrict => if host.build.fusedPairCpu then .ok else .candidateUnavailable
    | .generatedNvvm =>
      if host.build.generatedNvvmFusedPair then (host.cudaFusedPairImageAvailable frontier).1
      else .candidateUnavailable
    | .generatedRocdl =>
      if host.build.generatedRocdlFusedPair then (host.rocdlFusedPairImageAvailable frontier).1
      else .candidateUnavailable
    | _ => .candidateIncompatible

def Candidate.gpu (candidate : Candidate) : Bool :=
  candidate == .generatedNvvm || candidate == .generatedRocdl

/-- The guards of the first frontier of `gemmStrictFusedPair`. -/
def Host.pairFirst (host : Host F) (candidate : Candidate) (f₁ f₂ : ℕ) (a b : Value F)
    (first : Numeric) : Except Code (Storage F × Storage F) :=
  if f₁ = sizeMax ∨ f₂ ≠ f₁ + 1 then .error .invalidFrontier
  else
    match a, b with
    | some a, some b =>
      if a.columns ≠ b.rows then .error .shapeMismatch
      else if host.pairLegality candidate first f₁ ≠ .ok then
        .error (host.pairLegality candidate first f₁)
      else
        match extent a.rows b.columns with
        | .error code => .error code
        | .ok _ =>
          if candidate.gpu && !closedGpuShapeCompatible a.rows b.columns a.columns then
            .error .candidateIncompatible
          else if ¬ host.fpValid f₁ then .error .unsupportedFpEnvironment
          else if ¬ host.fpControlsUnchanged f₁ then .error .candidateFailure
          else .ok (a, b)
    | _, _ => .error .invalidValue

/-- The GPU shape guards of the second frontier. -/
def pairGpuGuard (candidate : Candidate) (a b d : Storage F) : Code :=
  if candidate.gpu then
    match extent a.rows d.columns with
    | .error code => code
    | .ok _ =>
      if closedGpuShapeCompatible a.rows d.columns b.columns &&
          closedGpuFusedPairCompatible a.rows a.columns b.columns d.columns then .ok
      else .candidateIncompatible
  else .ok

/-- The dispatch of the combined realization. -/
def Host.runPair (host : Host F) (candidate : Candidate) (frontier : ℕ)
    (a b d : Storage F) (report : CandidateReport) : CandidateRun F :=
  let unavailable : CandidateRun F := ⟨report, .candidateUnavailable, fun _ => host.zero⟩
  if a.rows * d.columns = 0 then
    ⟨{ report with actual := .emptyOutput }, .ok, fun _ => host.zero⟩
  else if b.columns = 0 then
    ⟨{ report with actual := .zeroReduction }, .ok, fun _ => host.zero⟩
  else if candidate = .generatedNvvm then
    if host.build.generatedNvvmFusedPair then
      let reply := host.cudaFusedPairCandidate frontier a b d
      ⟨{ report with actual := .generatedNvvmFusedPair, invocationAttempted := true },
        reply.1.1, reply.2⟩
    else unavailable
  else if candidate = .generatedRocdl then
    if host.build.generatedRocdlFusedPair then
      let reply := host.rocdlFusedPairCandidate frontier a b d
      ⟨{ report with actual := .generatedRocdlFusedPair, invocationAttempted := true },
        reply.1.1, reply.2⟩
    else unavailable
  else if host.build.fusedPairCpu then
    ⟨report.ran .generatedStrictFusedPair, .ok, host.fusedPairLeaf a b d⟩
  else unavailable

/-- The allocation of the panel workspace, which only nonempty CPU work needs. -/
def Host.pairWorkspace (host : Host F) (candidate : Candidate) (frontier : ℕ)
    (a b d : Storage F) : Code :=
  if ¬ candidate.gpu ∧ a.rows * d.columns ≠ 0 ∧ b.columns ≠ 0 then
    match host.allocate frontier 2 (min 4 a.rows) b.columns with
    | .error code => code
    | .ok _ => .ok
  else .ok

/-- The second frontier of `gemmStrictFusedPair` between `begin` and the assignment of its
result. -/
def Host.pairStorage (host : Host F) (candidate : Candidate) (frontier : ℕ)
    (a b : Storage F) (d : Value F) (second : Numeric) (report : CandidateReport) :
    CandidateReport × Except Code (Storage F) :=
  match d with
  | none => (report, .error .invalidValue)
  | some d =>
    if b.columns ≠ d.rows then (report, .error .shapeMismatch)
    else if host.pairLegality candidate second frontier ≠ .ok then
      (report, .error (host.pairLegality candidate second frontier))
    else if pairGpuGuard candidate a b d ≠ .ok then
      (report, .error (pairGpuGuard candidate a b d))
    else
      match host.allocate frontier 0 a.rows d.columns with
      | .error code => (report, .error code)
      | .ok _ =>
        if host.pairWorkspace candidate frontier a b d ≠ .ok then
          (report, .error (host.pairWorkspace candidate frontier a b d))
        else if ¬ host.fpValid frontier then (report, .error .unsupportedFpEnvironment)
        else
          let run := host.runPair candidate frontier a b d report
          if ¬ host.fpControlsUnchanged frontier then (run.report, .error .candidateFailure)
          else if run.code ≠ .ok then (run.report, .error run.code)
          else (run.report, .ok (.fill a.rows d.columns run.out))

/-- The guards of `publish` after `begin`. -/
def publishStorage (value : Value F) (destination : ResourceView) : Except Code (Storage F) :=
  match value with
  | none => .error .invalidValue
  | some storage =>
    match validate destination true with
    | .error code => .error code
    | .ok _ =>
      if storage.rows ≠ destination.rows ∨ storage.columns ≠ destination.columns then
        .error .shapeMismatch
      else .ok storage

/-- `ObservationAbiV2`. -/
structure Observation (F : Type) where
  frontier : ℕ
  value : Value F

structure Session (F : Type) where
  status : Status := {}
  candidate : Candidate := .nativeStrict
  candidateReport : CandidateReport := {}
  active : Bool := false
  resultTaken : Bool := false
  activeFrontier : ℕ := 0
  /-- the observation block, once the first observation has allocated it -/
  observations : Option (List (Observation F)) := none

namespace Session

def fail (s : Session F) (code : Code) (frontier : ℕ) : Session F :=
  if s.status.code = .ok then
    { s with status := { s.status with code, failedFrontier := frontier } }
  else s

def succeed (s : Session F) (frontier : ℕ) : Session F :=
  if s.status.code = .ok then
    { s with status := { s.status with completedFrontier := frontier } }
  else s

/-- `begin`, with whether the operation may go on. -/
def begin (s : Session F) (host : Host F) (frontier : ℕ) : Session F × Bool :=
  if s.resultTaken then (s.fail .alreadyComplete frontier, false)
  else if s.status.code ≠ .ok then (s, false)
  else if s.active then (s.fail .reentrantUse s.activeFrontier, false)
  else if s.status.completed then (s.fail .alreadyComplete frontier, false)
  else if frontier = 0 ∨ frontier ≤ s.status.completedFrontier then
    (s.fail .invalidFrontier frontier, false)
  else if ¬ host.supportedPlatform then (s.fail .unsupportedFpEnvironment frontier, false)
  else ({ s with active := true, activeFrontier := frontier }, true)

/-- The destructor of `ActiveCall`. -/
def leave (s : Session F) : Session F := { s with active := false, activeFrontier := 0 }

/-- The block of records, empty before the first observation. -/
def records (s : Session F) : List (Observation F) := s.observations.getD []

def read (s : Session F) (host : Host F) (mem : Mem F) (frontier : ℕ)
    (view : ResourceView) (rows columns : ℕ) (result : Value F) : Session F × Value F :=
  match s.begin host frontier with
  | (s, false) => (s, result)
  | (s, true) =>
    match host.readStorage frontier mem view rows columns with
    | .error code => ((s.fail code frontier).leave, result)
    | .ok storage => ((s.succeed frontier).leave, some storage)

def readForwarded (s : Session F) (host : Host F) (frontier : ℕ) (view : ResourceView)
    (rows columns : ℕ) (published result : Value F) : Session F × Value F :=
  match s.begin host frontier with
  | (s, false) => (s, result)
  | (s, true) =>
    match forwardedStorage view rows columns published with
    | .error code => ((s.fail code frontier).leave, result)
    | .ok storage => ((s.succeed frontier).leave, some storage)

/-- The report that `gemm` starts from. -/
def freshReport (s : Session F) (frontier : ℕ) (numeric : Numeric) : CandidateReport :=
  { frontier, requested := s.candidate, numeric }

/-- The end of a product at a frontier, from its last report and its outcome. -/
def retire (s : Session F) (frontier : ℕ) (result : Value F) :
    CandidateReport × Except Code (Storage F) → Session F × Value F
  | (report, .error code) =>
    (({ s with candidateReport := { report with code } }.fail code frontier).leave, result)
  | (report, .ok storage) =>
    (({ s with candidateReport := { report with valueIssued := true } }.succeed frontier).leave,
      some storage)

def gemm (s : Session F) (host : Host F) (frontier : ℕ) (lhs rhs : Value F)
    (numeric : Numeric) (result : Value F) : Session F × Value F :=
  match s.begin host frontier with
  | (s, false) => (s, result)
  | (s, true) =>
    s.retire frontier result
      (host.gemmStorage s.candidate frontier lhs rhs numeric (s.freshReport frontier numeric))

/-- The second half of `gemmStrictFusedPair`, at a session whose first frontier is retired. -/
def pairTail (s : Session F) (host : Host F) (f₂ : ℕ) (a b : Storage F) (d : Value F)
    (second : Numeric) (result : Value F) : Session F × Value F :=
  match s.begin host f₂ with
  | (s, false) => (s, result)
  | (s, true) =>
    s.retire f₂ result
      (host.pairStorage s.candidate f₂ a b d second (s.freshReport f₂ second))

def gemmStrictFusedPair (s : Session F) (host : Host F) (f₁ f₂ : ℕ) (a b d : Value F)
    (first second : Numeric) (result : Value F) : Session F × Value F :=
  match s.begin host f₁ with
  | (s, false) => (s, result)
  | (s, true) =>
    let report := s.freshReport f₁ first
    match host.pairFirst s.candidate f₁ f₂ a b first with
    | .error code =>
      (({ s with candidateReport := { report with code } }.fail code f₁).leave, result)
    | .ok (a, b) =>
      (({ s with candidateReport := report }.succeed f₁).leave).pairTail host f₂ a b d second result

/-- A counter of type `std::uint64_t` increased by one. -/
def increment (n : ℕ) : ℕ := (n + 1) % 2 ^ 64

/-- The status changes of a successful publication. -/
def published (s : Session F) (frontier : ℕ) : Session F :=
  { s with status :=
      { s.status with
        publications := increment s.status.publications
        completedEffectFrontier := frontier } }

def publish (s : Session F) (host : Host F) (mem : Mem F) (frontier : ℕ)
    (value : Value F) (destination : ResourceView) : Session F × Mem F :=
  match s.begin host frontier with
  | (s, false) => (s, mem)
  | (s, true) =>
    match publishStorage value destination with
    | .error code => ((s.fail code frontier).leave, mem)
    | .ok storage =>
      (((s.published frontier).succeed frontier).leave,
        writeCells floatBytes mem destination.data storage.elements)

/-- The session with the observation block allocated. -/
def withRecords (s : Session F) : Session F := { s with observations := some s.records }

/-- The status and record changes of a successful observation. -/
def observed (s : Session F) (frontier : ℕ) (storage : Storage F) : Session F :=
  { s with
    observations := some (s.records ++ [⟨frontier, some storage⟩])
    status :=
      { s.status with
        observations := increment s.status.observations
        completedEffectFrontier := frontier } }

def observe (s : Session F) (host : Host F) (mem : Mem F) (frontier : ℕ)
    (view : ResourceView) : Session F :=
  match s.begin host frontier with
  | (s, false) => s
  | (s, true) =>
    match host.snapshot frontier mem view with
    | .error code => (s.fail code frontier).leave
    | .ok storage =>
      if s.observations.isNone ∧ ¬ host.allocationAllowed frontier 2 then
        (s.fail .allocationFailure frontier).leave
      else if host.recordsFull s.records.length ∧ ¬ host.allocationAllowed frontier 3 then
        (s.withRecords.fail .allocationFailure frontier).leave
      else ((s.observed frontier storage).succeed frontier).leave

def complete (s : Session F) (host : Host F) (frontier : ℕ) : Session F :=
  match s.begin host frontier with
  | (s, false) => s
  | (s, true) => ({ s with status := { s.status with completed := true } }.succeed frontier).leave

end Session

structure SourceLocation where
  file : Option (List UInt8) := none
  line : ℕ := 0
  column : ℕ := 0

/-- `matcore::mdsl::Result`, which owns the records it was given. -/
structure Result (F : Type) where
  status : Status
  observations : Option (List (Observation F))
  failure : SourceLocation

def Session.takeResult (s : Session F) (failure : SourceLocation) : Session F × Result F :=
  if s.active then
    let s := s.fail .reentrantUse s.activeFrontier
    (s, ⟨s.status, none, failure⟩)
  else if s.resultTaken then (s, ⟨{ code := .alreadyComplete }, none, {}⟩)
  else
    let s := if s.status.code = .ok ∧ ¬ s.status.completed then s.fail .invalidFrontier 0 else s
    ({ s with resultTaken := true, observations := none },
      ⟨s.status, s.observations, if s.status.code = .ok then {} else failure⟩)

/-! ### The host of the generated strict CPU build

`StrictLeaves` is what a build with both generated CPU leaves promises: allocations succeed, and
each leaf stores the strict ordered fold of every product. In a `StrictHost` the floating-point
environment stays valid too. `Host.generatedCpu` is such a host over given arithmetic.
-/

/-- The product of two storages, each element the strict ordered fold. -/
def strictProduct (host : Host F) (lhs rhs : Storage F) : Storage F :=
  .fill lhs.rows rhs.columns fun e => strictSum host lhs rhs (e / rhs.columns) (e % rhs.columns)

/-- A CPU build with the generated strict leaves, whose allocations succeed. -/
structure StrictLeaves (host : Host F) : Prop where
  generated : host.build.generatedStrict = true
  fused : host.build.fusedPairCpu = true
  allocations : ∀ f attempt, host.allocationAllowed f attempt = true
  leaf : ∀ lhs rhs : Storage F, ∀ e < lhs.rows * rhs.columns,
    host.generatedStrictLeaf lhs rhs e = strictSum host lhs rhs (e / rhs.columns) (e % rhs.columns)
  fusedLeaf : ∀ a b d : Storage F, ∀ e < a.rows * d.columns,
    host.fusedPairLeaf a b d e =
      strictSum host (strictProduct host a b) d (e / d.columns) (e % d.columns)

/-- Such a build on a platform that it supports, whose resources never run out. -/
structure StrictHost (host : Host F) : Prop extends StrictLeaves host where
  environment : ∀ f, host.fpValid f = true
  controls : ∀ f, host.fpControlsUnchanged f = true

/-- The host of that build over `zero`, `add` and `mul`. -/
def Host.generatedCpu (zero : F) (add mul : F → F → F) : Host F :=
  let host : Host F :=
    { build := { generatedStrict := true, fusedPairCpu := true }
      zero, add, mul
      supportedPlatform := true
      allocationAllowed := fun _ _ => true
      recordsFull := fun n => n == 0
      fpValid := fun _ => true
      fpControlsUnchanged := fun _ => true
      fpProbeControlsUnchanged := fun _ => true
      generatedReassociateCpuSupported := fun _ => true
      closedCpuIsaSupported := fun _ _ => true
      cudaCandidateAvailable := fun _ => ⟨.candidateUnavailable, rfl⟩
      rocdlCandidateAvailable := fun _ => ⟨.candidateUnavailable, rfl⟩
      cudaFusedPairImageAvailable := fun _ => ⟨.candidateUnavailable, rfl⟩
      rocdlFusedPairImageAvailable := fun _ => ⟨.candidateUnavailable, rfl⟩
      closedProviderContract := fun _ => (⟨.candidateUnavailable, rfl⟩, false)
      generatedStrictLeaf := fun _ _ _ => zero
      generatedReassociateLeaf := fun _ _ _ => zero
      generatedStrictIsaLeaf := fun _ _ _ _ => zero
      fusedPairLeaf := fun _ _ _ _ => zero
      cudaGemmCandidate := fun _ _ _ => (⟨.candidateFailure, rfl⟩, fun _ => zero)
      rocdlGemmCandidate := fun _ _ _ => (⟨.candidateFailure, rfl⟩, fun _ => zero)
      cudaFusedPairCandidate := fun _ _ _ _ => (⟨.candidateFailure, rfl⟩, fun _ => zero)
      rocdlFusedPairCandidate := fun _ _ _ _ => (⟨.candidateFailure, rfl⟩, fun _ => zero)
      legacyExecute := fun _ _ _ _ => ⟨.unavailableVariant, false, false, fun _ => zero⟩ }
  { host with
    generatedStrictLeaf := fun lhs rhs e =>
      strictSum host lhs rhs (e / rhs.columns) (e % rhs.columns)
    generatedStrictIsaLeaf := fun _ lhs rhs e =>
      strictSum host lhs rhs (e / rhs.columns) (e % rhs.columns)
    fusedPairLeaf := fun a b d e =>
      strictSum host (strictProduct host a b) d (e / d.columns) (e % d.columns) }

theorem strictHost_generatedCpu (zero : F) (add mul : F → F → F) :
    StrictHost (Host.generatedCpu zero add mul) :=
  ⟨⟨rfl, rfl, fun _ _ => rfl, fun _ _ _ _ => rfl, fun _ _ _ _ _ => rfl⟩, fun _ => rfl, fun _ => rfl⟩

end Matcore.ClosedHost
