import Matcore.Gemm.TaskPlan

/-!
# The requirements of the packed GEMM backends, and the partition of the output

The problems that `cpu_gemm_backend.cpp`, `cpu_packed_avx2.cpp` and `cpu_packed_avx512.cpp` accept
and the workspaces they ask for. A pointer is its address and 0 the null pointer. A function that
stores a result behind a status is an `Except`. `outputPartition` is the rectangle of a task in
`execute_output_partition` of `cpu_parallel_gemm.cpp`, in the arithmetic of `std::size_t`.
-/

namespace Matcore.Gemm

inductive CpuPackedGemmStatus where
  | success
  | invalidProblem
  | nullPointer
  | invalidPointerAlignment
  | aliasViolation
  | arithmeticOverflow
  | isaUnavailable
  | workspaceMisaligned
  | workspaceInsufficient
  | invalidPrepackedB

/-- The two instruction sets that the packed backends are written for. -/
inductive Isa where
  | avx2
  | avx512
  deriving DecidableEq

inductive WorkspaceMode where
  | transientAAndB
  | transientAWithPrepackedB

/-- `kCpuPackedGemmWorkspaceAlignmentV1`. -/
def workspaceAlignment : ℕ := 64

def packedMr : ℕ := 4
def packedNr : ℕ := 16
def packedMc : ℕ := 128
def packedNc : ℕ := 256
def packedKc : ℕ := 256

/-- `CpuPackedGemmWorkspaceRequirementsV1`. -/
structure WorkspaceRequirements where
  alignmentBytes : ℕ := workspaceAlignment
  totalBytes : ℕ := 0
  packedAOffset : ℕ := 0
  packedABytes : ℕ := 0
  packedBOffset : ℕ := 0
  packedBBytes : ℕ := 0

structure ByteSpan where
  begin : ℕ
  endByte : ℕ

def checkedMultiply (lhs rhs : ℕ) : Option ℕ :=
  if lhs ≠ 0 ∧ rhs > uint64Max / lhs then none else some (lhs * rhs)

def checkedAdd (lhs rhs : ℕ) : Option ℕ :=
  if rhs > uint64Max - lhs then none else some (lhs + rhs)

def checkedRoundUp (value multiple : ℕ) : Option ℕ :=
  if multiple = 0 then none
  else if value % multiple = 0 then some value
  else checkedAdd value (multiple - value % multiple)

def makeSpan (pointer bytes : ℕ) : Option ByteSpan :=
  if pointer = 0 then none
  else if bytes > uint64Max - pointer then none
  else some ⟨pointer, pointer + bytes⟩

/-- The bytes of a matrix of floats. -/
def matrixBytes (rows columns : ℕ) : Option ℕ := do
  let elements ← checkedMultiply rows columns
  checkedMultiply elements 4

def makeMatrixSpan (pointer rows columns : ℕ) : Option ByteSpan := do
  let bytes ← matrixBytes rows columns
  makeSpan pointer bytes

def overlaps (lhs rhs : ByteSpan) : Bool := lhs.begin < rhs.endByte && rhs.begin < lhs.endByte

def pointerHasAlignment (pointer alignment : ℕ) : Bool :=
  pointer ≠ 0 && alignment ≠ 0 && pointer % alignment = 0

/-- A result, or the status where there is none. -/
def orFail {α : Type} (status : CpuPackedGemmStatus) (result : Option α) :
    Except CpuPackedGemmStatus α :=
  match result with
  | some value => .ok value
  | none => .error status

/-- Leave with a status. -/
def failIf (condition : Bool) (status : CpuPackedGemmStatus) : Except CpuPackedGemmStatus Unit :=
  if condition then .error status else .ok ()

/-- `validate_problem`: the dimensions. -/
def validateProblem (problem : CpuGemmProblem) : Except CpuPackedGemmStatus (ℕ × ℕ × ℕ) := do
  failIf (problem.elementType ≠ .f32 || problem.accumulationType ≠ .f32 ||
    problem.layout ≠ .rowMajorContiguous || problem.minimumAlignmentBytes < 4 ||
    problem.minimumAlignmentBytes &&& (problem.minimumAlignmentBytes - 1) ≠ 0) .invalidProblem
  failIf (problem.m ≤ 0 || problem.n ≤ 0 || problem.k ≤ 0) .invalidProblem
  let m := problem.m.toNat
  let n := problem.n.toNat
  let k := problem.k.toNat
  let _ ← orFail .arithmeticOverflow (matrixBytes m k)
  let _ ← orFail .arithmeticOverflow (matrixBytes k n)
  let _ ← orFail .arithmeticOverflow (matrixBytes m n)
  return (m, n, k)

/-- `make_execution_requirements`. -/
def workspaceRequirements (problem : CpuGemmProblem) (mode : WorkspaceMode) :
    Except CpuPackedGemmStatus WorkspaceRequirements := do
  let (m, n, k) ← validateProblem problem
  let blockM := min m packedMc
  let blockN := min n packedNc
  let blockK := min k packedKc
  let sizes : Option (ℕ × ℕ × ℕ × ℕ) := do
    let paddedM ← checkedRoundUp blockM packedMr
    let paddedN ← checkedRoundUp blockN packedNr
    let packedABytes ← matrixBytes paddedM blockK
    match mode with
    | .transientAAndB =>
      let packedBBytes ← matrixBytes paddedN blockK
      let packedBOffset ← checkedRoundUp packedABytes workspaceAlignment
      let totalBytes ← checkedAdd packedBOffset packedBBytes
      return (packedABytes, packedBOffset, packedBBytes, totalBytes)
    | .transientAWithPrepackedB => return (packedABytes, 0, 0, packedABytes)
  let (packedABytes, packedBOffset, packedBBytes, totalBytes) ← orFail .arithmeticOverflow sizes
  let totalBytes ← orFail .arithmeticOverflow (checkedRoundUp totalBytes workspaceAlignment)
  return { totalBytes, packedABytes, packedBOffset, packedBBytes }

/-- `cpu_packed_avx2_prepacked_b_requirements_v1`, and that of AVX-512, which calls it. -/
def prepackedBRequirements (problem : CpuGemmProblem) :
    Except CpuPackedGemmStatus WorkspaceRequirements := do
  let (_, n, k) ← validateProblem problem
  let sizes : Option (ℕ × ℕ) := do
    let paddedN ← checkedRoundUp n packedNr
    let packedBytes ← matrixBytes paddedN k
    let totalBytes ← checkedRoundUp packedBytes workspaceAlignment
    return (packedBytes, totalBytes)
  let (packedBBytes, totalBytes) ← orFail .arithmeticOverflow sizes
  return { totalBytes, packedBBytes }

structure TensorSpans where
  lhs : ByteSpan
  rhs : ByteSpan
  out : ByteSpan

def sizeAdd (a b : ℕ) : ℕ := (a + b) % 2 ^ 64
def sizeMul (a b : ℕ) : ℕ := a * b % 2 ^ 64
def sizeSub (a b : ℕ) : ℕ := (a + 2 ^ 64 - b) % 2 ^ 64

/-- The rows and columns of a task. -/
structure OutputPartition where
  rowBegin : ℕ
  rows : ℕ
  columnBegin : ℕ
  columnEnd : ℕ

/-- The first lines of `execute_output_partition`. -/
def outputPartition (problem : CpuGemmProblem) (plan : CpuParallelTaskPlan) (taskIndex : ℕ) :
    OutputPartition :=
  let m := problem.m.toNat
  let n := problem.n.toNat
  let rowTaskIndex := taskIndex / plan.columnTaskCount
  let columnTaskIndex := taskIndex % plan.columnTaskCount
  let baseGroups := plan.rowGroupCount / plan.rowTaskCount
  let extraGroups := plan.rowGroupCount % plan.rowTaskCount
  let groupBegin := sizeAdd (sizeMul rowTaskIndex baseGroups) (min rowTaskIndex extraGroups)
  let groups := sizeAdd baseGroups (if rowTaskIndex < extraGroups then 1 else 0)
  let rowBegin := sizeMul groupBegin plan.rowQuantum
  let baseColumnPanels := plan.columnPanelCount / plan.columnTaskCount
  let extraColumnPanels := plan.columnPanelCount % plan.columnTaskCount
  let columnPanelBegin := sizeAdd (sizeMul columnTaskIndex baseColumnPanels)
    (min columnTaskIndex extraColumnPanels)
  let columnPanels := sizeAdd baseColumnPanels (if columnTaskIndex < extraColumnPanels then 1 else 0)
  { rowBegin
    rows := min (sizeSub m rowBegin) (sizeMul groups plan.rowQuantum)
    columnBegin := sizeMul columnPanelBegin packedNc
    columnEnd := min n (sizeMul (sizeAdd columnPanelBegin columnPanels) packedNc) }

/-- The output elements of a task. -/
def OutputPartition.Contains (part : OutputPartition) (row column : ℕ) : Prop :=
  (part.rowBegin ≤ row ∧ row < part.rowBegin + part.rows) ∧
    part.columnBegin ≤ column ∧ column < part.columnEnd

end Matcore.Gemm
