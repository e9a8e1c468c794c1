import Mathlib

/-!
# The parallel task plan

`plan_cpu_parallel_tasks_v1` of `cpu_planner_v3.cpp`: how many row bands and column bands the
output of a GEMM is cut into. Integers are natural numbers: no sum or product of the planner
leaves 64 bits, but for the two that saturate.
-/

namespace Matcore.Gemm

/-- The largest `std::uint64_t`, and the largest `std::size_t`. -/
def uint64Max : ℕ := 2 ^ 64 - 1

inductive CpuScalarType where
  | invalid
  | f32
  deriving DecidableEq

inductive CpuLayout where
  | invalid
  | rowMajorContiguous
  deriving DecidableEq

/-- `CpuGemmProblemV1`. -/
structure CpuGemmProblem where
  m : ℤ
  n : ℤ
  k : ℤ
  elementType : CpuScalarType := .f32
  accumulationType : CpuScalarType := .f32
  layout : CpuLayout := .rowMajorContiguous
  minimumAlignmentBytes : ℕ := 4
  m_lt : m < 2 ^ 63 := by decide
  n_lt : n < 2 ^ 63 := by decide
  k_lt : k < 2 ^ 63 := by decide

/-- `CpuParallelTaskPlanV1`. -/
structure CpuParallelTaskPlan where
  macroTileCount : ℕ := 0
  rowQuantum : ℕ := 0
  rowGroupCount : ℕ := 0
  rowTaskCount : ℕ := 0
  columnPanelCount : ℕ := 0
  columnTaskCount : ℕ := 0
  taskCount : ℕ := 0
  actualThreads : ℕ := 0
  deriving DecidableEq

def divideRoundUp (numerator denominator : ℕ) : ℕ :=
  if denominator = 0 then uint64Max
  else numerator / denominator + if numerator % denominator ≠ 0 then 1 else 0

def greatestCommonDivisor (lhs rhs : ℕ) : ℕ :=
  if _h : rhs = 0 then lhs
  else greatestCommonDivisor rhs (lhs % rhs)
  termination_by rhs
  decreasing_by exact Nat.mod_lt _ (Nat.pos_of_ne_zero _h)

def saturatingMultiply (lhs rhs : ℕ) : ℕ :=
  if lhs ≠ 0 ∧ rhs > uint64Max / lhs then uint64Max else lhs * rhs

def leastCommonMultiple (lhs rhs : ℕ) : ℕ :=
  let divisor := greatestCommonDivisor lhs rhs
  if divisor = 0 then 0 else saturatingMultiply (lhs / divisor) rhs

def operationCount (problem : CpuGemmProblem) : ℕ :=
  if problem.m ≤ 0 ∨ problem.n ≤ 0 ∨ problem.k ≤ 0 then 0
  else saturatingMultiply (saturatingMultiply problem.m.toNat problem.n.toNat) problem.k.toNat

def macroTileRows : ℕ := 128
def registerTileRows : ℕ := 4
def cacheLineFloatCount : ℕ := 16
def columnTileColumns : ℕ := 256
def columnOnlyMinimumWorkPerThread : ℕ := 2 ^ 23
def twoDimensionalMinimumWorkPerThread : ℕ := 2 ^ 25

namespace CpuParallelTaskPlan

variable (plan : CpuParallelTaskPlan)

/-- The body of the loop over the row task counts. -/
def consider (requestedThreads rowTasks : ℕ) : CpuParallelTaskPlan :=
  let columnTasks := min plan.columnPanelCount (requestedThreads / rowTasks)
  let candidateTasks := rowTasks * columnTasks
  if candidateTasks > plan.taskCount ∨
      candidateTasks = plan.taskCount ∧ rowTasks > plan.rowTaskCount then
    { plan with
      rowTaskCount := rowTasks, columnTaskCount := columnTasks, taskCount := candidateTasks }
  else plan

/-- The plan with one column task. -/
def rowsOnly (rowTasks : ℕ) : CpuParallelTaskPlan :=
  { plan with rowTaskCount := rowTasks, columnTaskCount := 1, taskCount := rowTasks }

/-- The loop over the row task counts. -/
def spread (problem : CpuGemmProblem) (requestedThreads maximumRowTasks : ℕ) :
    CpuParallelTaskPlan :=
  if (problem.minimumAlignmentBytes ≥ 64 ∧ problem.n.toNat % cacheLineFloatCount = 0) ∧
      plan.columnPanelCount > 1 then
    (List.range' 1 maximumRowTasks).foldl (fun plan => plan.consider requestedThreads) plan
  else plan

/-- The return to row tasks where column tasks have too little work. -/
def settle (problem : CpuGemmProblem) (maximumRowTasks : ℕ) : CpuParallelTaskPlan :=
  if plan.taskCount > maximumRowTasks then
    let minimumWorkPerThread :=
      if plan.rowTaskCount = 1 then columnOnlyMinimumWorkPerThread
      else twoDimensionalMinimumWorkPerThread
    let floatingPointOperations := saturatingMultiply 2 (operationCount problem)
    if floatingPointOperations / plan.taskCount < minimumWorkPerThread then
      plan.rowsOnly maximumRowTasks
    else plan
  else plan

end CpuParallelTaskPlan

def planCpuParallelTasks (problem : CpuGemmProblem) (requestedThreads : ℕ) :
    CpuParallelTaskPlan :=
  if problem.m ≤ 0 ∨ problem.n ≤ 0 ∨ problem.k ≤ 0 ∨ requestedThreads = 0 then {}
  else
    let rows := problem.m.toNat
    let columns := problem.n.toNat
    let rowsPerCachelineBoundary :=
      cacheLineFloatCount / greatestCommonDivisor columns cacheLineFloatCount
    let rowQuantum := leastCommonMultiple registerTileRows rowsPerCachelineBoundary
    if rowQuantum = 0 then {}
    else
      let result : CpuParallelTaskPlan :=
        { macroTileCount := divideRoundUp rows macroTileRows
          rowQuantum
          rowGroupCount := divideRoundUp rows rowQuantum
          columnPanelCount := divideRoundUp columns columnTileColumns }
      let maximumRowTasks := min requestedThreads (min result.macroTileCount result.rowGroupCount)
      let result := ((result.rowsOnly maximumRowTasks).spread problem requestedThreads
        maximumRowTasks).settle problem maximumRowTasks
      { result with actualThreads := min requestedThreads result.taskCount % 2 ^ 32 }

end Matcore.Gemm
