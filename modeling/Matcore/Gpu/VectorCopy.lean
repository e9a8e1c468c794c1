import Matcore.Lib.LoopNest

/-!
# The distributed workgroup copy

The side of `gpu_tiling.cpp` that finds the loops of a copy between global and workgroup memory and
replaces them by transfers of eight elements, which the threads of a block share. Index arithmetic
does not overflow.
-/

namespace Matcore.Gpu.VectorCopy

inductive ElementType where
  | f16
  | other
  deriving DecidableEq

structure MemRefType where
  /-- `none` for a dynamic dimension -/
  shape : List (Option ℤ)
  elementType : ElementType
  workgroup : Bool

/-- A memref, with the casts and the view below it. -/
inductive MemRef where
  | value (name : ℕ) (type : MemRefType)
  | cast (type : MemRefType) (source : MemRef)
  | view (type : MemRefType) (byteShift : Option ℤ) (sizes : List (Option ℤ))

def MemRef.type : MemRef → MemRefType
  | .value _ type => type
  | .cast type _ => type
  | .view type _ _ => type

/-- A shape without dynamic dimensions. -/
def staticShape (type : MemRefType) : Option (List ℤ) := type.shape.mapM id

def inferStaticShape : MemRef → Option (List ℤ)
  | .value _ type => staticShape type
  | .cast type source => (staticShape type).orElse fun _ => inferStaticShape source
  | .view type byteShift sizes =>
    (staticShape type).orElse fun _ => do
      guard (byteShift = some 0)
      let shape ← sizes.mapM id
      guard (∀ size ∈ shape, 0 ≤ size)
      return shape

/-- An operation in the body of a loop. Results and induction variables have numbers, and a bound is
`none` where it is not a constant. -/
inductive LoopOp where
  | scfFor (lower upper step : Option ℤ) (inductionVar : ℕ) (body : List LoopOp)
  | load (result : ℕ) (memref : MemRef) (indices : List ℕ)
  | store (value : ℕ) (memref : MemRef) (indices : List ℕ)
  | other

structure Rank2CopyLoopInfo where
  src : MemRef
  dst : MemRef
  srcWorkgroup : Bool
  dstWorkgroup : Bool
  rows : ℕ
  cols : ℕ

/-- The loops that are replaced. -/
def matchRank2CopyLoop : LoopOp → Option Rank2CopyLoopInfo
  | .scfFor lower upper step outer
      [.scfFor innerLower innerUpper innerStep inner
        [.load result src srcIndices, .store value dst dstIndices]] => do
    let rows ← upper
    guard (lower = some 0 ∧ step = some 1 ∧ 0 < rows)
    let cols ← innerUpper
    guard (innerLower = some 0 ∧ innerStep = some 1 ∧ 0 < cols)
    guard (value = result ∧ srcIndices = [outer, inner] ∧ dstIndices = [outer, inner])
    guard (src.type.shape.length = 2 ∧ dst.type.shape.length = 2 ∧
      src.type.elementType = dst.type.elementType ∧ src.type.elementType = .f16)
    guard (inferStaticShape src = some [rows, cols] ∧ inferStaticShape dst = some [rows, cols])
    guard (src.type.workgroup ≠ dst.type.workgroup)
    guard (cols % 8 = 0)
    return {
      src, dst
      srcWorkgroup := src.type.workgroup
      dstWorkgroup := dst.type.workgroup
      rows := rows.toNat
      cols := cols.toNat }
  | _ => none

inductive Dimension where
  | x | y | z

/-- A value of index type. -/
inductive Index where
  | threadId (d : Dimension)
  | blockDim (d : Dimension)
  | constant (n : ℕ)
  | inductionVar (loop : ℕ)
  | add (lhs rhs : Index)
  | mul (lhs rhs : Index)
  | div (lhs rhs : Index)
  | rem (lhs rhs : Index)
  | ceilDiv (lhs rhs : Index)

/-- The code that is built: loops and branches around one transfer. -/
inductive Stmt where
  | scfFor (loop : ℕ) (lower upper step : Index) (body : Stmt)
  /-- `scf.if` of an unsigned comparison -/
  | ifLess (lhs rhs : Index) (body : Stmt)
  | transfer (row column : Index)

/-- The shape of a block. It has threads. -/
structure Block where
  x : ℕ
  y : ℕ
  z : ℕ
  pos : 0 < x ∧ 0 < y ∧ 0 < z

def Block.size (block : Block) : ℕ := block.x * block.y * block.z

def ceilDiv (a b : ℕ) : ℕ := (a + b - 1) / b

/-- `build_transfer`. -/
def buildTransfer (row segment : Index) : Stmt := .transfer row (.mul segment (.constant 8))

/-- The rows of a warp whose lanes take whole rows each, where the segments of a row divide 32. -/
def emitWholeRows (rows segments warpGroups : ℕ) (warpId : Index) : Stmt :=
  let rowsPerWarpIteration := 32 / segments
  let rowsPerIteration := warpGroups * rowsPerWarpIteration
  let laneRow := Index.div (.threadId .x) (.constant segments)
  let laneSegment := Index.rem (.threadId .x) (.constant segments)
  let warpSlot := Index.add warpId (.mul (.inductionVar 0) (.constant warpGroups))
  let row := Index.add (.mul warpSlot (.constant rowsPerWarpIteration)) laneRow
  .scfFor 0 (.constant 0) (.constant (ceilDiv rows rowsPerIteration)) (.constant 1)
    (if rows % rowsPerIteration = 0 then buildTransfer row laneSegment
      else .ifLess row (.constant rows) (buildTransfer row laneSegment))

/-- The rows of a warp whose first lanes take one segment each. -/
def emitLaneSegments (rows segments warpGroups : ℕ) (warpId : Index) : Stmt :=
  let row := Index.add warpId (.mul (.inductionVar 0) (.constant warpGroups))
  .ifLess (.threadId .x) (.constant segments)
    (.scfFor 0 (.constant 0) (.constant (ceilDiv rows warpGroups)) (.constant 1)
      (if rows % warpGroups = 0 then buildTransfer row (.threadId .x)
        else .ifLess row (.constant rows) (buildTransfer row (.threadId .x))))

/-- The rows and segments in strides of all the warps and of 32 lanes. -/
def emitStrided (rows segments : ℕ) (staticBlockDims : Option Block) : Stmt :=
  let warpRow := Index.add (.threadId .y) (.mul (.threadId .z) (.blockDim .y))
  let ctaThread := Index.add (.threadId .x) (.mul warpRow (.blockDim .x))
  let ctaThreads := match staticBlockDims with
    | some block => Index.constant block.size
    | none => .mul (.mul (.blockDim .x) (.blockDim .y)) (.blockDim .z)
  .scfFor 0 (.div ctaThread (.constant 32)) (.constant rows) (.ceilDiv ctaThreads (.constant 32))
    (.scfFor 1 (.rem ctaThread (.constant 32)) (.constant segments) (.constant 32)
      (buildTransfer (.inductionVar 0) (.inductionVar 1)))

/-- `emitDistributedVectorCopy`, for a launch with this block size if it is static. -/
def emitDistributedVectorCopy (info : Rank2CopyLoopInfo) (staticBlockDims : Option Block) :
    Option Stmt :=
  let segments := info.cols / 8
  if info.rows = 0 ∨ segments = 0 then none
  else match staticBlockDims with
  | none => some (emitStrided info.rows segments none)
  | some block =>
    if block.x = 32 ∧ 0 < block.y ∧ 0 < block.z ∧ 32 ≤ block.size ∧ block.size % 32 = 0 ∧
        segments ≤ 32 then
      let warpGroups := block.y * block.z
      let warpId := Index.add (.threadId .y) (.mul (.threadId .z) (.constant block.y))
      if 32 % segments = 0 then some (emitWholeRows info.rows segments warpGroups warpId)
      else some (emitLaneSegments info.rows segments warpGroups warpId)
    else some (emitStrided info.rows segments (some block))

structure Thread where
  x : ℕ
  y : ℕ
  z : ℕ

def Block.threads (block : Block) : List Thread :=
  (List.range block.z).flatMap fun z => (List.range block.y).flatMap fun y =>
    (List.range block.x).map fun x => ⟨x, y, z⟩

section

variable (block : Block) (thread : Thread)

def Index.eval (vars : ℕ → ℕ) : Index → ℕ
  | .threadId .x => thread.x
  | .threadId .y => thread.y
  | .threadId .z => thread.z
  | .blockDim .x => block.x
  | .blockDim .y => block.y
  | .blockDim .z => block.z
  | .constant n => n
  | .inductionVar loop => vars loop
  | .add lhs rhs => lhs.eval vars + rhs.eval vars
  | .mul lhs rhs => lhs.eval vars * rhs.eval vars
  | .div lhs rhs => lhs.eval vars / rhs.eval vars
  | .rem lhs rhs => lhs.eval vars % rhs.eval vars
  | .ceilDiv lhs rhs => VectorCopy.ceilDiv (lhs.eval vars) (rhs.eval vars)

/-- The values of the induction variable of a loop. -/
def loopRange (lower upper step : ℕ) : List ℕ := (Loop.strides (upper - lower) step).map (lower + ·)

/-- The transfers of a thread in their order, by the row and the column of their first element. -/
def Stmt.transfers (vars : ℕ → ℕ) : Stmt → List (ℕ × ℕ)
  | .scfFor loop lower upper step body =>
    (loopRange (lower.eval block thread vars) (upper.eval block thread vars)
      (step.eval block thread vars)).flatMap fun i =>
        body.transfers fun l => if l = loop then i else vars l
  | .ifLess lhs rhs body =>
    if lhs.eval block thread vars < rhs.eval block thread vars then body.transfers vars else []
  | .transfer row column => [(row.eval block thread vars, column.eval block thread vars)]

end

/-- The transfers of all the threads of a block. -/
def blockTransfers (info : Rank2CopyLoopInfo) (block : Block) (isStatic : Bool) : List (ℕ × ℕ) :=
  match emitDistributedVectorCopy info (if isStatic then some block else none) with
  | some code => block.threads.flatMap fun thread => code.transfers block thread fun _ => 0
  | none => []

/-- The segments of a copy, by the row and the column of their first element. -/
def segmentGrid (info : Rank2CopyLoopInfo) : List (ℕ × ℕ) :=
  (List.range info.rows).flatMap fun row =>
    (List.range (info.cols / 8)).map fun segment => (row, segment * 8)

end Matcore.Gpu.VectorCopy
