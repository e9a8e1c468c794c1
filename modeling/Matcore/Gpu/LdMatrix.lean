import Mathlib

/-!
# The rewriting of operands to `nvgpu.ldmatrix`

`LdMatrixRewritePass` of `lowering_pipeline.cpp`: an operand of an MMA that is put together from
scalar loads is replaced by one load of the whole warp. A module is given by the operands of its
MMAs, and an execution by the times at which threads and warps do their loads.
-/

namespace Matcore.Gpu.LdMatrix

structure Thread where
  x : ℕ
  y : ℕ
  z : ℕ

structure BlockShape where
  x : ℕ
  y : ℕ
  z : ℕ

/-- The threads of a block are numbered along `x` first, and 32 of them are a warp. -/
def BlockShape.thread (block : BlockShape) (warp lane : ℕ) : Thread :=
  let id := warp * 32 + lane
  ⟨id % block.x, id / block.x % block.y, id / (block.x * block.y)⟩

/-- An MMA is done by warps that have all their lanes. -/
def BlockShape.Full (block : BlockShape) (warp : ℕ) : Prop :=
  (warp + 1) * 32 ≤ block.x * block.y * block.z

/-- The bits of an `f16`. -/
abbrev Half := BitVec 16

/-- An element of the workgroup memory or of another one. -/
abbrev Place := Bool × ℕ

/-- A memref. Threads may have different offsets. -/
structure View where
  workgroup : Bool
  offset : Thread → ℕ
  strides : List ℕ

def View.place (view : View) (thread : Thread) (indices : List ℕ) : Place :=
  (view.workgroup, view.offset thread + (List.zipWith (· * ·) indices view.strides).sum)

/-- `memref.load`, with the number of the operation. -/
structure Load where
  op : ℕ
  view : View
  indices : Thread → List ℕ

def Load.place (load : Load) (thread : Thread) : Place :=
  load.view.place thread (load.indices thread)

inductive Scalar where
  | load (load : Load)
  | other (value : Thread → Half)

inductive Vector where
  | splat (op : ℕ) (input : Scalar)
  /-- `vector.insert` of a scalar or of a vector, by its elements -/
  | insert (value : List ℕ → Scalar) (position : List ℕ) (dest : Vector)
  | other (elements : Thread → List ℕ → Half)

/-- The scalar that is an element of a vector. -/
def Vector.scalar : Vector → List ℕ → Scalar
  | .splat _ input, _ => input
  | .insert value position dest, key =>
    if position.isPrefixOf key then value (key.drop position.length) else dest.scalar key
  | .other elements, key => .other fun thread => elements thread key

structure Operand where
  shape : List ℕ
  f16 : Bool
  value : Vector

structure MmaSync where
  matrixA : ℕ
  matrixB : ℕ
  /-- `findThreadIdX` -/
  threadIdX : Option ℕ

structure Module where
  /-- `matcore.smem_padded` -/
  smemPadded : Bool
  operands : ℕ → Operand
  /-- in the order of the walk -/
  mmas : List MmaSync
  dominates : ℕ → ℕ → Bool

def traceSplat : Vector → Option (ℕ × Scalar)
  | .insert _ _ (.splat op input) => some (op, input)
  | .insert _ _ dest => traceSplat dest
  | _ => none

def getWorkgroupLoad : Scalar → Option Load
  | .load load => if load.view.workgroup then some load else none
  | .other _ => none

/-- The operation that is created, in front of the splat. -/
structure LdMatrixOp where
  isA : Bool
  threadIdX : ℕ
  splat : ℕ
  view : View

abbrev Cache := List (ℕ × LdMatrixOp)

def getOrCreateLdMatrix (module : Module) (operand : ℕ) (isA : Bool) (threadIdX : Option ℕ)
    (cache : Cache) : Option LdMatrixOp × Cache :=
  match cache.lookup operand with
  | some result => (some result, cache)
  | none =>
    match traceSplat (module.operands operand).value with
    | none => (none, cache)
    | some (splat, input) =>
      match getWorkgroupLoad input, threadIdX with
      | some load, some threadIdX =>
        let result := ⟨isA, threadIdX, splat, load.view⟩
        (some result, (operand, result) :: cache)
      | _, _ => (none, cache)

/-- The replacements so far, and the cache. -/
structure State where
  replaced : List (ℕ × LdMatrixOp) := []
  cache : Cache := []

/-- One operand of an MMA. -/
def State.rewrite (module : Module) (s : State) (operand : ℕ) (isA : Bool) (threadIdX : Option ℕ) :
    State :=
  match getOrCreateLdMatrix module operand isA threadIdX s.cache with
  | (some new, cache) => ⟨s.replaced ++ [(operand, new)], cache⟩
  | (none, cache) => ⟨s.replaced, cache⟩

/-- The operands that are replaced, in the order of the walk. -/
def runOnOperation (module : Module) : List (ℕ × LdMatrixOp) :=
  if module.smemPadded then
    (module.mmas.foldl (fun (s : State) mma =>
      (s.rewrite module mma.matrixA true mma.threadIdX).rewrite module mma.matrixB false
        mma.threadIdX) {}).replaced
  else []

namespace LdMatrixOp

variable (new : LdMatrixOp)

def numTiles : ℕ := if new.isA then 4 else 2

def transpose : Bool := !new.isA

/-- The indices that a thread computes. -/
def indices (thread : Thread) : List ℕ :=
  let laneId := thread.x % 32
  let row := laneId % 16
  if new.isA then [row, laneId / 16 * 8] else [row, 0]

/-- An element of a tile: the address of its row comes from a lane, and the row is contiguous. -/
def tilePlace (block : BlockShape) (warp tile row col : ℕ) : Place :=
  let thread := block.thread warp (tile * 8 + row)
  let place := new.view.place thread (new.indices thread)
  (place.1, place.2 + col)

/-- An element that a lane gets: two of each tile. -/
def place (block : BlockShape) (warp lane tile element : ℕ) : Place :=
  if new.transpose then new.tilePlace block warp tile (lane % 4 * 2 + element) (lane / 4)
  else new.tilePlace block warp tile (lane / 4) (lane % 4 * 2 + element)

/-- The operation is well formed where it stands. -/
def Verifies (module : Module) : Prop :=
  module.dominates new.threadIdX new.splat = true ∧ new.view.strides.length = 2

/-- It has the type of the operand. -/
def Fits (operand : Operand) : Prop :=
  operand.shape = [new.numTiles, 2] ∧ operand.f16 = true

end LdMatrixOp

/-- When a thread does an operation, when a warp does it, and what each step may write. -/
structure Execution where
  time : ℕ → Thread → ℕ
  warpTime : ℕ → ℕ → ℕ
  writes : ℕ → Set Place

/-- What the memory holds over time. -/
abbrev History := ℕ → Place → Half

/-- Only what a step writes may change with it. -/
def Execution.Possible (execution : Execution) (history : History) : Prop :=
  ∀ t a, a ∉ execution.writes t → history (t + 1) a = history t a

def Scalar.value (execution : Execution) (history : History) (thread : Thread) : Scalar → Half
  | .load source => history (execution.time source.op thread) (source.place thread)
  | .other value => value thread

/-- A register of the new operand is that of the old one. -/
def SameRegister (block : BlockShape) (execution : Execution) (history : History)
    (operand : Operand) (new : LdMatrixOp) (warp lane tile element : ℕ) : Prop :=
  history (execution.warpTime new.splat warp) (new.place block warp lane tile element) =
    (operand.value.scalar [tile, element]).value execution history (block.thread warp lane)

/-- The new operand is there, and every register of it holds what the old one holds. -/
def Preserves (module : Module) (block : BlockShape) (execution : Execution) (operand : Operand)
    (new : LdMatrixOp) : Prop :=
  new.Verifies module ∧ new.Fits operand ∧ ∀ history, execution.Possible history →
    ∀ warp, block.Full warp → ∀ lane < 32, ∀ tile < new.numTiles, ∀ element < 2,
      SameRegister block execution history operand new warp lane tile element

end Matcore.Gpu.LdMatrix
