import Matcore.Engine.Kernel
import Matcore.Gpu.SplitK

/-!
# The mapping to blocks and threads

`gpu_mapping.cpp`: the tiles of a product, and the parallel loops that become the blocks of a launch
and the threads of a block. The sizes of a product do not overflow; the indices of loops wrap.
-/

namespace Matcore.Gpu.Mapping

open Engine (Signature)
open SplitK (pickTilingFactor ceilDiv)

structure NvidiaMappingConfig extends SplitK.NvidiaMappingConfig where
  blockTileM := 128
  blockTileN := 128
  threadTileM : ℕ := 16
  threadTileN : ℕ := 8
  blockThreadsX : ℕ := 16
  blockThreadsY : ℕ := 8
  blockThreadsZ : ℕ := 1
  kTile := 16
  mmaMicroK : ℕ := 0
  rewriteToMmaSync : Bool := false
  numWarps : ℕ := 1
  warpTileM : ℕ := 0
  warpTileN : ℕ := 0
  useVectorizePath : Bool := false
  splitKFactor : ℕ := 1
  smCount : ℕ := 24

def isTensorCoreMmaSyncType (signature : Signature) : Bool :=
  signature.lhsDtype = .float16 && signature.rhsDtype = .float16 && signature.outDtype = .float16

/-- A dimension of an operand with two of them. A dynamic one is treated like one of size 0. -/
def dimSize (type : Option (List (Option ℕ))) (dim : ℕ) : ℕ :=
  match type with
  | some [first, second] => (if dim = 0 then first else second).getD 0
  | _ => 0

def staticallyCompatibleMma (m n k : ℕ) (signature : Signature) : Bool :=
  16 ≤ m && 8 ≤ n && 16 ≤ k && m % 16 = 0 && n % 8 = 0 && k % 16 = 0 &&
    isTensorCoreMmaSyncType signature

def kSmCount : ℕ := 24

/-- Warps side by side over a square tile. -/
def multiWarp (tile warps threadsX threadsY m n k : ℕ) : NvidiaMappingConfig :=
  let config : NvidiaMappingConfig := {
    blockTileM := tile
    blockTileN := tile
    rewriteToMmaSync := true
    numWarps := warps
    warpTileM := 32
    warpTileN := 32
    kTile := pickTilingFactor k 32
    mmaMicroK := 16
    blockThreadsX := threadsX
    blockThreadsY := threadsY
    blockThreadsZ := 1
    threadTileM := 16
    threadTileN := 8
    smCount := kSmCount }
  { config with
    splitKFactor := SplitK.computeSplitKFactor config.toNvidiaMappingConfig m n k kSmCount }

/-- The first of the candidates that fills the grid. -/
def singleWarpTiles (m n : ℕ) : ℕ × ℕ :=
  let tiles := [(64, 64), (32, 32)].map fun c => (pickTilingFactor m c.1, pickTilingFactor n c.2)
  (tiles.find? fun (tm, tn) => 16 ≤ tm && 8 ≤ tn && 100 ≤ m / tm * (n / tn)).getD (16, 8)

def singleWarp (m n k : ℕ) : NvidiaMappingConfig :=
  let tiles := singleWarpTiles m n
  let needsSubtiling := 16 < tiles.1 || 8 < tiles.2
  { blockTileM := tiles.1
    blockTileN := tiles.2
    rewriteToMmaSync := true
    threadTileM := 16
    threadTileN := 8
    blockThreadsX := 32
    blockThreadsY := 1
    blockThreadsZ := 1
    kTile := if needsSubtiling then pickTilingFactor k 32 else 16
    mmaMicroK := if needsSubtiling then 16 else 0 }

def scalar (m n k : ℕ) (signature : Signature) : NvidiaMappingConfig :=
  let blockTileM := pickTilingFactor m 128
  let blockTileN := pickTilingFactor n 128
  let threadTileM := max 1 (pickTilingFactor blockTileM 16)
  let threadTileN := max 1 (pickTilingFactor blockTileN 8)
  { blockTileM
    blockTileN
    kTile := pickTilingFactor k (if signature.quantizedI8 then 32 else 16)
    threadTileM
    threadTileN
    blockThreadsY := max 1 (ceilDiv blockTileM threadTileM)
    blockThreadsX := max 1 (ceilDiv blockTileN threadTileN) }

/-- Of the inputs of an operation the shapes are read, where they have a rank. -/
def SelectNvidiaMappingConfig (inputs : List (Option (List (Option ℕ)))) (signature : Signature) :
    NvidiaMappingConfig :=
  let m := dimSize inputs[0]?.join 0
  let k := dimSize inputs[0]?.join 1
  let n := dimSize inputs[1]?.join 1
  let fills (tile grid : ℕ) : Bool :=
    tile ≤ m && tile ≤ n && m % tile = 0 && n % tile = 0 && grid ≤ m / tile * (n / tile)
  if staticallyCompatibleMma m n k signature then
    if fills 128 kSmCount then multiWarp 128 16 128 4 m n k
    else if fills 64 4 then multiWarp 64 4 64 2 m n k
    else singleWarp m n k
  else scalar m n k signature

abbrev Index := BitVec 64

/-- What a value is when the program runs, and whether a constant gives it. -/
structure IndexValue where
  value : Index
  isConstant : Bool

structure LoopDim where
  lower : IndexValue
  upper : IndexValue
  step : IndexValue
  step_pos : 0 < step.value.toInt

inductive MappingAttr where
  | block (mappingId : ℕ)
  | thread (mappingId : ℕ)
  | other

/-- Bounds and steps are as many as the rank. -/
structure ForallOp where
  hasOutputs : Bool
  rank : ℕ
  dims : Fin rank → LoopDim
  mapping : Option (List MappingAttr)

def isBlockMappedForall (loop : ForallOp) : Bool :=
  loop.mapping.getD [] ≠ [] && (loop.mapping.getD []).all fun attr => match attr with
    | .block _ => true
    | _ => false

def isThreadMappedForall (loop : ForallOp) : Bool :=
  loop.mapping.getD [] ≠ [] && (loop.mapping.getD []).all fun attr => match attr with
    | .thread _ => true
    | _ => false

/-- `getRelativeIndex`, where it is x, y or z. The linear ids stand behind these three. -/
def relativeIndex (attr : MappingAttr) : Option (Fin 3) :=
  match attr with
  | .block mappingId | .thread mappingId =>
    let index := if mappingId < 3 then mappingId else mappingId - 3
    if h : index < 3 then some ⟨index, h⟩ else none
  | .other => none

/-- The axis that a dimension is mapped to. -/
def ForallOp.mappedAxis (loop : ForallOp) (d : Fin loop.rank) : Option (Fin 3) :=
  ((loop.mapping.getD [])[d.val]?).bind relativeIndex

def ForallOp.axis (loop : ForallOp) (d : Fin loop.rank) : Fin 3 := (loop.mappedAxis d).getD 0

/-- `arith.ceildivui` -/
def buildCeilDivIndex (lhs rhs : Index) : Index := if lhs = 0 then 0 else (lhs - 1) / rhs + 1

def LoopDim.tripCount (d : LoopDim) : Index :=
  buildCeilDivIndex (d.upper.value - d.lower.value) d.step.value

/-- A body whose indices are computed from the ids along the axes. An id is below the size of its
axis, and below the trip count of each dimension that is checked. -/
structure LoweredLoop (rank : ℕ) where
  dims : Fin rank → LoopDim
  axis : Fin rank → Fin 3
  size : Fin 3 → Index
  checked : Fin rank → Bool

def LoweredLoop.Runs {rank : ℕ} (l : LoweredLoop rank) (id : Fin 3 → Index) : Prop :=
  (∀ r, id r < l.size r) ∧ ∀ d, l.checked d = true → id (l.axis d) < (l.dims d).tripCount

def LoweredLoop.index {rank : ℕ} (l : LoweredLoop rank) (id : Fin 3 → Index) :
    Fin rank → Index :=
  fun d => (l.dims d).lower.value + id (l.axis d) * (l.dims d).step.value

/-- What both lowerings check, with the texts of each. -/
def lowerForall (loop : ForallOp) (mapped : Bool) (outputs bounds unsupported : String)
    (lowered : LoweredLoop loop.rank) : Except String (Option (LoweredLoop loop.rank)) :=
  if !mapped then .ok none
  else if loop.hasOutputs then .error outputs
  else if (loop.mapping.getD []).length ≠ loop.rank then .error bounds
  else if ∀ d, (loop.mappedAxis d).isSome then .ok (some lowered)
  else .error unsupported

/-- The sizes of the grid: a later dimension of the same axis replaces an earlier one. -/
def gridSize {rank : ℕ} (dims : Fin rank → LoopDim) (axis : Fin rank → Fin 3) : Fin 3 → Index :=
  (List.finRange rank).foldl (fun size d => Function.update size (axis d) (dims d).tripCount)
    fun _ => 1

/-- The launch of a loop: one block for every tuple of ids of the grid. -/
def LoweredLoop.blocks {rank : ℕ} (dims : Fin rank → LoopDim) (axis : Fin rank → Fin 3) :
    LoweredLoop rank :=
  ⟨dims, axis, gridSize dims axis, fun _ => false⟩

def lowerForallToLaunch (loop : ForallOp) : Except String (Option (LoweredLoop loop.rank)) :=
  lowerForall loop (isBlockMappedForall loop)
    "MatCore dynamic macro topology requires scf.forall without outputs"
    "MatCore dynamic macro topology found invalid scf.forall bounds"
    "MatCore encountered unsupported gpu.block mapping dimension"
    (.blocks loop.dims loop.axis)

/-- `ceilDiv`, of constants whose difference does not overflow. -/
def constantTripCount (d : LoopDim) : ℤ :=
  let lhs := d.upper.value.toInt - d.lower.value.toInt
  let rhs := d.step.value.toInt
  if rhs ≤ 0 ∨ lhs ≤ 0 then 1 else (lhs + rhs - 1) / rhs

def fullyCovered (blockSize : IndexValue) (d : LoopDim) : Bool :=
  d.lower.isConstant && d.upper.isConstant && d.step.isConstant && blockSize.isConstant &&
    constantTripCount d = blockSize.value.toInt

structure BlockSize where
  along : Fin 3 → IndexValue
  pos : ∀ r, 0 < (along r).value.toInt

def warps : BlockSize := ⟨fun r => ⟨if r = 0 then 128 else 1, true⟩, by decide⟩

/-- The predicated region in the threads of a block. -/
def LoweredLoop.threads {rank : ℕ} (block : BlockSize) (dims : Fin rank → LoopDim)
    (axis : Fin rank → Fin 3) : LoweredLoop rank :=
  ⟨dims, axis, fun r => (block.along r).value,
    fun d => !fullyCovered (block.along (axis d)) (dims d)⟩

def lowerThreadForallToPredicatedRegion (block : BlockSize) (loop : ForallOp) :
    Except String (Option (LoweredLoop loop.rank)) :=
  lowerForall loop (isThreadMappedForall loop)
    "MatCore warp CTA lowering requires scf.forall without outputs"
    "MatCore warp CTA lowering found invalid scf.forall bounds"
    "MatCore encountered unsupported gpu.thread mapping id"
    (.threads block loop.dims loop.axis)

def LoopDim.InRange (d : LoopDim) (index : Index) : Prop :=
  ∃ k : ℕ, index.toInt = d.lower.value.toInt + k * d.step.value.toInt ∧
    index.toInt < d.upper.value.toInt

/-- Each iteration of the loop is executed under one tuple of ids, and no other index is. -/
def LoweredLoop.Preserves {rank : ℕ} (l : LoweredLoop rank) : Prop :=
  (∀ index, (∀ d, (l.dims d).InRange (index d)) → ∃! id, l.Runs id ∧ l.index id = index) ∧
    ∀ id, l.Runs id → ∀ d, (l.dims d).InRange (l.index id d)

end Matcore.Gpu.Mapping
