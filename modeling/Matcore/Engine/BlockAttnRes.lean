import Matcore.Engine.GraphIR
import Matcore.Lib.MinusInfinity
import Matcore.Lib.Phases

/-!
# The block attention residual

`RegionMlirEmitter::emitBlockAttnRes`: its checks, and the kernel that it builds, as the code of the
threads of each block. Numbers are those of an ordered field, with minus infinity.
-/

namespace Matcore.Engine.BlockAttnRes

open Barriers MinusInfinity

variable {F : Type} [Field F] [LinearOrder F]

structure BlockAttnResAttrs (F : Type) where
  blocks : ℕ
  partialValue : ℕ
  query : ℕ
  blockCount : ℤ
  hasPartial : Bool
  eps : F

structure RegionIR where
  values : List TensorDesc
  inputValues : List ℕ

/-- What the kernel is built from. -/
structure Kernel (F : Type) where
  blocksArg : ℕ
  partialArg : ℕ
  queryArg : ℕ
  outArg : ℕ
  maxBlocks : ℕ
  batch : ℕ
  tokens : ℕ
  width : ℕ
  blockCount : ℕ
  hasPartial : Bool
  eps : F

def failBlockAttnRes {α : Type} (message : String) : Except String α :=
  .error ("RegionMlirEmitter: BlockAttnRes: " ++ message)

def requireValue (region : RegionIR) (id : ℕ) : Except String TensorDesc :=
  match region.values[id]? with
  | some desc => .ok desc
  | none => failBlockAttnRes "value id out of range"

def requireFloat32 (desc : TensorDesc) (name : String) : Except String Unit :=
  if desc.dtype = .float32 then .ok () else failBlockAttnRes (name ++ " must be float32 in v1")

def findInputArgIndex (region : RegionIR) (id : ℕ) : Option ℕ :=
  region.inputValues.findIdx? (· = id)

def emitBlockAttnRes (target : TargetKind) (region : Option RegionIR) (attrs : BlockAttnResAttrs F)
    (outputs : List ℕ) (tensorCount : ℕ) : Except String (Kernel F) := do
  if normalizeTarget target ≠ .nvidiaDGPU then
    failBlockAttnRes "v1 supports nvidia-dgpu targets only"
  else match region with
  | none => failBlockAttnRes "missing region_v1 IR"
  | some region =>
    if tensorCount ≠ region.inputValues.length + 1 then
      failBlockAttnRes "runtime tensor count must match inputs plus output"
    else
      let blocks ← requireValue region attrs.blocks
      let partialDesc ← requireValue region attrs.partialValue
      let query ← requireValue region attrs.query
      match outputs with
      | [] => failBlockAttnRes "missing output value"
      | output :: _ =>
        let out ← requireValue region output
        requireFloat32 blocks "blocks"
        requireFloat32 partialDesc "partial"
        requireFloat32 query "query"
        requireFloat32 out "output"
        match blocks.shape with
        | [maxBlocks, batch, tokens, width] =>
          if partialDesc.shape.length ≠ 3 ∨ query.shape.length ≠ 1 ∨ out.shape.length ≠ 3 then
            failBlockAttnRes "expected blocks rank-4, partial/output rank-3, query rank-1"
          else if maxBlocks = 0 ∨ 32 < maxBlocks then
            failBlockAttnRes "MAX_BLOCKS must be in [1, 32]"
          else if partialDesc.shape ≠ [batch, tokens, width] ∨ out.shape ≠ [batch, tokens, width] ∨
              query.shape ≠ [width] then
            failBlockAttnRes "shape mismatch for packed BlockAttnRes ABI"
          else if attrs.blockCount < 0 ∨ (maxBlocks : ℤ) < attrs.blockCount then
            failBlockAttnRes "block_count must be in [0, MAX_BLOCKS]"
          else if attrs.eps ≤ 0 then failBlockAttnRes "eps must be positive"
          else match findInputArgIndex region attrs.blocks,
              findInputArgIndex region attrs.partialValue, findInputArgIndex region attrs.query with
          | some blocksArg, some partialArg, some queryArg => do
            region.inputValues.forM fun id => do
              let _ ← requireValue region id
            return {
              blocksArg, partialArg, queryArg, outArg := region.inputValues.length, maxBlocks,
              batch, tokens, width, blockCount := attrs.blockCount.toNat,
              hasPartial := attrs.hasPartial, eps := attrs.eps }
          | _, _, _ => failBlockAttnRes "blocks, partial, and query must be region inputs"
        | _ => failBlockAttnRes "expected blocks rank-4, partial/output rank-3, query rank-1"

def blockDim : ℕ := 128

/-- An element of an argument, or one of the workgroup memory of a block. -/
inductive Place where
  | argument (index : ℕ) (element : List ℕ)
  | score (block slot : ℕ)
  | invRms (block slot : ℕ)
  | scratch (block lane : ℕ)
  deriving DecidableEq

def Place.isArgument : Place → Bool
  | argument _ _ => true
  | _ => false

abbrev ThreadCode (F α : Type) := Code Place (Number F) α

/-- The code of the threads of a block between two barriers. -/
abbrev Phase (F : Type) := Fin blockDim → ThreadCode F Unit

namespace Kernel

variable (kernel : Kernel F) (rsqrt exp : F → F) (row : ℕ)

def activeSources : ℕ := kernel.blockCount + if kernel.hasPartial then 1 else 0

def bIdx : ℕ := row / kernel.tokens

def tIdx : ℕ := row % kernel.tokens

def emitSourceLoadByConst (source col : ℕ) : ThreadCode F (Number F) :=
  if kernel.hasPartial ∧ source = kernel.blockCount then
    load (.argument kernel.partialArg [kernel.bIdx row, kernel.tIdx row, col])
  else load (.argument kernel.blocksArg [source, kernel.bIdx row, kernel.tIdx row, col])

def emitSourceLoadByIndex (source col : ℕ) : ThreadCode F (Number F) :=
  if !kernel.hasPartial then
    load (.argument kernel.blocksArg [source, kernel.bIdx row, kernel.tIdx row, col])
  else if source = kernel.blockCount then
    load (.argument kernel.partialArg [kernel.bIdx row, kernel.tIdx row, col])
  else load (.argument kernel.blocksArg [source, kernel.bIdx row, kernel.tIdx row, col])

/-- One step of the tree. -/
def emitReduceStep (stride : ℕ) : Phase F := fun tid =>
  if tid < stride then do
    let lhs ← load (.scratch row tid)
    let rhs ← load (.scratch row (tid + stride))
    store (.scratch row tid) (lhs.add rhs)
  else pure ()

/-- `block_dim / 2` and its halves, down to one. -/
def halves : ℕ → List ℕ
  | 0 => []
  | stride + 1 => (stride + 1) :: halves ((stride + 1) / 2)
  decreasing_by omega

def emitScratchSumReduction : List (Phase F) :=
  (halves (blockDim / 2)).map (emitReduceStep row)

/-- What a column adds to the sum of a thread. -/
def emitTerm (source : ℕ) (dotProduct : Bool) (col : ℕ) : ThreadCode F (Number F) := do
  let val ← kernel.emitSourceLoadByConst row source col
  if dotProduct then
    let invRms ← load (.invRms row source)
    let q ← load (.argument kernel.queryArg [col])
    pure ((val.mul invRms).mul q)
  else pure (val.mul val)

def emitSourceThreadSum (source : ℕ) (dotProduct : Bool) (tid : Fin blockDim) :
    ThreadCode F (Number F) :=
  fold (fun acc col => do
    let term ← kernel.emitTerm row source dotProduct col
    pure (acc.add term)) (share kernel.width tid) (.finite 0)

def storeThreadSum (source : ℕ) (dotProduct : Bool) : Phase F := fun tid => do
  let sum ← kernel.emitSourceThreadSum row source dotProduct tid
  store (.scratch row tid) sum

def emitTidZero (body : ThreadCode F Unit) : Phase F := fun tid =>
  if tid.val = 0 then body else pure ()

def storeInvRms (source : ℕ) : ThreadCode F Unit := do
  let sumsq ← load (.scratch row 0)
  let mean := sumsq.mul (.finite (1 / kernel.width))
  store (.invRms row source) ((mean.add (.finite kernel.eps)).map rsqrt)

def storeScore (source : ℕ) : ThreadCode F Unit := do
  let dot ← load (.scratch row 0)
  store (.score row source) dot

def emitSource (source : ℕ) : List (Phase F) :=
  [kernel.storeThreadSum row source false] ++ emitScratchSumReduction row ++
    [emitTidZero (kernel.storeInvRms rsqrt row source), kernel.storeThreadSum row source true] ++
    emitScratchSumReduction row ++ [emitTidZero (storeScore row source)]

def sources : List ℕ := List.range kernel.activeSources

def emitMax : ThreadCode F (Number F) :=
  fold (fun current source => do
    let score ← load (.score row source)
    pure (current.maximum score)) kernel.sources .negInf

def emitDenom (max : Number F) : ThreadCode F (Number F) :=
  fold (fun denom source => do
    let score ← load (.score row source)
    pure (denom.add ((score.sub max).exp exp))) kernel.sources (.finite 0)

def emitAccum (max denom : Number F) (col : ℕ) : ThreadCode F (Number F) :=
  fold (fun acc source => do
    let score ← load (.score row source)
    let weight := ((score.sub max).exp exp).div denom
    let val ← kernel.emitSourceLoadByIndex row source col
    pure (acc.add (weight.mul val))) kernel.sources (.finite 0)

def outPlace (col : ℕ) : Place :=
  .argument kernel.outArg [kernel.bIdx row, kernel.tIdx row, col]

/-- One column of the output. -/
def emitColumn (col : ℕ) : ThreadCode F Unit :=
  if kernel.activeSources = 0 then store (kernel.outPlace row col) (.finite 0)
  else do
    let max ← kernel.emitMax row
    let denom ← kernel.emitDenom exp row max
    let sum ← kernel.emitAccum exp row max denom col
    store (kernel.outPlace row col) sum

/-- The code of the threads of a block. The barrier of the last source stands before another one. -/
def phases : List (Phase F) :=
  kernel.sources.flatMap (kernel.emitSource rsqrt row) ++ [fun _ => pure ()] ++
    [fun tid => each (kernel.emitColumn exp row) (share kernel.width tid)]

def rows : ℕ := kernel.batch * kernel.tokens

/-- The elements of the output. -/
def elements : List Place :=
  (List.range kernel.batch).flatMap fun b => (List.range kernel.tokens).flatMap fun t =>
    (List.range kernel.width).map fun d => .argument kernel.outArg [b, t, d]

/-- The grid, with a block for each row. -/
def launch : Fin kernel.rows → Block blockDim Place (Number F) := fun row =>
  ⟨kernel.phases rsqrt exp row, fun _ => pure (), [], []⟩

end Kernel

end Matcore.Engine.BlockAttnRes
