import Matcore.Engine.FusionPlan
import Matcore.Lib.MinusInfinity
import Matcore.Lib.Phases

/-!
# The fused attention kernel

`FusionMlirEmitter::emitFamilyC`: its checks, and the kernel that it builds, as the code of the
threads of each block. Numbers are those of an ordered field, with minus infinity, so the
conversions between element types do nothing.
-/

namespace Matcore.Engine.FamilyC

open Barriers MinusInfinity
open List (range)

/-- A graph, with the softmax nodes that are causal. -/
structure FusionGraph extends KernelGraphIR where
  causal : List ℕ

/-- What the kernel is built from. -/
structure Kernel where
  qArg : ℕ
  kArg : ℕ
  vArg : ℕ
  outArg : ℕ
  q : OperandRef
  k : OperandRef
  v : OperandRef
  m : ℕ
  n : ℕ
  dh : ℕ
  d : ℕ
  tile : TileShape

/-- The nodes of a plan that the kernel is made of. -/
structure Found where
  score : Option ℕ := none
  softmax : Option ℕ := none
  output : Option ℕ := none

def Found.add (found : Found) (id : ℕ) (node : KernelNode) : Found :=
  match node.kind with
  | .matmul =>
    if found.score = none then { found with score := some id } else { found with output := some id }
  | .softmax => { found with softmax := some id }
  | _ => found

def findNodes (graph : KernelGraphIR) (ids : List ℕ) : Except String Found :=
  ids.foldlM (fun found id => do
    let node ← atIndex graph.nodes id
    return found.add id node) {}

def softmaxAttrs (node : KernelNode) : Except String (ℕ × ℤ) :=
  match node.attrs with
  | .softmax input axis => .ok (input, axis)
  | _ => .error "std::get: wrong index for variant"

/-- The extents of a tensor of rank two. -/
def rank2 (shape : List ℕ) (message : String) : Except String (ℕ × ℕ) :=
  match shape with
  | [rows, cols] => .ok (rows, cols)
  | _ => failFusion message

def emitFamilyC (graph : Option FusionGraph) (plan : FusedKernelPlan) (tensorCount : ℕ) :
    Except String Kernel := do
  match graph with
  | none => failFusion "missing graph for fused kernel"
  | some graph =>
    requireThat (tensorCount = 0 ∨ tensorCount = graph.inputValues.length + 1)
      "Family C runtime tensor count does not match graph inputs"
    let found ← findNodes graph.toKernelGraphIR plan.nodeIds
    match found.score, found.softmax, found.output with
    | some scoreId, some softmaxId, some outputId =>
      let scoreNode ← atIndex graph.nodes scoreId
      let softmaxNode ← atIndex graph.nodes softmaxId
      let outputNode ← atIndex graph.nodes outputId
      let score ← scoreNode.matmulAttrs
      let softmax ← softmaxAttrs softmaxNode
      let output ← outputNode.matmulAttrs
      let qDesc ← atIndex graph.values score.1.valueId
      let kDesc ← atIndex graph.values score.2.valueId
      let vDesc ← atIndex graph.values output.2.valueId
      let outId ← plan.outValueId outputNode
      let outDesc ← atIndex graph.values outId
      let rankMessage := "Family C currently requires rank-2 tensors"
      let qShape ← rank2 qDesc.shape rankMessage
      let kShape ← rank2 kDesc.shape rankMessage
      let vShape ← rank2 vDesc.shape rankMessage
      let outShape ← rank2 outDesc.shape rankMessage
      let scoreValue ← scoreNode.front
      let softmaxValue ← softmaxNode.front
      requireThat (softmax.1 = scoreValue ∧ output.1.valueId = softmaxValue)
        "Family C must be score matmul -> softmax -> output matmul"
      requireThat (output.1.transposeLast2 = false)
        "Family C does not support transposed softmax lhs"
      requireThat (softmaxId ∉ graph.causal) "Family C causal softmax is not implemented"
      requireThat (softmax.2 = -1 ∨ softmax.2 = 1)
        "Family C only supports last-dimension softmax"
      let qExtents := score.1.extents qShape.1 qShape.2
      let m := qExtents.1
      let dh := qExtents.2
      let kExtents := score.2.extents kShape.1 kShape.2
      let n := kExtents.2
      requireThat (dh = kExtents.1) "Family C score matmul inner dimensions mismatch"
      let softmaxDesc ← atIndex graph.values softmax.1
      let softmaxM ← atIndex softmaxDesc.shape 0
      let softmaxN ← atIndex softmaxDesc.shape 1
      requireThat (softmaxM = m ∧ softmaxN = n) "Family C softmax shape mismatch"
      let lhsDesc ← atIndex graph.values output.1.valueId
      let pmM ← atIndex lhsDesc.shape 0
      let pmK ← atIndex lhsDesc.shape 1
      let vExtents := output.2.extents vShape.1 vShape.2
      let d := vExtents.2
      requireThat (pmM = m ∧ pmK = n ∧ vExtents.1 = n) "Family C output matmul dimensions mismatch"
      requireThat (outShape = (m, d)) "Family C output shape must match attention result"
      graph.inputValues.forM fun id => do
        let desc ← atIndex graph.values id
        requireThat (desc.shape.length = 2) "Family C currently requires rank-2 graph inputs"
      match graph.findInputArgIndex score.1.valueId, graph.findInputArgIndex score.2.valueId,
          graph.findInputArgIndex output.2.valueId with
      | some qArg, some kArg, some vArg =>
        return {
          qArg, kArg, vArg, outArg := graph.inputValues.length, q := score.1, k := score.2,
          v := output.2, m, n, dh, d, tile := plan.tile }
      | _, _, _ => failFusion "Family C Q/K/V operands must be graph inputs"
    | _, _, _ => failFusion "Family C requires matmul -> softmax -> matmul"

/-- An element of an argument, or one of the workgroup memory of a block. -/
inductive Place where
  | argument (index : ℕ) (element : List ℕ)
  | accum (block row col : ℕ)
  | score (block row offset : ℕ)
  | rowM (block row : ℕ)
  | rowL (block row : ℕ)
  | rowScale (block row : ℕ)
  deriving DecidableEq

def Place.isArgument : Place → Bool
  | argument _ _ => true
  | _ => false

abbrev ThreadCode (F α : Type) := Code Place (Number F) α

/-- A size of the tile, or what stands for it where it is not positive. -/
def orDefault (size : ℤ) (default : ℕ) : ℕ := if 0 < size then size.toNat else default

namespace Kernel

variable {F : Type} [Field F] [LinearOrder F] (kernel : Kernel) (e : F → F) (block : ℕ)

def br : ℕ := orDefault kernel.tile.br 32

def bc : ℕ := orDefault kernel.tile.bc 32

def dtile : ℕ := max 1 (min (max (orDefault kernel.tile.d 64) 64) kernel.d)

def blockDim : ℕ := orDefault kernel.tile.threadsPerBlock 128

def gridM : ℕ := (kernel.m + kernel.br - 1) / kernel.br

def gridD : ℕ := (kernel.d + kernel.dtile - 1) / kernel.dtile

/-- The blocks are numbered along the rows first. -/
def rowBase : ℕ := block % kernel.gridM * kernel.br

def colBase : ℕ := block / kernel.gridM * kernel.dtile

def totalAccum : ℕ := kernel.br * kernel.dtile

def totalScore : ℕ := kernel.br * kernel.bc

/-- The code of the threads of a block between two barriers. -/
abbrev Phase (F : Type) := Fin kernel.blockDim → ThreadCode F Unit

def emitScoreDot (globalRow keyRow : ℕ) : ThreadCode F (Number F) :=
  fold (fun acc kk => do
    let qVal ← load (.argument kernel.qArg (kernel.q.element globalRow kk))
    let kVal ← load (.argument kernel.kArg (kernel.k.element kk keyRow))
    pure (acc.add (qVal.mul kVal))) (range kernel.dh) (.finite 0)

/-- The body of `init_loop`. -/
def initAccum (elemIdx : ℕ) : ThreadCode F Unit :=
  store (.accum block (elemIdx / kernel.dtile) (elemIdx % kernel.dtile)) (.finite 0)

/-- The body of `row_state_init_loop`. -/
def initRow (localRow : ℕ) : ThreadCode F Unit := do
  store (.rowM block localRow) .negInf
  store (.rowL block localRow) (.finite 0)
  store (.rowScale block localRow) (.finite 0)

def init : kernel.Phase F := fun tid => do
  each (kernel.initAccum block) (share kernel.totalAccum tid)
  each (initRow block) (share kernel.br tid)

/-- The body of `score_loop`. -/
def scoreBody (chunkBase scoreIdx : ℕ) : ThreadCode F Unit :=
  let localRow := scoreIdx / kernel.bc
  let chunkOffset := scoreIdx % kernel.bc
  let globalRow := kernel.rowBase block + localRow
  let keyRow := chunkBase + chunkOffset
  if globalRow < kernel.m ∧ keyRow < kernel.n then do
    let score ← kernel.emitScoreDot globalRow keyRow
    store (.score block localRow chunkOffset) score
  else store (.score block localRow chunkOffset) .negInf

def chunkMax (localRow : ℕ) : ThreadCode F (Number F) :=
  fold (fun currentMax chunkOffset => do
    let score ← load (.score block localRow chunkOffset)
    pure (currentMax.maximum score)) (range kernel.bc) .negInf

def weightSum (localRow : ℕ) (mNew lScaled : Number F) : ThreadCode F (Number F) :=
  fold (fun lAcc chunkOffset => do
    let score ← load (.score block localRow chunkOffset)
    let weight := (score.sub mNew).exp e
    store (.score block localRow chunkOffset) weight
    pure (lAcc.add weight)) (range kernel.bc) lScaled

/-- What `row_reduce_loop` does with a row of the output. -/
def reduceRow (localRow : ℕ) : ThreadCode F Unit := do
  let chunkMax ← kernel.chunkMax block localRow
  let mPrev ← load (.rowM block localRow)
  let mNew := mPrev.maximum chunkMax
  let correction := (mPrev.sub mNew).exp e
  let lPrev ← load (.rowL block localRow)
  let lNew ← kernel.weightSum e block localRow mNew (correction.mul lPrev)
  store (.rowM block localRow) mNew
  store (.rowL block localRow) lNew
  store (.rowScale block localRow) correction

/-- The body of `row_reduce_loop`. -/
def reduceBody (localRow : ℕ) : ThreadCode F Unit :=
  if kernel.rowBase block + localRow < kernel.m then kernel.reduceRow e block localRow else pure ()

/-- What `accum_loop` adds up for an element. -/
def accumElement (chunkBase elemIdx : ℕ) : ThreadCode F (Number F) := do
  let localRow := elemIdx / kernel.dtile
  let localCol := elemIdx % kernel.dtile
  let prev ← load (.accum block localRow localCol)
  let correction ← load (.rowScale block localRow)
  fold (fun acc chunkOffset => do
    let keyRow := chunkBase + chunkOffset
    if keyRow < kernel.n then do
      let weight ← load (.score block localRow chunkOffset)
      let vVal ← load (.argument kernel.vArg
        (kernel.v.element keyRow (kernel.colBase block + localCol)))
      pure (acc.add (weight.mul vVal))
    else pure acc) (range kernel.bc) (correction.mul prev)

/-- Elements of the tile that are elements of the output. -/
def ElemValid (elemIdx : ℕ) : Prop :=
  kernel.rowBase block + elemIdx / kernel.dtile < kernel.m ∧
    kernel.colBase block + elemIdx % kernel.dtile < kernel.d

instance (elemIdx : ℕ) : Decidable (kernel.ElemValid block elemIdx) :=
  inferInstanceAs (Decidable (_ ∧ _))

/-- The body of `accum_loop`. -/
def accumBody (chunkBase elemIdx : ℕ) : ThreadCode F Unit :=
  if kernel.ElemValid block elemIdx then do
    let sum ← kernel.accumElement block chunkBase elemIdx
    store (.accum block (elemIdx / kernel.dtile) (elemIdx % kernel.dtile)) sum
  else pure ()

def normalized (elemIdx : ℕ) : ThreadCode F (Number F) := do
  let acc ← load (.accum block (elemIdx / kernel.dtile) (elemIdx % kernel.dtile))
  let finalL ← load (.rowL block (elemIdx / kernel.dtile))
  pure (acc.div finalL)

/-- Where an element of the tile goes. -/
def outPlace (elemIdx : ℕ) : Place :=
  .argument kernel.outArg
    [kernel.rowBase block + elemIdx / kernel.dtile, kernel.colBase block + elemIdx % kernel.dtile]

/-- The body of `store_loop`. -/
def storeBody (elemIdx : ℕ) : ThreadCode F Unit :=
  if kernel.ElemValid block elemIdx then do
    let value ← kernel.normalized block elemIdx
    store (kernel.outPlace block elemIdx) value
  else pure ()

/-- The body of `kchunk_loop`. -/
def chunk (chunkBase : ℕ) : List (kernel.Phase F) :=
  [fun tid => each (kernel.scoreBody block chunkBase) (share kernel.totalScore tid),
    fun tid => each (kernel.reduceBody e block) (share kernel.br tid),
    fun tid => each (kernel.accumBody block chunkBase) (share kernel.totalAccum tid)]

/-- The code of the threads of a block. -/
def phases : List (kernel.Phase F) :=
  [kernel.init block] ++ (Loop.strides kernel.n kernel.bc).flatMap (kernel.chunk e block) ++
    [fun tid => each (kernel.storeBody block) (share kernel.totalAccum tid)]

/-- The elements of the output. -/
def elements : List Place :=
  (range kernel.m).flatMap fun i =>
    (range kernel.d).map fun j => .argument kernel.outArg [i, j]

/-- The grid. -/
def launch : Fin (kernel.gridM * kernel.gridD) → Block kernel.blockDim Place (Number F) :=
  fun block => ⟨kernel.phases e block, fun _ => pure (), [], []⟩

end Kernel

end Matcore.Engine.FamilyC
