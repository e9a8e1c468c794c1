import Matcore.Engine.FusionPlan
import Matcore.Lib.Phases

/-!
# The fused kernel of two products

`FusionMlirEmitter::Emit` for plans of the pattern `kMatmulElementwiseMatmul`: the checks of
`validateFusionPlanAgainstEmitter` and of `emitFamilyB`, and the kernel that is built, as the code
of the threads of each block. Elements are those of any arithmetic, and conversions between their
types do nothing.
-/

namespace Matcore.Engine.FamilyB

open Barriers

def elementwiseAttrs (node : KernelNode) : Except String (ElementwiseKind × List ℕ) :=
  match node.attrs with
  | .elementwise kind inputs => .ok (kind, inputs)
  | _ => .error "std::get: wrong index for variant"

def requireSingleOutput (node : KernelNode) : Except String ℕ :=
  match node.outputs with
  | [output] => .ok output
  | _ => failFusion "Family B: nodes must produce exactly one output"

/-- The nodes of a kind in a plan. -/
def nodesOfKind (graph : KernelGraphIR) (kind : OpKind) (ids : List ℕ) : List ℕ :=
  ids.filter fun id => (graph.nodes[id]?).map (·.kind) = some kind

/-- One node of the chain, from the running value to the next one. -/
def validateGlue (graph : KernelGraphIR) (first second current id : ℕ) : Except String ℕ :=
  if id = first ∨ id = second then .ok current
  else do
    let glue ← atIndex graph.nodes id
    let attrs ← elementwiseAttrs glue
    requireThat (attrs.2 ≠ [] ∧ attrs.2.length ≤ 2) "Family B glue nodes must be unary or binary"
    requireThat (current ∈ attrs.2) "Family B glue chain must consume the fused value"
    requireSingleOutput glue

def validateFamilyB (graph : KernelGraphIR) (plan : FusedKernelPlan) (target : TargetKind) :
    Except String Unit := do
  requireThat (normalizeTarget target = .nvidiaDGPU)
    "fused graph lowering currently supports only nvidia-dgpu"
  requireThat (plan.nodeIds ≠ []) "empty fusion plan"
  plan.nodeIds.forM fun id => do
    let node ← atIndex graph.nodes id
    requireThat (node.kind = .matmul ∨ node.kind = .softmax ∨ node.kind = .elementwise)
      "fusion emitter currently supports only matmul, elementwise, and Family C softmax nodes"
  match nodesOfKind graph .matmul plan.nodeIds, nodesOfKind graph .softmax plan.nodeIds with
  | [first, second], [] =>
    let mm0 ← atIndex graph.nodes first
    let mm1 ← atIndex graph.nodes second
    let attrs0 ← mm0.matmulAttrs
    let attrs1 ← mm1.matmulAttrs
    requireThat (attrs0.1.valueId ∈ graph.inputValues ∧ attrs0.2.valueId ∈ graph.inputValues ∧
      attrs1.2.valueId ∈ graph.inputValues)
      "Family B boundary matmul operands must be graph inputs"
    requireThat (attrs1.1.transposeLast2 = false)
      "Family B does not support transposed intermediate lhs"
    let start ← requireSingleOutput mm0
    let current ← plan.nodeIds.foldlM (validateGlue graph first second) start
    requireThat (current = attrs1.1.valueId) "Family B glue chain must feed the second matmul lhs"
  | _, _ => failFusion "Family B requires matmul, elementwise glue, matmul"

/-- What is done to the running value by a node, and the argument of its other operand. -/
structure GlueSpec where
  kind : ElementwiseKind
  boundaryArg : Option ℕ
  valueInputPos : ℕ

/-- What the kernel is built from. -/
structure Kernel where
  aArg : ℕ
  bArg : ℕ
  wArg : ℕ
  outArg : ℕ
  a : OperandRef
  b : OperandRef
  w : OperandRef
  m : ℕ
  k1 : ℕ
  n1 : ℕ
  n2 : ℕ
  glue : List GlueSpec

/-- The nodes of a plan that the kernel is made of. -/
structure Found where
  first : Option ℕ := none
  second : Option ℕ := none
  glue : List ℕ := []

def Found.add (found : Found) (id : ℕ) (node : KernelNode) : Found :=
  if node.kind = .matmul then
    if found.first = none then { found with first := some id } else { found with second := some id }
  else if found.first ≠ none ∧ found.second = none then { found with glue := found.glue ++ [id] }
  else found

def findNodes (graph : KernelGraphIR) (ids : List ℕ) : Except String Found :=
  ids.foldlM (fun found id => do
    let node ← atIndex graph.nodes id
    return found.add id node) {}

/-- The position of the running value among the inputs of a node, and the other input. -/
def bindOperands (current : ℕ) (inputs : List ℕ) : Option ℕ × ℕ :=
  inputs.zipIdx.foldl (fun found input =>
    if input.1 = current then (some input.2, found.2) else (found.1, input.1)) (none, 0)

/-- One node of the chain. -/
def bindGlue (graph : KernelGraphIR) (m n1 : ℕ) (found : ℕ × List GlueSpec) (id : ℕ) :
    Except String (ℕ × List GlueSpec) := do
  let node ← atIndex graph.nodes id
  requireThat (node.kind = .elementwise) "Family B only supports elementwise glue nodes"
  requireThat (node.outputs.length = 1) "Family B glue nodes must produce exactly one output"
  let attrs ← elementwiseAttrs node
  let output ← node.front
  match attrs.2 with
  | [input] =>
    requireThat (input = found.1) "Family B unary glue must consume the fused value"
    requireThat (isUnaryOp attrs.1 = true ∧ attrs.1 ≠ .softmax)
      "Family B unary glue kind is invalid"
    return (output, found.2 ++ [⟨attrs.1, none, 0⟩])
  | [lhs, rhs] =>
    match bindOperands found.1 [lhs, rhs] with
    | (none, _) => failFusion "Family B binary glue must consume the fused value"
    | (some pos, boundary) =>
      match graph.findInputArgIndex boundary with
      | none => failFusion "Family B binary glue boundary operand must be a graph input"
      | some arg =>
        let desc ← atIndex graph.values boundary
        requireThat (desc.shape = [m, n1])
          "Family B binary glue currently requires exact-shape rank-2 boundary tensors"
        return (output, found.2 ++ [⟨attrs.1, some arg, pos⟩])
  | _ => failFusion "Family B glue nodes must be unary or binary"

/-- The extents of a tensor of rank two. -/
def rank2 (desc : TensorDesc) : Except String (ℕ × ℕ) :=
  match desc.shape with
  | [rows, cols] => .ok (rows, cols)
  | _ => failFusion "Family B currently requires rank-2 tensors"

def emitFamilyB (graph : KernelGraphIR) (plan : FusedKernelPlan) (tensorCount : ℕ) :
    Except String Kernel := do
  requireThat (tensorCount = 0 ∨ tensorCount = graph.inputValues.length + 1)
    "Family B runtime tensor count does not match graph inputs"
  let found ← findNodes graph plan.nodeIds
  match found.first, found.second with
  | some first, some second =>
    let mm0 ← atIndex graph.nodes first
    let mm1 ← atIndex graph.nodes second
    let attrs0 ← mm0.matmulAttrs
    let attrs1 ← mm1.matmulAttrs
    let aDesc ← atIndex graph.values attrs0.1.valueId
    let bDesc ← atIndex graph.values attrs0.2.valueId
    let lhsDesc ← atIndex graph.values attrs1.1.valueId
    let wDesc ← atIndex graph.values attrs1.2.valueId
    let aShape ← rank2 aDesc
    let bShape ← rank2 bDesc
    let lhsShape ← rank2 lhsDesc
    let wShape ← rank2 wDesc
    let aExtents := attrs0.1.extents aShape.1 aShape.2
    let bExtents := attrs0.2.extents bShape.1 bShape.2
    requireThat (aExtents.2 = bExtents.1) "Family B first matmul inner dimensions mismatch"
    let lhsExtents := attrs1.1.extents lhsShape.1 lhsShape.2
    let wExtents := attrs1.2.extents wShape.1 wShape.2
    requireThat (lhsExtents.1 = aExtents.1 ∧ lhsExtents.2 = bExtents.2 ∧ lhsExtents.2 = wExtents.1)
      "Family B second matmul dimensions mismatch"
    requireThat (attrs1.1.transposeLast2 = false)
      "Family B does not support transposed intermediate lhs yet"
    let outId ← plan.outValueId mm1
    let outDesc ← atIndex graph.values outId
    requireThat (outDesc.shape = [aExtents.1, wExtents.2])
      "Family B output shape must match second matmul result"
    let start ← mm0.front
    let glue ← found.glue.foldlM (bindGlue graph aExtents.1 bExtents.2) (start, [])
    requireThat (glue.1 = attrs1.1.valueId)
      "Family B glue chain does not feed the second matmul lhs"
    graph.inputValues.forM fun id => do
      let desc ← atIndex graph.values id
      requireThat (desc.shape.length = 2) "Family B currently requires rank-2 graph inputs"
    match graph.findInputArgIndex attrs0.1.valueId, graph.findInputArgIndex attrs0.2.valueId,
        graph.findInputArgIndex attrs1.2.valueId with
    | some aArg, some bArg, some wArg =>
      requireThat (∀ spec ∈ glue.2, spec.boundaryArg ≠ none → isUnaryOp spec.kind = false)
        "emitBinaryElementwiseOnValues: unsupported binary kind"
      return {
        aArg, bArg, wArg, outArg := graph.inputValues.length, a := attrs0.1, b := attrs0.2,
        w := attrs1.2, m := aExtents.1, k1 := aExtents.2, n1 := bExtents.2, n2 := wExtents.2,
        glue := glue.2 }
    | _, _, _ => failFusion "Family B matmul boundary operands must be graph inputs"
  | _, _ => .error "Family B plan requires two matmul nodes"

def emit (graph : Option KernelGraphIR) (plan : FusedKernelPlan) (tensorCount : ℕ)
    (target : TargetKind) : Except String Kernel := do
  match graph with
  | none => failFusion "missing graph for fused kernel"
  | some graph =>
    validateFamilyB graph plan target
    emitFamilyB graph plan tensorCount

/-- An argument, and one of its elements. -/
abbrev Place := ℕ × List ℕ

def blockDim : ℕ := 256

def br : ℕ := 16

def totalElems : ℕ := br * br

section kernel
variable {E : Type} (arith : Arith E) (kernel : Kernel) (block : ℕ)

/-- `emitElementwiseOnValue` and `emitBinaryElementwiseOnValues` for one node. -/
def GlueSpec.emit (spec : GlueSpec) (row col : ℕ) (transformed : E) : Code Place E E :=
  match spec.boundaryArg with
  | none => .ret (arith.elementwise spec.kind transformed transformed)
  | some arg => do
    let boundary ← load (arg, [row, col])
    pure (if spec.valueInputPos = 0 then arith.elementwise spec.kind transformed boundary
      else arith.elementwise spec.kind boundary transformed)

namespace Kernel

def gridM : ℕ := (kernel.m + br - 1) / br

def gridN : ℕ := (kernel.n2 + br - 1) / br

/-- The blocks are numbered along the rows first. -/
def globalRow (elemIdx : ℕ) : ℕ := block % kernel.gridM * br + elemIdx / br

def globalCol2 (elemIdx : ℕ) : ℕ := block / kernel.gridM * br + elemIdx % br

/-- The body of `k_loop`. -/
def innerStep (row n1Idx : ℕ) (accInner : E) (k : ℕ) : Code Place E E := do
  let aVal ← load (kernel.aArg, kernel.a.element row k)
  let bVal ← load (kernel.bArg, kernel.b.element k n1Idx)
  pure (arith.contract accInner aVal bVal)

/-- The body of `n1_loop`. -/
def outerStep (row col2 : ℕ) (accOuter : E) (n1Idx : ℕ) : Code Place E E := do
  let inner ← fold (kernel.innerStep arith row n1Idx) (List.range kernel.k1) arith.zero
  let transformed ← fold (fun value spec => spec.emit arith row n1Idx value) kernel.glue inner
  let wVal ← load (kernel.wArg, kernel.w.element n1Idx col2)
  pure (arith.contract accOuter transformed wVal)

/-- The value of an element of the output. -/
def element (row col2 : ℕ) : Code Place E E :=
  fold (kernel.outerStep arith row col2) (List.range kernel.n1) arith.zero

/-- Elements of the tile that are elements of the output. -/
def ElemValid (elemIdx : ℕ) : Prop :=
  kernel.globalRow block elemIdx < kernel.m ∧ kernel.globalCol2 block elemIdx < kernel.n2

instance (elemIdx : ℕ) : Decidable (kernel.ElemValid block elemIdx) :=
  inferInstanceAs (Decidable (_ ∧ _))

/-- The body of `elem_loop`. -/
def elemBody (elemIdx : ℕ) : Code Place E Unit :=
  if kernel.ElemValid block elemIdx then do
    let sum ← kernel.element arith (kernel.globalRow block elemIdx)
      (kernel.globalCol2 block elemIdx)
    store (kernel.outArg, [kernel.globalRow block elemIdx, kernel.globalCol2 block elemIdx]) sum
  else pure ()

/-- The code of the threads of a block, which has no barrier. -/
def phase : Fin blockDim → Code Place E Unit := fun tid =>
  each (kernel.elemBody arith block) (share totalElems tid)

/-- The elements of the output. -/
def elements : List Place :=
  (List.range kernel.m).flatMap fun i => (List.range kernel.n2).map fun j => (kernel.outArg, [i, j])

/-- The grid. -/
def launch : Fin (kernel.gridM * kernel.gridN) → Block blockDim Place E :=
  fun block => ⟨[kernel.phase arith block], fun _ => pure (), [], []⟩

end Kernel

end kernel

end Matcore.Engine.FamilyB
