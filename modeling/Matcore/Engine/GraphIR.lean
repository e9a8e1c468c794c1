import Matcore.Engine.Kernel
import Matcore.Lib.PostOrder

/-!
# Kernel graphs

`KernelGraphIR` of `kernel_ir.h`, and the value of each of its nodes. A dimension is known. Dtypes
are recorded and do not round.
-/

namespace Matcore.Engine

open LoopNest (Tensor)

inductive OpKind where
  | matmul | elementwise | transpose | cast | reduce | softmax | store
  deriving DecidableEq

inductive ReductionKind where
  | sum | max | min
  deriving DecidableEq

inductive ReductionAxisKind where
  | axis0 | axis1 | last
  deriving DecidableEq

inductive ValueKind where
  | input | output | intermediate
  deriving DecidableEq

structure TensorDesc where
  dtype : TensorDType
  shape : List ℕ
  valueKind : ValueKind
  producer : Option ℕ
  consumers : List ℕ

structure OperandRef where
  valueId : ℕ
  transposeLast2 : Bool

inductive NodeAttrs where
  | matmul (lhs rhs : OperandRef)
  | elementwise (kind : ElementwiseKind) (inputs : List ℕ)
  | transpose (input : ℕ)
  | cast (input : ℕ) (targetDtype : TensorDType)
  | reduce (input : ℕ) (kind : ReductionKind) (axis : ReductionAxisKind)
  | softmax (input : ℕ) (axis : ℤ)
  | store (input outputTensor : ℕ)

structure KernelNode where
  id : ℕ
  kind : OpKind
  inputs : List ℕ
  outputs : List ℕ
  attrs : NodeAttrs

structure KernelGraphIR where
  values : List TensorDesc
  nodes : List KernelNode
  inputValues : List ℕ
  outputValues : List ℕ
  topoOrder : List ℕ

def KernelGraphIR.producer (graph : KernelGraphIR) (v : ℕ) : Option ℕ :=
  (graph.values[v]?).bind (·.producer)

/-- The nodes that make the inputs of a node. -/
def KernelGraphIR.producers (graph : KernelGraphIR) (n : ℕ) : List ℕ :=
  match graph.nodes[n]? with
  | some node => node.inputs.filterMap graph.producer
  | none => []

/-- The topological order has the nodes that the outputs need, once and behind their producers. -/
structure KernelGraphIR.Ordered (graph : KernelGraphIR) : Prop where
  sorted : PostOrder.Sorted graph.producers graph.topoOrder
  needed : ∀ n, n ∈ graph.topoOrder ↔
    ∃ root ∈ graph.outputValues.filterMap graph.producer, PostOrder.Reach graph.producers root n

variable {E : Type}

/-- The operations of a graph on elements. -/
structure GraphArith (E : Type) extends Arith E where
  cast : TensorDType → E → E
  reduce : ReductionKind → List E → E

variable (arith : GraphArith E)

def transposed (a : Tensor E) : Option (Tensor E) :=
  match a.shape with
  | [m, n] => some ⟨[n, m], fun key => a.get key.reverse⟩
  | _ => none

def matmulOf (a b : Tensor E) : Option (Tensor E) :=
  match a.shape, b.shape with
  | [m, k], [k', n] =>
    if k = k' then
      some ⟨[m, n], fun key => contraction arith.toArith k (fun i p => a.get [i, p])
        (fun p j => b.get [p, j]) (key.getD 0 0) (key.getD 1 0)⟩
    else none
  | _, _ => none

def unaryOf (kind : ElementwiseKind) (a : Tensor E) : Tensor E :=
  ⟨a.shape, fun key => arith.elementwise kind (a.get key) (a.get key)⟩

def binaryOf (kind : ElementwiseKind) (a b : Tensor E) : Option (Tensor E) :=
  if a.shape = b.shape then
    some ⟨a.shape, fun key => arith.elementwise kind (a.get key) (b.get key)⟩
  else none

def elementwiseOf (kind : ElementwiseKind) (inputs : List (Tensor E)) : Option (Tensor E) :=
  match inputs with
  | [a] => if isUnaryOp kind ∧ kind ≠ .softmax then some (unaryOf arith kind a) else none
  | [a, b] => if isUnaryOp kind then none else binaryOf arith kind a b
  | _ => none

def castOf (dtype : TensorDType) (a : Tensor E) : Tensor E :=
  ⟨a.shape, fun key => arith.cast dtype (a.get key)⟩

/-- A position on the axes, which are counted from the last one if it is negative. -/
def axisOf (axis : ℤ) (rank : ℕ) : Option ℕ :=
  let position := if axis < 0 then axis + rank else axis
  if 0 ≤ position ∧ position < rank then some position.toNat else none

def softmaxOf (axis : ℤ) (a : Tensor E) : Option (Tensor E) := do
  let p ← axisOf axis a.shape.length
  return ⟨a.shape, fun key =>
    arith.softmax ((List.range (a.shape.getD p 0)).map fun q => a.get (key.set p q))
      (key.getD p 0)⟩

def reduceOf (kind : ReductionKind) (axis : ReductionAxisKind) (a : Tensor E) : Option (Tensor E) := do
  let p ← axisOf (match axis with | .axis0 => 0 | .axis1 => 1 | .last => -1) a.shape.length
  return ⟨a.shape.eraseIdx p, fun key =>
    arith.reduce kind ((List.range (a.shape.getD p 0)).map fun q => a.get (key.insertIdx p q))⟩

/-- The values that are known. -/
abbrev Env (E : Type) := ℕ → Option (Tensor E)

def OperandRef.eval (env : Env E) (operand : OperandRef) : Option (Tensor E) :=
  if operand.transposeLast2 then (env operand.valueId).bind transposed else env operand.valueId

def NodeAttrs.eval (env : Env E) : NodeAttrs → Option (Tensor E)
  | .matmul lhs rhs => do matmulOf arith (← lhs.eval env) (← rhs.eval env)
  | .elementwise kind inputs => do elementwiseOf arith kind (← inputs.mapM env)
  | .transpose input => do transposed (← env input)
  | .cast input targetDtype => do return castOf arith targetDtype (← env input)
  | .reduce input kind axis => do reduceOf arith kind axis (← env input)
  | .softmax input axis => do softmaxOf arith axis (← env input)
  | .store input _ => env input

def KernelGraphIR.evalNode (graph : KernelGraphIR) (env : Env E) (id : ℕ) : Option (Env E) := do
  let node ← graph.nodes[id]?
  let output ← node.outputs.head?
  let value ← node.attrs.eval arith env
  return Function.update env output (some value)

/-- The inputs of a graph. -/
def KernelGraphIR.start (graph : KernelGraphIR) (inputs : List (Tensor E)) : Env E := fun id =>
  (graph.inputValues.zip inputs).lookup id

/-- The nodes in the order of the graph. -/
def KernelGraphIR.eval (graph : KernelGraphIR) (inputs : List (Tensor E)) : Option (Env E) :=
  graph.topoOrder.foldlM (graph.evalNode arith) (graph.start inputs)

end Matcore.Engine
