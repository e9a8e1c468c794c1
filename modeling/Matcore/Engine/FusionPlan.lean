import Matcore.Engine.GraphIR

/-!
# Fusion plans

`FusedKernelPlan` of `fusion_analysis.h`, as far as the emitters read it, and how they read the
graph.
-/

namespace Matcore.Engine

/-- Sizes that are not positive stand for the defaults of an emitter. -/
structure TileShape where
  br : ℤ
  bc : ℤ
  d : ℤ
  threadsPerBlock : ℤ

structure FusedKernelPlan where
  nodeIds : List ℕ
  outputValueIds : List ℕ
  tile : TileShape

variable {α : Type}

def failFusion (message : String) : Except String α :=
  .error ("FusionMlirEmitter: " ++ message)

/-- A check of an emitter. -/
def requireThat (p : Prop) [Decidable p] (message : String) : Except String Unit :=
  if p then .ok () else failFusion message

/-- `std::vector::at` -/
def atIndex (l : List α) (index : ℕ) : Except String α :=
  match l[index]? with
  | some x => .ok x
  | none => .error "vector::_M_range_check"

def KernelNode.matmulAttrs (node : KernelNode) : Except String (OperandRef × OperandRef) :=
  match node.attrs with
  | .matmul lhs rhs => .ok (lhs, rhs)
  | _ => .error "std::get: wrong index for variant"

/-- The value that a node gives first. -/
def KernelNode.front (node : KernelNode) : Except String ℕ :=
  atIndex node.outputs 0

/-- The value that a plan leaves, which is that of its last node where it declares none. -/
def FusedKernelPlan.outValueId (plan : FusedKernelPlan) (last : KernelNode) : Except String ℕ :=
  if plan.outputValueIds = [] then last.front else atIndex plan.outputValueIds 0

/-- The same for a node of a graph. -/
def KernelGraphIR.output (graph : KernelGraphIR) (id : ℕ) : Option ℕ :=
  (graph.nodes[id]?).bind (·.outputs.head?)

def KernelGraphIR.findInputArgIndex (graph : KernelGraphIR) (id : ℕ) : Option ℕ :=
  graph.inputValues.findIdx? (· = id)

/-- The extents of an operand. -/
def OperandRef.extents (operand : OperandRef) (rows cols : ℕ) : ℕ × ℕ :=
  if operand.transposeLast2 then (cols, rows) else (rows, cols)

/-- Where an operand has an element. -/
def OperandRef.element (operand : OperandRef) (row col : ℕ) : List ℕ :=
  if operand.transposeLast2 then [col, row] else [row, col]

theorem requireThat_eq_ok {p : Prop} [Decidable p] {message : String} :
    requireThat p message = .ok () ↔ p := by
  unfold requireThat failFusion
  split <;> simp_all

variable {index : ℕ}

theorem atIndex_eq_ok {l : List α} {x : α} :
    atIndex l index = .ok x ↔ l[index]? = some x := by
  unfold atIndex
  split <;> simp_all

variable {node : KernelNode}

theorem front_eq_ok {output : ℕ} :
    node.front = .ok output ↔ node.outputs.head? = some output := by
  rw [KernelNode.front, atIndex_eq_ok, List.head?_eq_getElem?]

theorem matmulAttrs_eq_ok {lhs rhs : OperandRef} :
    node.matmulAttrs = .ok (lhs, rhs) ↔ node.attrs = .matmul lhs rhs := by
  unfold KernelNode.matmulAttrs
  split <;> simp_all

variable {graph : KernelGraphIR} {id : ℕ}

section

variable (h : graph.findInputArgIndex id = some index)

include h

theorem findInputArgIndex_eq_some :
    graph.inputValues[index]? = some id := by
  obtain ⟨hlt, hid, -⟩ := List.findIdx?_eq_some_iff_getElem.1 h
  rw [List.getElem?_eq_getElem hlt]
  exact congrArg some (of_decide_eq_true hid)

theorem mem_of_findInputArgIndex :
    id ∈ graph.inputValues :=
  List.mem_of_getElem? (findInputArgIndex_eq_some h)

theorem findInputArgIndex_lt :
    index < graph.inputValues.length :=
  (List.findIdx?_eq_some_iff_findIdx_eq.1 h).1

end

end Matcore.Engine
