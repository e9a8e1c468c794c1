import Mathlib.Analysis.SpecialFunctions.Log.Basic
import Mathlib.Analysis.SpecialFunctions.Sqrt
import Matcore.Proof.FamilyBLaunch
import Matcore.Proof.FamilyBPlan

/-!
# The fused kernel of two products computes its chain

What the kernel leaves is what the nodes of the plan give one by one, if no node of the chain takes
the running value on both sides and the plan declares the value that is stored.
-/

namespace Matcore.Engine

open Function (update update_self)
open List (mem_cons_self foldlM_cons)
open NodeAttrs (eval)

noncomputable section

/-- `emitElementwiseOnValue` and `emitBinaryElementwiseOnValues`. -/
def realElementwise : ElementwiseKind → ℝ → ℝ → ℝ
  | .add, a, b => a + b
  | .sub, a, b => a - b
  | .mul, a, b => a * b
  | .div, a, b => a / b
  | .min, a, b => min a b
  | .max, a, b => max a b
  | .relu, a, _ => max a 0
  | .exp, a, _ => Real.exp a
  | .log, a, _ => Real.log a
  | .tanh, a, _ => Real.tanh a
  | .sqrt, a, _ => √a
  | .neg, a, _ => -a
  | .abs, a, _ => |a|
  | .sin, a, _ => Real.sin a
  | .cos, a, _ => Real.cos a
  | .rsqrt, a, _ => 1 / √a
  | .sigmoid, a, _ => 1 / (1 + Real.exp (-a))
  | .gelu, a, _ =>
    0.5 * a * (1 + Real.tanh (0.7978845608 * (a + 0.044715 * (a * a * a))))
  | .softmax, a, _ => a

/-- The operations of the emitters on real numbers, without rounding. -/
def realArith : GraphArith ℝ where
  zero := 0
  contract acc a b := acc + a * b
  elementwise := realElementwise
  softmax values j := Real.exp (values.getD j 0) / (values.map Real.exp).sum
  cast _ a := a
  reduce kind values :=
    match kind with
    | .sum => values.sum
    | .max => values.tail.foldl max (values.headD 0)
    | .min => values.tail.foldl min (values.headD 0)

end

namespace FamilyB

open Barriers LoopNest

variable {E : Type}

/-- The inputs have the shapes that the graph declares. -/
def Fits (graph : KernelGraphIR) (inputs : List (Tensor E)) : Prop :=
  List.Forall₂ (fun id tensor => ∃ desc, graph.values[id]? = some desc ∧ tensor.shape = desc.shape)
    graph.inputValues inputs

/-- The last node of the plan gives a value, and the plan declares it. -/
def PlanGives (arith : GraphArith E) (graph : KernelGraphIR) (plan : FusedKernelPlan)
    (inputs : List (Tensor E)) (value : Tensor E) : Prop :=
  ∃ env out, plan.nodeIds.foldlM (graph.evalNode arith) (graph.start inputs) = some env ∧
    plan.nodeIds.getLast?.bind graph.output = some out ∧
    plan.outputValueIds.head?.getD out = out ∧ env out = some value

/-- The elements of the arguments. -/
def contents (arith : Arith E) (inputs : List (Tensor E)) (index : ℕ) (element : List ℕ) : E :=
  match inputs[index]? with
  | some tensor => tensor.get element
  | none => arith.zero

section evaluation
variable {arith : GraphArith E} {graph : KernelGraphIR} {inputs : List (Tensor E)}

theorem lookup_zip {ids : List ℕ} {id arg : ℕ} (hlength : ids.length = inputs.length)
    (h : ids.findIdx? (· = id) = some arg) : (ids.zip inputs).lookup id = inputs[arg]? := by
  induction ids generalizing inputs arg with
  | nil => cases h
  | cons first ids ih =>
    cases inputs with
    | nil => cases hlength
    | cons tensor inputs =>
      rw [List.findIdx?_cons] at h
      rw [List.zip_cons_cons]
      by_cases hid : first = id
      · subst hid
        obtain rfl : 0 = arg := by simpa using h
        rw [List.lookup_cons_self]
        rfl
      · obtain ⟨k, hk, rfl⟩ : ∃ k, ids.findIdx? (· = id) = some k ∧ k + 1 = arg := by
          simpa [hid] using h
        have hbeq : (id == first) = false := beq_false_of_ne (Ne.symm hid)
        have hskip : ((first, tensor) :: ids.zip inputs).lookup id =
            (ids.zip inputs).lookup id := by
          rw [List.lookup_cons, hbeq]
        rw [hskip, ih (Nat.succ.inj hlength) hk]
        rfl

theorem start_eq (hfits : Fits graph inputs) {id arg : ℕ}
    (harg : graph.findInputArgIndex id = some arg) {desc : TensorDesc}
    (hdesc : graph.values[id]? = some desc) :
    ∃ tensor, inputs[arg]? = some tensor ∧ graph.start inputs id = some tensor ∧
      tensor.shape = desc.shape := by
  have hlt := findInputArgIndex_lt harg
  rw [hfits.length_eq] at hlt
  have htensor : inputs[arg]? = some inputs[arg] := List.getElem?_eq_getElem hlt
  obtain ⟨desc', hdesc', hshape⟩ := (List.forall₂_iff_get.1 hfits).2 arg
    (findInputArgIndex_lt harg) hlt
  have hid : graph.inputValues[arg]? = some id := findInputArgIndex_eq_some harg
  rw [List.getElem?_eq_getElem (findInputArgIndex_lt harg)] at hid
  rw [List.get_eq_getElem, Option.some.inj hid, hdesc] at hdesc'
  cases hdesc'
  refine ⟨inputs[arg], htensor, ?_, hshape⟩
  rw [← htensor]
  exact lookup_zip hfits.length_eq harg

variable (arith) in
theorem contents_eq {arg : ℕ} {tensor : Tensor E} (h : inputs[arg]? = some tensor)
    (element : List ℕ) : tensor.get element = contents arith.toArith inputs arg element := by
  rw [contents, h]

/-- The values of the graph inputs are still there. -/
def Keeps (graph : KernelGraphIR) (inputs : List (Tensor E)) (env : Env E) : Prop :=
  ∀ id ∈ graph.inputValues, env id = graph.start inputs id

theorem Keeps.update {env : Env E} (h : Keeps graph inputs env) {out : ℕ}
    (hout : out ∉ graph.inputValues) (value : Option (Tensor E)) :
    Keeps graph inputs (update env out value) := by
  intro id hid
  have hne : id ≠ out := by
    rintro rfl
    exact hout hid
  rw [Function.update_of_ne hne]
  exact h id hid

variable (arith) in
theorem boundary_eval (hfits : Fits graph inputs) {env : Env E} (hkeeps : Keeps graph inputs env)
    {operand : OperandRef} {arg rows cols : ℕ} (h : Boundary graph operand arg rows cols) :
    ∃ tensor, operand.eval env = some tensor ∧ tensor.shape = [rows, cols] ∧
      ∀ i j, tensor.get [i, j] = contents arith.toArith inputs arg (operand.element i j) := by
  obtain ⟨desc, r, c, hdesc, hshape, hextents⟩ := h.shape
  obtain ⟨tensor, hinput, hstart, htensor⟩ := start_eq hfits h.arg hdesc
  have hget := contents_eq arith hinput
  have henv : env operand.valueId = some tensor :=
    (hkeeps _ (mem_of_findInputArgIndex h.arg)).trans hstart
  rw [hshape] at htensor
  unfold OperandRef.eval OperandRef.element
  unfold OperandRef.extents at hextents
  cases htransposed : operand.transposeLast2 with
  | false =>
    rw [htransposed] at hextents
    cases hextents
    exact ⟨tensor, henv, htensor, fun i j => hget [i, j]⟩
  | true =>
    rw [htransposed] at hextents
    cases hextents
    refine ⟨⟨[rows, cols], fun key => tensor.get key.reverse⟩, ?_, rfl, fun i j => hget [j, i]⟩
    rw [if_pos rfl, henv]
    show transposed tensor = _
    rw [transposed, htensor]

variable (arith) in
theorem matmulOf_eq {a b : Tensor E} {m k n : ℕ} {lhs rhs : ℕ → ℕ → E} (ha : a.shape = [m, k])
    (hb : b.shape = [k, n]) (hlhs : ∀ i j, a.get [i, j] = lhs i j)
    (hrhs : ∀ i j, b.get [i, j] = rhs i j) :
    ∃ tensor, matmulOf arith a b = some tensor ∧ tensor.shape = [m, n] ∧
      ∀ i j, tensor.get [i, j] = contraction arith.toArith k lhs rhs i j := by
  obtain rfl : lhs = fun i p => a.get [i, p] := by
    funext i p
    exact (hlhs i p).symm
  obtain rfl : rhs = fun p j => b.get [p, j] := by
    funext p j
    exact (hrhs p j).symm
  unfold matmulOf
  rw [ha, hb]
  exact ⟨_, if_pos rfl, rfl, fun i j => rfl⟩

variable {node : KernelNode}

theorem evalNode_eq {env : Env E} {id out : ℕ} {value : Tensor E}
    (hnode : graph.nodes[id]? = some node) (hout : node.outputs.head? = some out)
    (hvalue : node.attrs.eval arith env = some value) :
    graph.evalNode arith env id = some (update env out (some value)) := by
  rw [KernelGraphIR.evalNode, hnode]
  simp [hout, hvalue]

/-- What a chain of nodes makes of a value. -/
def glued (arith : Arith E) (x : ℕ → List ℕ → E) (specs : List GlueSpec) (i j : ℕ) (value : E) :
    E :=
  specs.foldl (fun value spec => spec.apply arith x i j value) value

/-- **The loop invariant**: the running value is the product, with the nodes so far. -/
structure Running (arith : GraphArith E) (graph : KernelGraphIR) (inputs : List (Tensor E))
    (kernel : Kernel) (current : ℕ) (specs : List GlueSpec) (env : Env E) : Prop where
  keeps : Keeps graph inputs env
  value : ∃ tensor, env current = some tensor ∧ tensor.shape = [kernel.m, kernel.n1] ∧
    ∀ i j, tensor.get [i, j] = glued arith.toArith (contents arith.toArith inputs) specs i j
      (kernel.product arith.toArith (contents arith.toArith inputs) i j)

variable {plan : FusedKernelPlan} {kernel : Kernel} {first second start last : ℕ}
  {glueIds : List ℕ}

variable (arith) in
theorem first_evaluates (hfits : Fits graph inputs)
    (hemitted : Emitted graph plan kernel first second glueIds start last)
    (hfresh : start ∉ graph.inputValues) :
    ∃ env, graph.evalNode arith (graph.start inputs) first = some env ∧
      Running arith graph inputs kernel start [] env := by
  obtain ⟨node, hnode, hattrs, hout⟩ := hemitted.first_node
  have hkeeps : Keeps graph inputs (graph.start inputs) := fun _ _ => rfl
  obtain ⟨a, ha, hashape, haget⟩ := boundary_eval arith hfits hkeeps hemitted.a
  obtain ⟨b, hb, hbshape, hbget⟩ := boundary_eval arith hfits hkeeps hemitted.b
  obtain ⟨value, hvalue, hshape, hget⟩ :=
    matmulOf_eq arith hashape hbshape haget hbget
  have hproduct : node.attrs.eval arith (graph.start inputs) = some value := by
    rw [hattrs]
    simp [eval, ha, hb, hvalue]
  exact ⟨_, evalNode_eq hnode hout hproduct, hkeeps.update hfresh _, value,
    update_self _ _ _, hshape, hget⟩

variable (arith) in
theorem other_eval (hfits : Fits graph inputs) {env : Env E} (hkeeps : Keeps graph inputs env)
    {m n1 other arg : ℕ} (hother : Other graph m n1 other arg) :
    ∃ tensor, env other = some tensor ∧ tensor.shape = [m, n1] ∧
      ∀ element, tensor.get element = contents arith.toArith inputs arg element := by
  obtain ⟨harg, desc, hdesc, hshape⟩ := hother
  obtain ⟨tensor, hinput, hstart, htensor⟩ := start_eq hfits harg hdesc
  exact ⟨tensor, (hkeeps other (mem_of_findInputArgIndex harg)).trans hstart,
    htensor.trans hshape, contents_eq _ hinput⟩

variable (arith) in
theorem glue_eval (hfits : Fits graph inputs) {env : Env E} (hkeeps : Keeps graph inputs env)
    {current : ℕ} {spec : GlueSpec} {tensor : Tensor E} {m n1 : ℕ}
    (hglues : Glues graph m n1 current node spec)
    (hbinary : spec.boundaryArg ≠ none → isUnaryOp spec.kind = false)
    (hsides : ∀ kind v, node.attrs ≠ .elementwise kind [v, v])
    (hcurrent : env current = some tensor) (hshape : tensor.shape = [m, n1]) :
    ∃ value, node.attrs.eval arith env = some value ∧ value.shape = [m, n1] ∧ ∀ i j,
      value.get [i, j] = spec.apply arith.toArith (contents arith.toArith inputs) i j
        (tensor.get [i, j]) := by
  cases hglues with
  | unary hattrs hkind =>
    rename_i kind
    refine ⟨unaryOf arith kind tensor, ?_, hshape, fun i j => rfl⟩
    rw [hattrs]
    simp [eval, hcurrent, elementwiseOf, hkind.1, hkind.2]
  | left hattrs hother =>
    rename_i kind other arg
    obtain ⟨extra, hextra, hextra_shape, hget⟩ := other_eval arith hfits hkeeps hother
    have hkind : isUnaryOp kind = false := hbinary nofun
    refine ⟨⟨tensor.shape, fun key => arith.elementwise kind (tensor.get key) (extra.get key)⟩, ?_,
      hshape, fun i j => ?_⟩
    · rw [hattrs]
      simp [eval, hcurrent, hextra, elementwiseOf, binaryOf, hkind, hshape, hextra_shape]
    · exact congrArg (arith.elementwise kind (tensor.get [i, j])) (hget [i, j])
  | right hattrs hother =>
    rename_i kind other arg
    obtain ⟨extra, hextra, hextra_shape, hget⟩ := other_eval arith hfits hkeeps hother
    have hkind : isUnaryOp kind = false := hbinary nofun
    refine ⟨⟨extra.shape, fun key => arith.elementwise kind (extra.get key) (tensor.get key)⟩, ?_,
      hextra_shape, fun i j => ?_⟩
    · rw [hattrs]
      simp [eval, hcurrent, hextra, elementwiseOf, binaryOf, hkind, hshape, hextra_shape]
    · exact congrArg (fun v => arith.elementwise kind v (tensor.get [i, j])) (hget [i, j])
  | both hattrs _ => exact absurd hattrs (hsides _ _)

theorem Running.glue {current next id : ℕ} {specs specs' : List GlueSpec} {env : Env E}
    (h : Running arith graph inputs kernel current specs env) (hfits : Fits graph inputs)
    (hbind : bindGlue graph kernel.m kernel.n1 (current, specs) id = .ok (next, specs'))
    (hbinary : ∀ spec ∈ specs', spec.boundaryArg ≠ none → isUnaryOp spec.kind = false)
    (hsides : ∀ node kind v, graph.nodes[id]? = some node → node.attrs ≠ .elementwise kind [v, v])
    (hfresh : ∀ v, graph.output id = some v → v ∉ graph.inputValues) :
    ∃ env', graph.evalNode arith env id = some env' ∧
      Running arith graph inputs kernel next specs' env' := by
  obtain ⟨node, spec, hnode, hout, rfl, hglues⟩ := glues_of_bindGlue hbind
  obtain ⟨tensor, hcurrent, hshape, hget⟩ := h.value
  have hspec : spec ∈ specs ++ [spec] := List.mem_append_right _ mem_cons_self
  obtain ⟨value, hvalue, hvalue_shape, hvalue_get⟩ := glue_eval arith hfits h.keeps hglues
    (hbinary spec hspec) (fun kind v => hsides node kind v hnode) hcurrent hshape
  have hnext : graph.output id = some next := by
    rw [KernelGraphIR.output, hnode]
    exact hout
  refine ⟨_, evalNode_eq hnode hout hvalue, h.keeps.update (hfresh next hnext) _, value,
    update_self _ _ _, hvalue_shape, fun i j => ?_⟩
  rw [hvalue_get, hget, glued, glued, List.foldl_append]
  rfl

theorem specs_subset {m n1 : ℕ} {ids : List ℕ} {s s' : ℕ × List GlueSpec}
    (h : ids.foldlM (bindGlue graph m n1) s = .ok s') : ∀ spec ∈ s.2, spec ∈ s'.2 := by
  induction ids generalizing s with
  | nil =>
    cases h
    exact fun _ hspec => hspec
  | cons id ids ih =>
    rw [foldlM_cons] at h
    obtain ⟨⟨next, specs⟩, hid, h⟩ := Except.bind_eq_ok h
    obtain ⟨_, _, -, -, rfl, -⟩ := glues_of_bindGlue hid
    exact fun spec hspec => ih h spec (List.mem_append_left _ hspec)

theorem Running.chain {ids : List ℕ} {current next : ℕ} {specs specs' : List GlueSpec} {env : Env E}
    (h : Running arith graph inputs kernel current specs env) (hfits : Fits graph inputs)
    (hbind : ids.foldlM (bindGlue graph kernel.m kernel.n1) (current, specs) = .ok (next, specs'))
    (hbinary : ∀ spec ∈ specs', spec.boundaryArg ≠ none → isUnaryOp spec.kind = false)
    (hsides : ∀ id ∈ ids, ∀ node kind v, graph.nodes[id]? = some node →
      node.attrs ≠ .elementwise kind [v, v])
    (hfresh : ∀ id ∈ ids, ∀ v, graph.output id = some v → v ∉ graph.inputValues) :
    ∃ env', ids.foldlM (graph.evalNode arith) env = some env' ∧
      Running arith graph inputs kernel next specs' env' := by
  induction ids generalizing current specs env with
  | nil =>
    cases hbind
    exact ⟨env, rfl, h⟩
  | cons id ids ih =>
    rw [foldlM_cons] at hbind
    obtain ⟨⟨between, specs₁⟩, hid, hbind⟩ := Except.bind_eq_ok hbind
    have hsubset := specs_subset hbind
    obtain ⟨env₁, heval, h₁⟩ := h.glue hfits hid
      (fun spec hspec => hbinary spec (hsubset spec hspec)) (hsides id mem_cons_self)
      (hfresh id mem_cons_self)
    obtain ⟨env₂, hrest, h₂⟩ := ih h₁ hbind
      (fun id hid => hsides id (List.mem_cons_of_mem _ hid))
      (fun id hid => hfresh id (List.mem_cons_of_mem _ hid))
    refine ⟨env₂, ?_, h₂⟩
    rw [foldlM_cons, heval]
    exact hrest

variable (arith) in
/-- The nodes of a plan give the chain of the kernel. -/
theorem evaluates (hplain : Plain graph plan) (hfits : Fits graph inputs)
    (hemitted : Emitted graph plan kernel first second glueIds start last)
    (hids : plan.nodeIds = first :: (glueIds ++ [second]))
    (hproducts : nodesOfKind graph .matmul plan.nodeIds = [first, second]) :
    ∃ value, PlanGives arith graph plan inputs value ∧ value.shape = [kernel.m, kernel.n2] ∧
      ∀ i j, value.get [i, j] =
        kernel.chain arith.toArith (contents arith.toArith inputs) i j := by
  have hfresh : ∀ id ∈ plan.nodeIds, ∀ v, graph.output id = some v → v ∉ graph.inputValues :=
    fun id hid v hv => hplain.fresh v (List.mem_filterMap.2 ⟨id, hid, hv⟩)
  rw [hids] at hfresh
  obtain ⟨env₁, hfirst, h₁⟩ := first_evaluates arith hfits hemitted <| by
    obtain ⟨node, hnode, -, hout⟩ := hemitted.first_node
    refine hfresh first mem_cons_self start ?_
    rw [KernelGraphIR.output, hnode]
    exact hout
  have hglue_mem : ∀ id ∈ glueIds, id ∈ first :: (glueIds ++ [second]) := fun id hid =>
    List.mem_cons_of_mem _ (List.mem_append_left _ hid)
  obtain ⟨env₂, hchain, h₂⟩ := h₁.chain hfits hemitted.glue hemitted.binary
    (fun id hid => hplain.sides id (hids ▸ hglue_mem id hid))
    (fun id hid => hfresh id (hglue_mem id hid))
  obtain ⟨node, out, hnode, hattrs, hout⟩ := hemitted.second_node
  obtain ⟨fused, hfused, hfused_shape, hfused_get⟩ := h₂.value
  obtain ⟨w, hw, hwshape, hwget⟩ := boundary_eval arith hfits h₂.keeps hemitted.w
  obtain ⟨value, hvalue, hshape, hget⟩ :=
    matmulOf_eq arith hfused_shape hwshape hfused_get hwget
  -- the value that is declared is the one that the second product makes
  have hdeclared : graph.output second = some out ∧ plan.outputValueIds.head?.getD out = out := by
    unfold FusedKernelPlan.outValueId at hout
    split at hout
    · rename_i hnil
      refine ⟨?_, by rw [hnil]; rfl⟩
      rw [KernelGraphIR.output, hnode]
      exact front_eq_ok.1 hout
    · rw [atIndex_eq_ok, ← List.head?_eq_getElem?] at hout
      have hsecond := hplain.declared out hout
      rw [hproducts] at hsecond
      exact ⟨hsecond, by rw [hout]; rfl⟩
  have hnode_out : node.outputs.head? = some out := by
    have hsecond := hdeclared.1
    rwa [KernelGraphIR.output, hnode] at hsecond
  have hproduct : node.attrs.eval arith env₂ = some value := by
    have hlhs : (⟨last, false⟩ : OperandRef).eval env₂ = some fused := hfused
    rw [hattrs]
    simp [eval, hlhs, hw, hvalue]
  refine ⟨value, ⟨update env₂ out (some value), out, ?_, ?_, hdeclared.2,
    update_self _ _ _⟩, hshape, hget⟩
  · rw [hids, foldlM_cons, hfirst]
    show (glueIds ++ [second]).foldlM (graph.evalNode arith) env₁ = _
    rw [List.foldlM_append, hchain]
    show [second].foldlM (graph.evalNode arith) env₂ = _
    rw [foldlM_cons, evalNode_eq hnode hnode_out hproduct]
    rfl
  · rw [hids, List.getLast?_cons, List.getLast?_append]
    exact hdeclared.1

end evaluation

/-- What is there: the elements of the inputs, and those of the output. -/
def bounds (inputs : List (Tensor E)) (kernel : Kernel) : Set Place :=
  { a | (∃ tensor, inputs[a.1]? = some tensor ∧ a.2 ∈ points tensor.shape) ∨ a ∈ kernel.elements }

section bounds
variable {graph : KernelGraphIR} {inputs : List (Tensor E)} {plan : FusedKernelPlan}
  {kernel : Kernel} {first second start last : ℕ} {glueIds : List ℕ}

theorem mem_points_two {rows cols i j : ℕ} (hi : i < rows) (hj : j < cols) :
    [i, j] ∈ points [rows, cols] :=
  mem_points.2 (.cons hi (.cons hj .nil))

theorem boundary_bounds (hfits : Fits graph inputs) {operand : OperandRef} {arg rows cols i j : ℕ}
    (h : Boundary graph operand arg rows cols) (hi : i < rows) (hj : j < cols) :
    ∃ tensor, inputs[arg]? = some tensor ∧ operand.element i j ∈ points tensor.shape := by
  obtain ⟨desc, r, c, hdesc, hshape, hextents⟩ := h.shape
  obtain ⟨tensor, hinput, -, htensor⟩ := start_eq hfits h.arg hdesc
  refine ⟨tensor, hinput, ?_⟩
  rw [htensor, hshape, OperandRef.element]
  unfold OperandRef.extents at hextents
  split at hextents
  · rename_i htransposed
    cases hextents
    rw [if_pos htransposed]
    exact mem_points_two hj hi
  · rename_i hplain
    cases hextents
    rw [if_neg hplain]
    exact mem_points_two hi hj

theorem specs_other {m n1 : ℕ} {ids : List ℕ} {s s' : ℕ × List GlueSpec}
    (h : ids.foldlM (bindGlue graph m n1) s = .ok s')
    (hs : ∀ spec ∈ s.2, ∀ arg, spec.boundaryArg = some arg → ∃ other, Other graph m n1 other arg) :
    ∀ spec ∈ s'.2, ∀ arg, spec.boundaryArg = some arg → ∃ other, Other graph m n1 other arg := by
  induction ids generalizing s with
  | nil =>
    cases h
    exact hs
  | cons id ids ih =>
    rw [foldlM_cons] at h
    obtain ⟨⟨next, specs⟩, hid, h⟩ := Except.bind_eq_ok h
    obtain ⟨_, spec, -, -, rfl, hglues⟩ := glues_of_bindGlue hid
    refine ih h fun spec' hspec' arg harg => ?_
    rcases List.mem_append.1 hspec' with hspec' | hspec'
    · exact hs spec' hspec' arg harg
    · obtain rfl := List.mem_singleton.1 hspec'
      cases hglues with
      | unary _ _ => cases harg
      | left _ hother | right _ hother =>
        cases harg
        exact ⟨_, hother⟩
      | both _ hzero =>
        cases harg
        exact ⟨_, hzero⟩

/-- **Every load is in bounds.** -/
theorem reads_bounds (hfits : Fits graph inputs)
    (hemitted : Emitted graph plan kernel first second glueIds start last) {a : Place}
    (ha : kernel.Reads a) :
    ∃ tensor, inputs[a.1]? = some tensor ∧ a.2 ∈ points tensor.shape := by
  cases ha with
  | a hi hp => exact boundary_bounds hfits hemitted.a hi hp
  | b hp hj => exact boundary_bounds hfits hemitted.b hp hj
  | w hp hj => exact boundary_bounds hfits hemitted.w hp hj
  | glue hspec harg hi hj =>
    have hnone : ∀ spec ∈ ([] : List GlueSpec), ∀ arg, spec.boundaryArg = some arg →
        ∃ other, Other graph kernel.m kernel.n1 other arg := fun spec hspec => by cases hspec
    obtain ⟨other, harg, desc, hdesc, hshape⟩ := specs_other hemitted.glue hnone _ hspec _ harg
    obtain ⟨tensor, hinput, -, htensor⟩ := start_eq hfits harg hdesc
    refine ⟨tensor, hinput, ?_⟩
    rw [htensor, hshape]
    exact mem_points_two hi hj

theorem distinct (hfits : Fits graph inputs)
    (hemitted : Emitted graph plan kernel first second glueIds start last) : kernel.Distinct := by
  intro a ha
  obtain ⟨tensor, hinput, -⟩ := reads_bounds hfits hemitted ha
  have hlt : a.1 < inputs.length := (List.getElem?_eq_some_iff.1 hinput).1
  have hlength := hfits.length_eq
  have hout := hemitted.outArg
  omega

end bounds

/-- The memory holds the inputs. -/
def Loaded (inputs : List (Tensor E)) (m : Place → E) : Prop :=
  ∀ index tensor, inputs[index]? = some tensor → ∀ element ∈ points tensor.shape,
    m (index, element) = tensor.get element

variable {inputs : List (Tensor E)} {plan : FusedKernelPlan} {graph : KernelGraphIR} {m : Place → E}
  {kernel : Kernel}

theorem emitted_leaves (arith : GraphArith E) {first second start last : ℕ} {glueIds : List ℕ}
    (hemitted : Emitted graph plan kernel first second glueIds start last)
    (hfits : Fits graph inputs) (hm : Loaded inputs m) :
    GridEndsIn (fun s => kernel.Leaves (bounds inputs kernel)
      (kernel.chain arith.toArith (contents arith.toArith inputs)) m s.1 s.2)
      (kernel.launch arith.toArith, m) := by
  have hcontents : ∀ a, kernel.Reads a → m a = contents arith.toArith inputs a.1 a.2 := by
    intro a ha
    obtain ⟨tensor, hinput, hpoint⟩ := reads_bounds hfits hemitted ha
    exact (hm a.1 tensor hinput a.2 hpoint).trans (contents_eq _ hinput a.2)
  refine Ends.mono (Kernel.launch_leads (distinct hfits hemitted) hcontents) fun s h => ?_
  refine ⟨h.values, h.once, h.frame, fun block y hy => ?_⟩
  rcases h.bounds block y hy with hread | hwrite
  · exact .inl (reads_bounds hfits hemitted hread)
  · exact .inr hwrite

/-- **The kernel computes its chain**, whatever the order of its threads: the plan gives one value,
that of its last node, and the kernel stores each of its elements once, within bounds. -/
theorem emit_computes (arith : GraphArith E) {tensorCount : ℕ} {target : TargetKind}
    (hkernel : emit (some graph) plan tensorCount target = .ok kernel) (hplain : Plain graph plan)
    (hfits : Fits graph inputs) (hm : Loaded inputs m) :
    ∃ value, PlanGives arith graph plan inputs value ∧ value.shape = [kernel.m, kernel.n2] ∧
      GridEndsIn (fun s => kernel.Leaves (bounds inputs kernel) (fun i j => value.get [i, j]) m
        s.1 s.2) (kernel.launch arith.toArith, m) := by
  obtain ⟨hvalidate, hemit⟩ := Except.check_eq_ok.1 hkernel
  obtain ⟨_, _, _, _, hvalid⟩ := validated_of_validate hvalidate
  obtain ⟨_, _, _, _, _, hemitted⟩ := emitted_of_emit hemit
  obtain ⟨rfl, rfl, hids⟩ := nodeIds_eq hplain hvalid hemitted
  obtain ⟨value, hgives, hshape, hget⟩ :=
    evaluates arith hplain hfits hemitted hids hvalid.products
  refine ⟨value, hgives, hshape, Ends.mono (emitted_leaves arith hemitted hfits hm) fun s h => ?_⟩
  exact ⟨fun i hi j hj => (h.values i hi j hj).trans (hget i j).symm, h.once, h.frame, h.bounds⟩

/-- A product with a matrix added to it, and one more product. The tiles go over both edges. -/
def shifted : KernelGraphIR where
  values := [⟨.float32, [20, 3], .input, none, [0]⟩, ⟨.float32, [3, 2], .input, none, [0]⟩,
    ⟨.float32, [20, 2], .input, none, [1]⟩, ⟨.float32, [2, 17], .input, none, [2]⟩,
    ⟨.float32, [20, 2], .intermediate, some 0, [1]⟩,
    ⟨.float32, [20, 2], .intermediate, some 1, [2]⟩, ⟨.float32, [20, 17], .output, some 2, []⟩]
  nodes := [⟨0, .matmul, [0, 1], [4], .matmul ⟨0, false⟩ ⟨1, false⟩⟩,
    ⟨1, .elementwise, [2, 4], [5], .elementwise .add [2, 4]⟩,
    ⟨2, .matmul, [5, 3], [6], .matmul ⟨5, false⟩ ⟨3, false⟩⟩]
  inputValues := [0, 1, 2, 3]
  outputValues := [6]
  topoOrder := [0, 1, 2]

/-- The same with the product added to itself, of matrices of one element. -/
def doubled : KernelGraphIR where
  values := [⟨.float32, [1, 1], .input, none, [0]⟩, ⟨.float32, [1, 1], .input, none, [0]⟩,
    ⟨.float32, [1, 1], .input, none, [2]⟩, ⟨.float32, [1, 1], .intermediate, some 0, [1]⟩,
    ⟨.float32, [1, 1], .intermediate, some 1, [2]⟩, ⟨.float32, [1, 1], .output, some 2, []⟩]
  nodes := [⟨0, .matmul, [0, 1], [3], .matmul ⟨0, false⟩ ⟨1, false⟩⟩,
    ⟨1, .elementwise, [3, 3], [4], .elementwise .add [3, 3]⟩,
    ⟨2, .matmul, [4, 2], [5], .matmul ⟨4, false⟩ ⟨2, false⟩⟩]
  inputValues := [0, 1, 2]
  outputValues := [5]
  topoOrder := [0, 1, 2]

def examplePlan (out : ℕ) : FusedKernelPlan := ⟨[0, 1, 2], [out], ⟨16, 16, 16, 256⟩⟩

def shiftedKernel : Kernel :=
  ⟨0, 1, 3, 4, ⟨0, false⟩, ⟨1, false⟩, ⟨3, false⟩, 20, 3, 2, 17, [⟨.add, some 2, 1⟩]⟩

def doubledKernel : Kernel :=
  ⟨0, 1, 2, 3, ⟨0, false⟩, ⟨1, false⟩, ⟨2, false⟩, 1, 1, 1, 1, [⟨.add, some 0, 1⟩]⟩

/-- A matrix of one element. -/
def single (x : ℝ) : Tensor ℝ := ⟨[1, 1], fun _ => x⟩

/-- A matrix whose elements differ along both of its dimensions. -/
def ramp (rows columns : ℕ) : Tensor ℝ := ⟨[rows, columns], fun key => key.sum⟩

def shiftedInputs : List (Tensor ℝ) := [ramp 20 3, ramp 3 2, ramp 20 2, ramp 2 17]

/-- A memory that holds the inputs. -/
noncomputable def memoryOf (inputs : List (Tensor ℝ)) (a : Place) : ℝ :=
  contents realArith.toArith inputs a.1 a.2

theorem loaded_memoryOf (inputs : List (Tensor ℝ)) : Loaded inputs (memoryOf inputs) :=
  fun _ _ hinput element _ => (contents_eq realArith hinput element).symm

theorem emit_shifted :
    emit (some shifted) (examplePlan 6) 5 .nvidiaDGPU = .ok shiftedKernel := rfl

theorem plain_shifted : Plain shifted (examplePlan 6) where
  once := by decide
  fresh := by decide
  sides := by
    intro id hid node kind v hnode hattrs
    have hid : id = 0 ∨ id = 1 ∨ id = 2 := by simpa [examplePlan] using hid
    rcases hid with rfl | rfl | rfl <;> cases hnode <;> cases hattrs
  declared := by
    intro out hout
    cases hout
    rfl

theorem shifted_computes : ∃ value,
    PlanGives realArith shifted (examplePlan 6) shiftedInputs value ∧
      value.shape = [20, 17] ∧ GridEndsIn (fun s => shiftedKernel.Leaves
        (bounds shiftedInputs shiftedKernel) (fun i j => value.get [i, j])
        (memoryOf shiftedInputs) s.1 s.2)
        (shiftedKernel.launch realArith.toArith, memoryOf shiftedInputs) :=
  emit_computes realArith emit_shifted plain_shifted
    (.cons ⟨_, rfl, rfl⟩ (.cons ⟨_, rfl, rfl⟩ (.cons ⟨_, rfl, rfl⟩ (.cons ⟨_, rfl, rfl⟩ .nil))))
    (loaded_memoryOf _)

/-- The product is added to the first input: the kernel gives three where the plan gives four. -/
theorem doubled_fails : emit (some doubled) (examplePlan 5) 4 .nvidiaDGPU = .ok doubledKernel ∧
    ∃ value, PlanGives realArith doubled (examplePlan 5) [single 1, single 2, single 1] value ∧
      value.get [0, 0] = 4 ∧ ¬ GridEndsIn (fun s => doubledKernel.Leaves
        (bounds [single 1, single 2, single 1] doubledKernel) (fun i j => value.get [i, j])
        (memoryOf [single 1, single 2, single 1]) s.1 s.2)
        (doubledKernel.launch realArith.toArith, memoryOf [single 1, single 2, single 1]) := by
  have hemit : emitFamilyB doubled (examplePlan 5) 4 = .ok doubledKernel := rfl
  have hfits : Fits doubled [single 1, single 2, single 1] :=
    .cons ⟨_, rfl, rfl⟩ (.cons ⟨_, rfl, rfl⟩ (.cons ⟨_, rfl, rfl⟩ .nil))
  obtain ⟨_, _, _, _, _, hemitted⟩ := emitted_of_emit hemit
  have hthree : doubledKernel.chain realArith.toArith
      (contents realArith.toArith [single 1, single 2, single 1]) 0 0 = 3 := by
    norm_num [Kernel.chain, Kernel.fused, Kernel.product, contraction, GlueSpec.apply,
      doubledKernel, realArith, realElementwise, contents, single]
  refine ⟨rfl, _, ⟨_, 5, rfl, rfl, rfl, rfl⟩, ?_, fun h => ?_⟩
  · norm_num [contraction, realArith, realElementwise, single]
  · have hrun := emitted_leaves realArith hemitted hfits (loaded_memoryOf _)
    obtain ⟨s, hplan, hkernel⟩ := h.agree hrun fun s s' hdone hstep => hstep.not_done hdone
    have hfour := hplan.values 0 one_pos 0 one_pos
    rw [hkernel.values 0 one_pos 0 one_pos, hthree] at hfour
    norm_num [contraction, realArith, realElementwise, single] at hfour

end FamilyB

end Matcore.Engine
