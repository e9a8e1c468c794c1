import Matcore.Engine.FamilyB
import Matcore.Lib.Except

/-!
# Plans of two products that are accepted

What is known of a plan when a kernel is built from it, and what its nodes give one by one.
-/

namespace Matcore.Engine.FamilyB

open List (mem_pair foldlM_cons mem_cons_self foldlM_append)
open Except (check_eq_ok bind_eq_ok ok)

/-- An operand of a product that is an argument of the kernel. -/
structure Boundary (graph : KernelGraphIR) (operand : OperandRef) (arg rows cols : ℕ) : Prop where
  arg : graph.findInputArgIndex operand.valueId = some arg
  shape : ∃ desc r c, graph.values[operand.valueId]? = some desc ∧ desc.shape = [r, c] ∧
    operand.extents r c = (rows, cols)

/-- What the kernel is built from. -/
structure Emitted (graph : KernelGraphIR) (plan : FusedKernelPlan) (kernel : Kernel)
    (first second : ℕ) (glueIds : List ℕ) (start last : ℕ) : Prop where
  found : findNodes graph plan.nodeIds = .ok ⟨some first, some second, glueIds⟩
  first_node : ∃ node, graph.nodes[first]? = some node ∧
    node.attrs = .matmul kernel.a kernel.b ∧ node.outputs.head? = some start
  second_node : ∃ node out, graph.nodes[second]? = some node ∧
    node.attrs = .matmul ⟨last, false⟩ kernel.w ∧ plan.outValueId node = .ok out
  a : Boundary graph kernel.a kernel.aArg kernel.m kernel.k1
  b : Boundary graph kernel.b kernel.bArg kernel.k1 kernel.n1
  w : Boundary graph kernel.w kernel.wArg kernel.n1 kernel.n2
  glue : glueIds.foldlM (bindGlue graph kernel.m kernel.n1) (start, []) = .ok (last, kernel.glue)
  binary : ∀ spec ∈ kernel.glue, spec.boundaryArg ≠ none → isUnaryOp spec.kind = false
  outArg : kernel.outArg = graph.inputValues.length

theorem rank2_eq_ok {desc : TensorDesc} {rows cols : ℕ} :
    rank2 desc = .ok (rows, cols) ↔ desc.shape = [rows, cols] := by
  unfold rank2 failFusion
  split <;> simp_all

variable {graph : KernelGraphIR} {plan : FusedKernelPlan} {kernel : Kernel}

theorem emitted_of_emit {tensorCount : ℕ} (h : emitFamilyB graph plan tensorCount = .ok kernel) :
    ∃ first second glueIds start last,
      Emitted graph plan kernel first second glueIds start last := by
  unfold emitFamilyB at h
  obtain ⟨-, h⟩ := check_eq_ok.1 h
  obtain ⟨⟨first, second, glueIds⟩, hfound, h⟩ := bind_eq_ok h
  split at h
  · rename_i first second hfirst hsecond
    obtain ⟨mm0, hmm0, h⟩ := bind_eq_ok h
    obtain ⟨mm1, hmm1, h⟩ := bind_eq_ok h
    obtain ⟨⟨a, b⟩, hattrs0, h⟩ := bind_eq_ok h
    obtain ⟨⟨lhs, w⟩, hattrs1, h⟩ := bind_eq_ok h
    obtain ⟨aDesc, haDesc, h⟩ := bind_eq_ok h
    obtain ⟨bDesc, hbDesc, h⟩ := bind_eq_ok h
    obtain ⟨lhsDesc, -, h⟩ := bind_eq_ok h
    obtain ⟨wDesc, hwDesc, h⟩ := bind_eq_ok h
    obtain ⟨aShape, haShape, h⟩ := bind_eq_ok h
    obtain ⟨bShape, hbShape, h⟩ := bind_eq_ok h
    obtain ⟨lhsShape, -, h⟩ := bind_eq_ok h
    obtain ⟨wShape, hwShape, h⟩ := bind_eq_ok h
    obtain ⟨hinner, h⟩ := check_eq_ok.1 h
    obtain ⟨houter, h⟩ := check_eq_ok.1 h
    obtain ⟨hlhs, h⟩ := check_eq_ok.1 h
    obtain ⟨out, hout, h⟩ := bind_eq_ok h
    obtain ⟨outDesc, -, h⟩ := bind_eq_ok h
    obtain ⟨-, h⟩ := check_eq_ok.1 h
    obtain ⟨start, hstart, h⟩ := bind_eq_ok h
    obtain ⟨⟨last, glue⟩, hglue, h⟩ := bind_eq_ok h
    obtain ⟨hlast, h⟩ := check_eq_ok.1 h
    obtain ⟨-, h⟩ := check_eq_ok.1 h
    split at h
    · rename_i aArg bArg wArg haArg hbArg hwArg
      obtain ⟨hbinary, h⟩ := check_eq_ok.1 h
      cases h
      cases hfirst
      cases hsecond
      obtain ⟨lhsId, lhsTransposed⟩ := lhs
      obtain rfl : lhsTransposed = false := requireThat_eq_ok.1 hlhs
      obtain rfl : last = lhsId := requireThat_eq_ok.1 hlast
      have hinner := requireThat_eq_ok.1 hinner
      have houter := requireThat_eq_ok.1 houter
      refine ⟨first, second, glueIds, start, last, hfound,
        ⟨mm0, atIndex_eq_ok.1 hmm0, matmulAttrs_eq_ok.1 hattrs0, front_eq_ok.1 hstart⟩,
        ⟨mm1, out, atIndex_eq_ok.1 hmm1, matmulAttrs_eq_ok.1 hattrs1, hout⟩,
        ⟨haArg, aDesc, _, _, atIndex_eq_ok.1 haDesc, rank2_eq_ok.1 haShape, rfl⟩,
        ⟨hbArg, bDesc, _, _, atIndex_eq_ok.1 hbDesc, rank2_eq_ok.1 hbShape, ?_⟩,
        ⟨hwArg, wDesc, _, _, atIndex_eq_ok.1 hwDesc, rank2_eq_ok.1 hwShape, ?_⟩,
        hglue, requireThat_eq_ok.1 hbinary, rfl⟩
      · exact Prod.ext hinner.symm rfl
      · exact Prod.ext (houter.2.2.symm.trans houter.2.1) rfl
    · cases h
  · cases h

/-- The other operand of a node is an argument of the kernel. -/
def Other (graph : KernelGraphIR) (m n1 other arg : ℕ) : Prop :=
  graph.findInputArgIndex other = some arg ∧
    ∃ desc, graph.values[other]? = some desc ∧ desc.shape = [m, n1]

/-- How the operands of a node are told apart. The last case takes value zero for the operand that
is the running value too. -/
inductive Glues (graph : KernelGraphIR) (m n1 current : ℕ) (node : KernelNode) :
    GlueSpec → Prop where
  | unary {kind : ElementwiseKind} (hattrs : node.attrs = .elementwise kind [current])
      (hkind : isUnaryOp kind = true ∧ kind ≠ .softmax) :
      Glues graph m n1 current node ⟨kind, none, 0⟩
  | left {kind : ElementwiseKind} {other arg : ℕ}
      (hattrs : node.attrs = .elementwise kind [current, other])
      (hother : Other graph m n1 other arg) :
      Glues graph m n1 current node ⟨kind, some arg, 0⟩
  | right {kind : ElementwiseKind} {other arg : ℕ}
      (hattrs : node.attrs = .elementwise kind [other, current])
      (hother : Other graph m n1 other arg) :
      Glues graph m n1 current node ⟨kind, some arg, 1⟩
  | both {kind : ElementwiseKind} {arg : ℕ}
      (hattrs : node.attrs = .elementwise kind [current, current])
      (hzero : Other graph m n1 0 arg) :
      Glues graph m n1 current node ⟨kind, some arg, 1⟩

variable {current : ℕ} {m n1 : ℕ} {kind : ElementwiseKind} {node : KernelNode}

theorem Glues.inputs {spec : GlueSpec} (h : Glues graph m n1 current node spec) {inputs : List ℕ}
    (hattrs : node.attrs = .elementwise kind inputs) :
    ∀ v ∈ inputs, v = current ∨ v ∈ graph.inputValues := by
  intro v hv
  cases h with
  | unary hunary hkind =>
    rw [hunary] at hattrs
    cases hattrs
    exact .inl (List.mem_singleton.1 hv)
  | left hleft hother =>
    rw [hleft] at hattrs
    cases hattrs
    rcases mem_pair.1 hv with rfl | rfl
    · exact .inl rfl
    · exact .inr (mem_of_findInputArgIndex hother.1)
  | right hright hother =>
    rw [hright] at hattrs
    cases hattrs
    rcases mem_pair.1 hv with rfl | rfl
    · exact .inr (mem_of_findInputArgIndex hother.1)
    · exact .inl rfl
  | both hboth _ =>
    rw [hboth] at hattrs
    cases hattrs
    rcases mem_pair.1 hv with rfl | rfl
    · exact .inl rfl
    · exact .inl rfl

theorem elementwiseAttrs_eq_ok {inputs : List ℕ} :
    elementwiseAttrs node = .ok (kind, inputs) ↔ node.attrs = .elementwise kind inputs := by
  unfold elementwiseAttrs
  split <;> simp_all

theorem bindOperands_eq {lhs rhs pos other : ℕ}
    (h : bindOperands current [lhs, rhs] = (some pos, other)) :
    lhs = current ∧ other = rhs ∧ pos = 0 ∨ rhs = current ∧ other = lhs ∧ pos = 1 ∨
      lhs = current ∧ rhs = current ∧ other = 0 ∧ pos = 1 := by
  by_cases hl : lhs = current
  · by_cases hr : rhs = current
    · simp [bindOperands, hl, hr] at h
      exact .inr (.inr ⟨hl, hr, h.2.symm, h.1.symm⟩)
    · simp [bindOperands, hl, hr] at h
      exact .inl ⟨hl, h.2.symm, h.1.symm⟩
  · by_cases hr : rhs = current
    · simp [bindOperands, hl, hr] at h
      exact .inr (.inl ⟨hr, h.2.symm, h.1.symm⟩)
    · simp [bindOperands, hl, hr] at h

theorem glues_of_bindGlue {id next : ℕ} {specs specs' : List GlueSpec}
    (h : bindGlue graph m n1 (current, specs) id = .ok (next, specs')) :
    ∃ node spec, graph.nodes[id]? = some node ∧ node.outputs.head? = some next ∧
      specs' = specs ++ [spec] ∧ Glues graph m n1 current node spec := by
  unfold bindGlue at h
  obtain ⟨node, hnode, h⟩ := bind_eq_ok h
  obtain ⟨-, h⟩ := check_eq_ok.1 h
  obtain ⟨-, h⟩ := check_eq_ok.1 h
  obtain ⟨⟨kind, inputs⟩, hattrs, h⟩ := bind_eq_ok h
  obtain ⟨output, houtput, h⟩ := bind_eq_ok h
  have hnode := atIndex_eq_ok.1 hnode
  have hattrs := elementwiseAttrs_eq_ok.1 hattrs
  have houtput := front_eq_ok.1 houtput
  split at h
  · rename_i input hinputs
    obtain rfl : inputs = [input] := hinputs
    obtain ⟨hinput, h⟩ := check_eq_ok.1 h
    obtain ⟨hkind, h⟩ := check_eq_ok.1 h
    cases h
    obtain rfl : input = current := requireThat_eq_ok.1 hinput
    exact ⟨node, _, hnode, houtput, rfl, .unary hattrs (requireThat_eq_ok.1 hkind)⟩
  · rename_i lhs rhs hinputs
    obtain rfl : inputs = [lhs, rhs] := hinputs
    split at h
    · cases h
    · rename_i pos boundary hbind
      split at h
      · cases h
      · rename_i arg harg
        obtain ⟨desc, hdesc, h⟩ := bind_eq_ok h
        obtain ⟨hshape, h⟩ := check_eq_ok.1 h
        cases h
        have hother : Other graph m n1 boundary arg :=
          ⟨harg, desc, atIndex_eq_ok.1 hdesc, requireThat_eq_ok.1 hshape⟩
        refine ⟨node, _, hnode, houtput, rfl, ?_⟩
        rcases bindOperands_eq hbind with ⟨rfl, rfl, rfl⟩ | ⟨rfl, rfl, rfl⟩ | ⟨rfl, rfl, rfl, rfl⟩
        · exact .left hattrs hother
        · exact .right hattrs hother
        · exact .both hattrs hother
  · cases h

/-- Plans whose kernels do what their nodes do: each value is made once, no node takes one value on
both sides, and the value that is declared is that of the second product. -/
structure Plain (graph : KernelGraphIR) (plan : FusedKernelPlan) : Prop where
  once : (plan.nodeIds.filterMap graph.output).Nodup
  fresh : ∀ v ∈ plan.nodeIds.filterMap graph.output, v ∉ graph.inputValues
  sides : ∀ id ∈ plan.nodeIds, ∀ node kind v, graph.nodes[id]? = some node →
    node.attrs ≠ .elementwise kind [v, v]
  declared : ∀ out, plan.outputValueIds.head? = some out →
    (nodesOfKind graph .matmul plan.nodeIds).getLast?.bind graph.output = some out

/-- The kind of a node. -/
def kindOf (graph : KernelGraphIR) (id : ℕ) : Option OpKind := (graph.nodes[id]?).map (·.kind)

variable {first second : ℕ} {ids : List ℕ}

theorem nodesOfKind_eq {kind : OpKind} (h : nodesOfKind graph kind ids = [first, second]) :
    ∃ pre mid post, ids = pre ++ first :: (mid ++ second :: post) ∧
      kindOf graph first = some kind ∧ kindOf graph second = some kind ∧
      (∀ id ∈ pre, kindOf graph id ≠ some kind) ∧ (∀ id ∈ mid, kindOf graph id ≠ some kind) ∧
      ∀ id ∈ post, kindOf graph id ≠ some kind := by
  obtain ⟨pre, rest, rfl, hpre, hfirst, hrest⟩ := List.filter_eq_cons_iff.1 h
  obtain ⟨mid, post, rfl, hmid, hsecond, hpost⟩ := List.filter_eq_cons_iff.1 hrest
  have hpost := List.filter_eq_nil_iff.1 hpost
  simp only [decide_eq_true_eq] at *
  exact ⟨pre, mid, post, rfl, hfirst, hsecond, hpre, hmid, hpost⟩

section find
variable {graph : KernelGraphIR} {ids : List ℕ} {found found' : Found}

theorem find_others (hids : ∀ id ∈ ids, kindOf graph id ≠ some .matmul)
    (h : ids.foldlM (fun found id => do
      let node ← atIndex graph.nodes id
      return found.add id node) found = .ok found') :
    found' = if found.first ≠ none ∧ found.second = none then
      { found with glue := found.glue ++ ids } else found := by
  induction ids generalizing found with
  | nil =>
    cases h
    simp
  | cons id ids ih =>
    rw [foldlM_cons] at h
    obtain ⟨_, hid, h⟩ := bind_eq_ok h
    obtain ⟨node, hnode, hid⟩ := bind_eq_ok hid
    cases hid
    have hkind : node.kind ≠ .matmul := fun hkind =>
      hids id mem_cons_self (by simp [kindOf, atIndex_eq_ok.1 hnode, hkind])
    rw [ih (fun id hid => hids id (List.mem_cons_of_mem _ hid)) h, Found.add, if_neg hkind]
    by_cases hbetween : found.first ≠ none ∧ found.second = none
    · rw [if_pos hbetween, if_pos hbetween, if_pos hbetween, List.append_assoc]
      rfl
    · rw [if_neg hbetween, if_neg hbetween, if_neg hbetween]

theorem find_product {id : ℕ} (hid : kindOf graph id = some .matmul) (h : (do
      let node ← atIndex graph.nodes id
      return found.add id node) = ok (ε := String) found') :
    found' = if found.first = none then { found with first := some id }
      else { found with second := some id } := by
  obtain ⟨node, hnode, h⟩ := bind_eq_ok h
  cases h
  have hkind : node.kind = .matmul := by
    rw [kindOf, atIndex_eq_ok.1 hnode] at hid
    exact Option.some.inj hid
  rw [Found.add, if_pos hkind]

theorem findNodes_eq {first second : ℕ} {pre mid post : List ℕ}
    (hfirst : kindOf graph first = some .matmul) (hsecond : kindOf graph second = some .matmul)
    (hpre : ∀ id ∈ pre, kindOf graph id ≠ some .matmul)
    (hmid : ∀ id ∈ mid, kindOf graph id ≠ some .matmul)
    (hpost : ∀ id ∈ post, kindOf graph id ≠ some .matmul)
    (h : findNodes graph (pre ++ first :: (mid ++ second :: post)) = .ok found) :
    found = ⟨some first, some second, mid⟩ := by
  unfold findNodes at h
  rw [foldlM_append] at h
  obtain ⟨_, hfound, h⟩ := bind_eq_ok h
  obtain rfl := find_others hpre hfound
  rw [foldlM_cons] at h
  obtain ⟨_, hfound, h⟩ := bind_eq_ok h
  obtain rfl := find_product hfirst hfound
  rw [foldlM_append] at h
  obtain ⟨_, hfound, h⟩ := bind_eq_ok h
  obtain rfl := find_others hmid hfound
  rw [foldlM_cons] at h
  obtain ⟨_, hfound, h⟩ := bind_eq_ok h
  obtain rfl := find_product hsecond hfound
  have hfound := find_others hpost h
  simpa using hfound

end find

/-- What the check of a plan says about the order of its nodes. -/
structure Validated (graph : KernelGraphIR) (plan : FusedKernelPlan)
    (first second start last : ℕ) : Prop where
  products : nodesOfKind graph .matmul plan.nodeIds = [first, second]
  starts : graph.output first = some start
  ends : ∃ node rhs, graph.nodes[second]? = some node ∧ node.attrs = .matmul ⟨last, false⟩ rhs
  chain : plan.nodeIds.foldlM (validateGlue graph first second) start = .ok last

theorem validated_of_validate {target : TargetKind} (h : validateFamilyB graph plan target = .ok ()) :
    ∃ first second start last, Validated graph plan first second start last := by
  unfold validateFamilyB at h
  obtain ⟨-, h⟩ := check_eq_ok.1 h
  obtain ⟨-, h⟩ := check_eq_ok.1 h
  obtain ⟨-, h⟩ := check_eq_ok.1 h
  split at h
  · rename_i first second hproducts _
    obtain ⟨mm0, hmm0, h⟩ := bind_eq_ok h
    obtain ⟨mm1, hmm1, h⟩ := bind_eq_ok h
    obtain ⟨_, -, h⟩ := bind_eq_ok h
    obtain ⟨⟨⟨lhsId, lhsTransposed⟩, rhs⟩, hattrs1, h⟩ := bind_eq_ok h
    obtain ⟨-, h⟩ := check_eq_ok.1 h
    obtain ⟨hlhs, h⟩ := check_eq_ok.1 h
    obtain ⟨start, hstart, h⟩ := bind_eq_ok h
    obtain ⟨last, hchain, h⟩ := bind_eq_ok h
    obtain rfl : lhsTransposed = false := requireThat_eq_ok.1 hlhs
    obtain rfl : last = lhsId := requireThat_eq_ok.1 h
    refine ⟨first, second, start, last, hproducts, ?_,
      ⟨mm1, rhs, atIndex_eq_ok.1 hmm1, matmulAttrs_eq_ok.1 hattrs1⟩, hchain⟩
    have houtput : mm0.outputs.head? = some start := by
      unfold requireSingleOutput at hstart
      split at hstart
      · rename_i output houtput
        cases hstart
        rw [houtput]
        rfl
      · cases hstart
    rw [KernelGraphIR.output, atIndex_eq_ok.1 hmm0]
    exact houtput
  · cases h

section chain
variable {graph : KernelGraphIR} {first second current next id : ℕ}

theorem validateGlue_skip (hid : id = first ∨ id = second)
    (h : validateGlue graph first second current id = .ok next) : next = current := by
  rw [validateGlue, if_pos hid] at h
  exact (ok.inj h).symm

theorem validateGlue_eq_ok (hid : ¬ (id = first ∨ id = second))
    (h : validateGlue graph first second current id = .ok next) :
    (∃ node kind inputs, graph.nodes[id]? = some node ∧ node.attrs = .elementwise kind inputs ∧
      current ∈ inputs) ∧ graph.output id = some next := by
  rw [validateGlue, if_neg hid] at h
  obtain ⟨glue, hglue, h⟩ := bind_eq_ok h
  obtain ⟨⟨kind, inputs⟩, hattrs, h⟩ := bind_eq_ok h
  obtain ⟨-, h⟩ := check_eq_ok.1 h
  obtain ⟨hcurrent, h⟩ := check_eq_ok.1 h
  have hglue := atIndex_eq_ok.1 hglue
  refine ⟨⟨glue, kind, inputs, hglue, elementwiseAttrs_eq_ok.1 hattrs,
    requireThat_eq_ok.1 hcurrent⟩, ?_⟩
  unfold requireSingleOutput at h
  split at h
  · rename_i output houtput
    cases h
    rw [KernelGraphIR.output, hglue]
    exact congrArg List.head? houtput
  · cases h

theorem validateGlue_split {pre mid post : List ℕ} {start last : ℕ}
    (h : (pre ++ first :: (mid ++ second :: post)).foldlM (validateGlue graph first second) start =
      .ok last) :
    ∃ current behind, pre.foldlM (validateGlue graph first second) start = .ok current ∧
      mid.foldlM (validateGlue graph first second) current = .ok behind ∧
      post.foldlM (validateGlue graph first second) behind = .ok last := by
  rw [foldlM_append] at h
  obtain ⟨current, hpre, h⟩ := bind_eq_ok h
  rw [foldlM_cons] at h
  obtain ⟨current', hfirst, h⟩ := bind_eq_ok h
  rw [validateGlue_skip (.inl rfl) hfirst, foldlM_append] at h
  obtain ⟨behind, hmid, h⟩ := bind_eq_ok h
  rw [foldlM_cons] at h
  obtain ⟨behind', hsecond, h⟩ := bind_eq_ok h
  rw [validateGlue_skip (.inr rfl) hsecond] at h
  exact ⟨current, behind, hpre, hmid, h⟩

theorem output_of_foldlM {σ : Type} {f : σ → ℕ → Except String σ} (value : σ → ℕ)
    (hf : ∀ s s', ∀ id ∈ ids, f s id = .ok s' → graph.output id = some (value s')) {s s' : σ}
    (h : ids.foldlM f s = .ok s') :
    ids = [] ∧ s' = s ∨ value s' ∈ ids.filterMap graph.output := by
  induction ids generalizing s with
  | nil => exact .inl ⟨rfl, (ok.inj h).symm⟩
  | cons id ids ih =>
    rw [foldlM_cons] at h
    obtain ⟨t, hid, h⟩ := bind_eq_ok h
    have houtput := hf s t id mem_cons_self hid
    rw [List.filterMap_cons_some houtput, List.mem_cons]
    rcases ih (fun s s' id hid => hf s s' id (List.mem_cons_of_mem _ hid)) h with ⟨-, rfl⟩ | hmem
    · exact .inr (.inl rfl)
    · exact .inr (.inr hmem)

end chain

/-- A plan is a product, its chain and a product, in this order. -/
theorem nodeIds_eq {first' second' : ℕ} {glueIds : List ℕ} {start last start' last' : ℕ}
    (hplain : Plain graph plan) (hvalid : Validated graph plan first second start last)
    (hemitted : Emitted graph plan kernel first' second' glueIds start' last') :
    first' = first ∧ second' = second ∧ plan.nodeIds = first :: (glueIds ++ [second]) := by
  obtain ⟨pre, mid, post, hids, hfirst, hsecond, hpre, hmid, hpost⟩ :=
    nodesOfKind_eq hvalid.products
  have hfound := hemitted.found
  rw [hids] at hfound
  have hfound := findNodes_eq hfirst hsecond hpre hmid hpost hfound
  simp only [Found.mk.injEq, Option.some.injEq] at hfound
  obtain ⟨rfl, rfl, rfl⟩ := hfound
  refine ⟨rfl, rfl, ?_⟩
  have hother : ∀ ids : List ℕ, (∀ id ∈ ids, kindOf graph id ≠ some .matmul) → ∀ id ∈ ids,
      ¬ (id = first' ∨ id = second') := by
    rintro ids hnone id hid (rfl | rfl)
    · exact hnone _ hid hfirst
    · exact hnone _ hid hsecond
  -- both chains start and end with the same values
  obtain rfl : start' = start := by
    obtain ⟨node, hnode, -, houtput⟩ := hemitted.first_node
    have hstart := hvalid.starts
    rw [KernelGraphIR.output, hnode] at hstart
    exact Option.some.inj (houtput.symm.trans hstart)
  obtain rfl : last' = last := by
    obtain ⟨node, _, hnode, hattrs, -⟩ := hemitted.second_node
    obtain ⟨node', _, hnode', hattrs'⟩ := hvalid.ends
    obtain rfl : node = node' := Option.some.inj (hnode.symm.trans hnode')
    rw [hattrs] at hattrs'
    simp only [NodeAttrs.matmul.injEq, OperandRef.mk.injEq] at hattrs'
    exact hattrs'.1.1
  have honce := hplain.once
  have hfresh := hplain.fresh
  have hchain := hvalid.chain
  rw [hids] at honce hfresh hchain
  rw [List.filterMap_append, List.filterMap_cons_some hvalid.starts, List.filterMap_append,
    List.nodup_append, List.nodup_cons, List.nodup_append] at honce
  obtain ⟨-, ⟨hstart, -, -, hapart⟩, hbefore⟩ := honce
  have hglue := hemitted.glue
  have hbuilt := output_of_foldlM Prod.fst (fun s s' id _ hid => by
    obtain ⟨node, _, hnode, houtput, -⟩ := glues_of_bindGlue hid
    rw [KernelGraphIR.output, hnode]
    exact houtput) hglue
  obtain ⟨current, behind, hpre_chain, hmid_chain, hpost_chain⟩ := validateGlue_split hchain
  have hstep : ∀ ids : List ℕ, (∀ id ∈ ids, kindOf graph id ≠ some .matmul) →
      ∀ s s', ∀ id ∈ ids, validateGlue graph first' second' s id = .ok s' →
        graph.output id = some s' := fun ids hnone s s' id hid h =>
    (validateGlue_eq_ok (hother ids hnone id hid) h).2
  -- a node behind the second product would make the last value of the chain again
  have hpost_nil : post = [] := by
    rcases output_of_foldlM (fun v => v) (hstep post hpost) hpost_chain with ⟨hnil, -⟩ | hmem
    · exact hnil
    · exfalso
      have hmem : last' ∈ (second' :: post).filterMap graph.output :=
        ((List.sublist_cons_self second' post).filterMap graph.output).subset hmem
      rcases hbuilt with ⟨-, hlast⟩ | hmem'
      · obtain rfl : last' = start' := congrArg Prod.fst hlast
        exact hstart (List.mem_append_right _ hmem)
      · exact hapart _ hmem' _ hmem rfl
  subst hpost_nil
  obtain rfl : last' = behind := (ok.inj hpost_chain).symm
  -- a node in front of the first product would make the first value of the chain
  have hpre_nil : pre = [] := by
    rcases output_of_foldlM (fun v => v) (hstep pre hpre) hpre_chain with ⟨hnil, -⟩ | hmem
    · exact hnil
    · exfalso
      have hne : current ≠ start' := hbefore current hmem start' mem_cons_self
      cases glueIds with
      | nil =>
        have hcurrent : current = last' := ok.inj hmid_chain
        have hlast : start' = last' := congrArg Prod.fst (ok.inj hglue)
        exact hne (hcurrent.trans hlast.symm)
      | cons id rest =>
        rw [foldlM_cons] at hmid_chain hglue
        obtain ⟨_, hid, -⟩ := bind_eq_ok hmid_chain
        obtain ⟨⟨next, specs⟩, hid', -⟩ := bind_eq_ok hglue
        obtain ⟨⟨node, kind, inputs, hnode, hattrs, hcurrent⟩, -⟩ :=
          validateGlue_eq_ok (hother _ hmid id mem_cons_self) hid
        obtain ⟨node', _, hnode', -, -, hglues⟩ := glues_of_bindGlue hid'
        obtain rfl : node = node' := Option.some.inj (hnode.symm.trans hnode')
        rcases hglues.inputs hattrs current hcurrent with heq | hinput
        · exact hne heq
        · refine hfresh current ?_ hinput
          rw [List.filterMap_append]
          exact List.mem_append_left _ hmem
  rw [hids, hpre_nil]
  rfl

end Matcore.Engine.FamilyB
