import Matcore.ClosedRegion.Path
import Matcore.Proof.ModuleIdentity

/-!
# What the checks of a block say about its tokens

One turn of the loop, with the branches of a `shape_if` (`Branches`).
-/

namespace Matcore.ClosedRegion

open Bool (and_eq_true)
open Except (bind_eq_ok then_eq_ok)
open Mlir (Value Regions)
open Option (isNone_iff_eq_none)

variable {files : List SourceFile} {branch : Bool} {depth : ℕ} {op : Op} {ops : Ops}
variable {regions : Regions OpName Ty} {s s' after : BlockState} {f : Frame}

theorem tokens_append (l l' : List Cell) : tokens (l ++ l') = tokens l ++ tokens l' := by
  simp [tokens]

theorem read_cons (v : Value) (vs : List Value) : f.read (v :: vs) = f.read [v] ++ f.read vs := by
  cases h : f.cells[v]? <;> simp [Frame.read, h]

/-- The cells of a frame have the types of the values in scope. -/
def Typed (scope : Definitions) (f : Frame) : Prop :=
  f.cells.map (·.type) = scope.map (·.type)

variable {scope : Definitions}

theorem Typed.type (h : Typed scope f) (v : Value) : (f.cells[v]?).map (·.type) = scope.type v := by
  have hget := congrArg (fun l : List Ty => l[v]?) h
  simpa [Mlir.Scope.type] using hget

theorem tokens_other (h : Typed scope f) {vs : List Value}
    (hvs : ∀ v ∈ vs, scope.type v ≠ some .order) : tokens (f.read vs) = [] := by
  unfold tokens Frame.read
  rw [List.map_eq_nil_iff, List.filter_eq_nil_iff]
  intro c hc
  obtain ⟨v, hv, hcell⟩ := List.mem_filterMap.1 hc
  have htype := h.type v
  rw [hcell] at htype
  have hne := hvs v hv
  rw [← htype] at hne
  simpa using hne

theorem tokens_live (h : Typed scope f) {order : Value} {t : ℕ}
    (hcell : f.cells[order]? = some ⟨.order, t⟩) {vs : List Value}
    (hvs : ∀ v ∈ vs, scope.type v ≠ some .order) : tokens (f.read (order :: vs)) = [t] := by
  rw [read_cons, tokens_append, tokens_other h hvs]
  simp [Frame.read, hcell, tokens]

theorem types_newCells (next : ℕ) (types : List Ty) :
    (newCells next types).map (·.type) = types := by
  induction types generalizing next with
  | nil => rfl
  | cons type rest ih => rw [newCells, List.map_cons, ih]

theorem length_newCells (next : ℕ) (types : List Ty) :
    (newCells next types).length = types.length := by
  induction types generalizing next with
  | nil => rfl
  | cons type rest ih => rw [newCells, List.length_cons, List.length_cons, ih]

theorem newCells_append (next : ℕ) (types types' : List Ty) :
    newCells next (types ++ types') =
      newCells next types ++ newCells (next + types.length) types' := by
  induction types generalizing next with
  | nil => rfl
  | cons type rest ih =>
    rw [List.cons_append, newCells, newCells, ih, List.cons_append, List.length_cons,
      Nat.add_assoc, Nat.add_comm 1]

theorem tokens_newCells_other {types : List Ty} (h : Ty.order ∉ types) (next : ℕ) :
    tokens (newCells next types) = [] := by
  induction types generalizing next with
  | nil => rfl
  | cons type rest ih =>
    rw [List.mem_cons, not_or] at h
    simp [newCells, tokens, Ne.symm h.1] at ih ⊢
    exact ih h.2 (next + 1)

theorem Typed.define (h : Typed scope f) (op : Op) :
    Typed (scope ++ op.definitions)
      ⟨f.cells ++ newCells f.next op.results, f.next + op.results.length, f.decisions⟩ := by
  unfold Typed at h ⊢
  simp only [List.map_append, h, types_newCells, Mlir.Op.definitions, List.map_map,
    Function.comp_def, List.map_id']

/-- The values that the checks took for tensors are tensors. -/
def TensorValues (s : BlockState) : Prop :=
  ∀ v ∈ s.state.values, isTensor (s.scope.type v) = true

theorem not_order_of_tensor {type : Option Ty} (h : isTensor type = true) : type ≠ some .order := by
  rintro rfl
  cases h

/-- What the checks of an operation say about its tokens. -/
inductive Checked (branch : Bool) (s : BlockState) (op : Op) : BlockState → Prop where
  | terminator {order : Value} (name : op.name = if branch then .yield else .funcReturn)
      (live : s.state.order = some order) (operands : op.operands = [order])
      (results : op.results = []) (pending : s.pendingCheck = none) :
      Checked branch s op { s with ended := true }
  | extent (name : op.name.isExtent = true) (pending : s.pendingCheck = none)
      (operands : ∀ v ∈ op.operands, s.scope.type v ≠ some .order)
      (results : Ty.order ∉ op.results) : Checked branch s op s
  | begin (name : op.name = .begin) (main : branch = false) (live : s.state.order = none)
      (operands : op.operands = []) (results : op.results = [.order]) :
      Checked branch s op { s with state := { s.state with order := some s.scope.length } }
  | effect {order : Value} {others : List Value} {types : List Ty} {after : BlockState}
      (name : op.name ∈ [OpName.read, .checkGemm, .publish, .observe])
      (live : s.state.order = some order) (pending : s.pendingCheck = none)
      (operands : op.operands = order :: others)
      (unordered : ∀ v ∈ others, s.scope.type v ≠ some .order)
      (results : op.results = types ++ [.order]) (plain : Ty.order ∉ types)
      (scope : after.scope = s.scope)
      (token : after.state.order = some (s.scope.length + types.length))
      (checks : after.pendingCheck = if op.name = .checkGemm then some op else none)
      (triple : op.name = .checkGemm → op.operands.length = 3)
      (values : ∀ v ∈ after.state.values,
        v ∈ s.state.values ∨ v = s.scope.length ∧ isTensor op.results.head? = true)
      (running : after.ended = s.ended) : Checked branch s op after
  | gemm {order : Value} {others : List Value} {check : Op} {after : BlockState}
      (name : op.name = .gemm) (live : s.state.order = some order)
      (pending : s.pendingCheck = some check) (operands : op.operands = order :: others)
      (unordered : ∀ v ∈ others, s.scope.type v ≠ some .order) (pair : others.length = 2)
      (results : Ty.order ∉ op.results) (scope : after.scope = s.scope)
      (token : after.state.order = s.state.order) (checks : after.pendingCheck = none)
      (same : check.operands[1]? = op.operands[1]? ∧ check.operands[2]? = op.operands[2]?)
      (profile : check.attributes.get "numerical_profile" = op.attributes.get "numerical_profile")
      (values : ∀ v ∈ after.state.values,
        v ∈ s.state.values ∨ v = s.scope.length ∧ isTensor op.results.head? = true)
      (running : after.ended = s.ended) : Checked branch s op after

theorem checked_terminator (h : verifyTerminator branch op regions s = .ok after)
    (hname : op.name = .funcReturn ∨ op.name = .yield) : Checked branch s op after := by
  unfold verifyTerminator at h
  obtain ⟨hfields, h⟩ := require_then.1 h
  cases h
  simp only [and_eq_true, isNone_iff_eq_none, beq_iff_eq, List.isEmpty_iff,
    and_assoc] at hfields
  obtain ⟨hpending, hlength, horder, hresults, -, -, hbranch⟩ := hfields
  obtain ⟨order, hoperands⟩ := List.length_eq_one_iff.1 hlength
  rw [hoperands, List.head?_cons] at horder
  refine .terminator ?_ horder.symm hoperands hresults hpending
  rcases hname with hname | hname <;> simp [hbranch, hname]

variable {results : Option (List Ty)}

theorem checked_extent (hvalues : TensorValues s)
    (hwell : opWellFormed results s.scope op regions = true) (hname : op.name.isExtent = true)
    (h : verifyOp files branch op regions s = .ok after) : Checked branch s op after := by
  unfold opWellFormed at hwell
  rw [and_eq_true] at hwell
  obtain ⟨-, hwell⟩ := hwell
  unfold OpName.isExtent at hname
  simp only [Bool.or_eq_true, beq_iff_eq] at hname
  rcases hname with (hname | hname) | hname
  · simp only [verifyOp, hname] at h
    split_ifs at h with hinteger
    obtain ⟨hfields, h⟩ := require_then.1 h
    cases h
    simp only [hname, and_eq_true, List.isEmpty_iff, and_assoc] at hwell
    simp only [and_eq_true, isNone_iff_eq_none, beq_iff_eq, and_assoc] at hfields
    refine .extent (by simp [OpName.isExtent, hname]) hfields.1 ?_ ?_
    · simp [hwell.1]
    · simp [hfields.2.1]
    · cases h
  · simp only [verifyOp, hname] at h
    obtain ⟨hfields, h⟩ := require_then.1 h
    replace h := then_eq_ok h
    cases h
    simp only [and_eq_true, isNone_iff_eq_none, beq_iff_eq, and_assoc] at hfields
    obtain ⟨hpending, htypes, -⟩ := hfields
    obtain ⟨lhs, _, hoperands, hlhs, htypes⟩ := List.map_eq_cons_iff.1 htypes
    obtain ⟨rhs, _, rfl, hrhs, htypes⟩ := List.map_eq_cons_iff.1 htypes
    rw [List.map_eq_nil_iff] at htypes
    subst htypes
    simp only [hname, hoperands, List.filterMap_cons, hlhs, hrhs, List.filterMap_nil,
      and_eq_true] at hwell
    refine .extent (by simp [OpName.isExtent, hname]) hpending ?_ ?_
    · simp [hoperands, hlhs, hrhs]
    · obtain ⟨-, hresult⟩ := hwell
      split at hresult
      · rename_i hresults _
        cases ‹[Ty.integer 64, Ty.integer 64] = _›
        simp only [beq_self_eq_true, Bool.true_and, beq_iff_eq] at hresult
        simp [hresults, hresult]
      · cases hresult
  · simp only [verifyOp, hname] at h
    obtain ⟨hfields, h⟩ := require_then.1 h
    cases h
    simp only [and_eq_true, isNone_iff_eq_none, beq_iff_eq, List.all_eq_true,
      List.contains_eq_mem, decide_eq_true_eq, and_assoc] at hfields
    obtain ⟨hpending, -, hoperands, hresults, -⟩ := hfields
    refine .extent (by simp [OpName.isExtent, hname]) hpending (fun v hv => ?_) (by simp [hresults])
    exact not_order_of_tensor (hvalues v (hoperands v hv))

theorem checked_begin (h : verifyBegin branch op regions s = .ok after) (hname : op.name = .begin) :
    Checked branch s op after := by
  unfold verifyBegin at h
  obtain ⟨hfields, h⟩ := require_then.1 h
  cases h
  simp only [and_eq_true, Bool.not_eq_true', isNone_iff_eq_none, beq_iff_eq,
    List.isEmpty_iff, and_assoc] at hfields
  obtain ⟨hbranch, horder, hoperands, hresults, -⟩ := hfields
  exact .begin hname hbranch horder hoperands hresults

/-- An effect operation passes the common checks in front of its own. -/
theorem verifyEffect_inv {α : Type} {f : Text × BlockState → Except String α} {a : α}
    (h : verifyEffect files op regions s >>= f = .ok a) :
    ∃ path order others, op.operands = order :: others ∧ s.state.order = some order ∧
      (s.pendingCheck = none ∨ op.name = .gemm) ∧
      f (path, { s with frontiers := path :: s.frontiers }) = .ok a := by
  obtain ⟨effect, heffect, h⟩ := bind_eq_ok h
  unfold verifyEffect at heffect
  obtain ⟨hoperand, heffect⟩ := require_then.1 heffect
  obtain ⟨hpending, heffect⟩ := require_then.1 heffect
  obtain ⟨path, -, heffect⟩ := bind_eq_ok heffect
  replace heffect := then_eq_ok (then_eq_ok (then_eq_ok heffect))
  cases heffect
  simp only [and_eq_true, beq_iff_eq, Bool.or_eq_true, isNone_iff_eq_none]
    at hoperand hpending
  cases hoperands : op.operands with
  | nil =>
    rw [hoperands] at hoperand
    cases hoperand.1
  | cons order others =>
    rw [hoperands, List.head?_cons] at hoperand
    exact ⟨path, order, others, rfl, hoperand.2.symm, hpending, h⟩

theorem verifyResource_inv (h : verifyResource op s = .ok ()) :
    ∃ resource, op.operands[1]? = some resource ∧ s.scope.type resource = some .descriptor := by
  unfold verifyResource at h
  obtain ⟨hfields, -⟩ := require_then.1 h
  split at hfields
  · rename_i resource operand _ hoperand
    simp only [and_eq_true, beq_iff_eq] at hfields
    exact ⟨operand, hoperand, hfields.2⟩
  · cases hfields

theorem verifyValue_inv {results : ℕ} (h : verifyValue op results s = .ok after) :
    op.results.length = results ∧ isTensor op.results.head? = true ∧ ∃ id, after = { s with
      ids := id :: s.ids
      state := { s.state with values := s.scope.length :: s.state.values } } := by
  unfold verifyValue at h
  split at h
  · rename_i id _
    obtain ⟨hfields, h⟩ := require_then.1 h
    cases h
    simp only [and_eq_true, beq_iff_eq, and_assoc] at hfields
    exact ⟨hfields.2.2.1, hfields.2.2.2, _, rfl⟩
  · cases h

theorem checked_read (h : verifyEffect files op regions s >>= (fun effect =>
      verifyReadOp op effect.2) = .ok after) (hname : op.name = .read) :
    Checked branch s op after := by
  obtain ⟨path, order, others, hoperands, horder, hpending, h⟩ := verifyEffect_inv h
  unfold verifyReadOp at h
  obtain ⟨_, hresource, h⟩ := bind_eq_ok h
  replace h := then_eq_ok h
  obtain ⟨valued, hvalue, h⟩ := bind_eq_ok h
  obtain ⟨hfields, h⟩ := require_then.1 h
  replace h := then_eq_ok (then_eq_ok h)
  cases h
  obtain ⟨resource, hresource, hdescriptor⟩ := verifyResource_inv hresource
  obtain ⟨hlength, htensor, id, rfl⟩ := verifyValue_inv hvalue
  simp only [and_eq_true, beq_iff_eq, List.all_eq_true, and_assoc] at hfields
  obtain ⟨hcount, hextents, hresult, -⟩ := hfields
  obtain ⟨type, last, hresults⟩ := List.length_eq_two.1 hlength
  rw [hresults] at hresult htensor
  cases hresult
  have htype : type ≠ .order := by
    rintro rfl
    cases htensor
  obtain ⟨a, b, c, rfl⟩ : ∃ a b c, others = [a, b, c] :=
    List.length_eq_three.1 (by simpa [hoperands] using hcount)
  rw [hoperands] at hresource hextents
  cases hresource
  have hsplit : op.results = [type] ++ [.order] := hresults
  refine .effect (by simp [hname]) horder (hpending.resolve_right (by simp [hname]))
    hoperands ?_ hsplit (by simpa using Ne.symm htype) rfl rfl ?_ (by simp [hname]) ?_ rfl
  · intro v hv
    rcases List.mem_cons.1 hv with rfl | hv
    · simp [hdescriptor]
    · have hextent := hextents v hv
      simp [show s.scope.type v = some (.integer 64) from hextent]
  · have hp := hpending.resolve_right (by simp [hname])
    simp [hp, hname]
  · intro v hv
    rcases List.mem_cons.1 hv with rfl | hv
    · exact .inr ⟨rfl, by rw [hresults]; exact htensor⟩
    · exact .inl hv

theorem verifyGemmOperands_inv (h : verifyGemmOperands op s = .ok ()) :
    op.operands.length = 3 ∧ ∀ v ∈ op.operands.drop 1, v ∈ s.state.values := by
  have hfields := require_eq_ok.1 h
  simp only [and_eq_true, beq_iff_eq, List.all_eq_true, List.contains_eq_mem,
    decide_eq_true_eq, and_assoc] at hfields
  exact ⟨hfields.2.1, hfields.2.2⟩

theorem checked_check (hvalues : TensorValues s)
    (h : verifyEffect files op regions s >>= (fun effect => verifyCheckOp op effect.2) = .ok after)
    (hname : op.name = .checkGemm) : Checked branch s op after := by
  obtain ⟨path, order, others, hoperands, horder, hpending, h⟩ := verifyEffect_inv h
  unfold verifyCheckOp at h
  obtain ⟨_, hpair, h⟩ := bind_eq_ok h
  replace h := then_eq_ok h
  obtain ⟨hfields, h⟩ := require_then.1 h
  replace h := then_eq_ok h
  cases h
  obtain ⟨hlength, hpair⟩ := verifyGemmOperands_inv hpair
  simp only [and_eq_true, beq_iff_eq] at hfields
  have hresults : op.results = [] ++ [.order] := hfields.1
  rw [hoperands] at hpair
  refine .effect (by simp [hname]) horder (hpending.resolve_right (by simp [hname])) hoperands
    (fun v hv => not_order_of_tensor (hvalues v (hpair v hv))) hresults (by simp) rfl rfl
    (by simp [hname]) (fun _ => hlength) (fun v hv => .inl hv) rfl

theorem checked_publish (hvalues : TensorValues s)
    (h : verifyEffect files op regions s >>= (fun effect =>
      verifyPublishOp op effect.1 effect.2) = .ok after) (hname : op.name = .publish) :
    Checked branch s op after := by
  obtain ⟨path, order, others, hoperands, horder, hpending, h⟩ := verifyEffect_inv h
  unfold verifyPublishOp at h
  obtain ⟨_, hresource, h⟩ := bind_eq_ok h
  replace h := then_eq_ok h
  obtain ⟨hshape, h⟩ := require_then.1 h
  obtain ⟨hfields, h⟩ := require_then.1 h
  replace h := then_eq_ok h
  cases h
  obtain ⟨resource, hresource, hdescriptor⟩ := verifyResource_inv hresource
  simp only [and_eq_true, beq_iff_eq, List.all_eq_true, List.contains_eq_mem,
    decide_eq_true_eq, and_assoc] at hshape hfields
  have hresults : op.results = [] ++ [.order] := hshape.1
  obtain ⟨a, b, rfl⟩ : ∃ a b, others = [a, b] :=
    List.length_eq_two.1 (by simpa [hoperands] using hshape.2)
  have hp := hpending.resolve_right (by simp [hname])
  have hvalue := hfields.1
  rw [hoperands] at hresource hvalue
  cases hresource
  refine .effect (by simp [hname]) horder hp hoperands ?_ hresults (by simp) rfl rfl
    (by simp [hp, hname]) (by simp [hname]) (fun v hv => .inl hv) rfl
  intro v hv
  rcases List.mem_cons.1 hv with rfl | hv
  · simp [hdescriptor]
  · exact not_order_of_tensor (hvalues v (hvalue v hv))

theorem checked_observe (h : verifyEffect files op regions s >>= (fun effect =>
      verifyObserveOp op effect.2) = .ok after) (hname : op.name = .observe) :
    Checked branch s op after := by
  obtain ⟨path, order, others, hoperands, horder, hpending, h⟩ := verifyEffect_inv h
  unfold verifyObserveOp at h
  obtain ⟨_, hresource, h⟩ := bind_eq_ok h
  replace h := then_eq_ok h
  obtain ⟨hshape, h⟩ := require_then.1 h
  replace h := then_eq_ok (then_eq_ok h)
  cases h
  obtain ⟨resource, hresource, hdescriptor⟩ := verifyResource_inv hresource
  simp only [and_eq_true, beq_iff_eq] at hshape
  have hresults : op.results = [] ++ [.order] := hshape.1
  obtain ⟨a, rfl⟩ : ∃ a, others = [a] :=
    List.length_eq_one_iff.1 (by simpa [hoperands] using hshape.2)
  have hp := hpending.resolve_right (by simp [hname])
  rw [hoperands] at hresource
  cases hresource
  refine .effect (by simp [hname]) horder hp hoperands ?_ hresults (by simp) rfl rfl
    (by simp [hp, hname]) (by simp [hname]) (fun v hv => .inl hv) rfl
  intro v hv
  rw [List.mem_singleton.1 hv, hdescriptor]
  simp

theorem checked_gemm (hvalues : TensorValues s)
    (h : verifyEffect files op regions s >>= (fun effect => verifyGemmOp op effect.2) = .ok after)
    (hname : op.name = .gemm) : Checked branch s op after := by
  obtain ⟨path, order, others, hoperands, horder, -, h⟩ := verifyEffect_inv h
  unfold verifyGemmOp at h
  obtain ⟨_, hpair, h⟩ := bind_eq_ok h
  obtain ⟨valued, hvalue, h⟩ := bind_eq_ok h
  obtain ⟨hsame, h⟩ := require_then.1 h
  replace h := then_eq_ok (then_eq_ok h)
  cases h
  obtain ⟨hlength, hpair⟩ := verifyGemmOperands_inv hpair
  obtain ⟨hresults, htensor, id, rfl⟩ := verifyValue_inv hvalue
  split at hsame
  · rename_i check hcheck
    simp only [and_eq_true, beq_iff_eq, and_assoc] at hsame
    obtain ⟨hlhs, hrhs, hprofile, -⟩ := hsame
    obtain ⟨type, htype⟩ := List.length_eq_one_iff.1 hresults
    have hplain : Ty.order ∉ op.results := by
      rw [htype] at htensor ⊢
      rw [List.mem_singleton]
      rintro rfl
      cases htensor
    have hcount : others.length = 2 := by simpa [hoperands] using hlength
    rw [hoperands] at hpair
    refine .gemm hname horder hcheck hoperands
      (fun v hv => not_order_of_tensor (hvalues v (hpair v hv))) hcount hplain rfl rfl rfl
      ⟨hlhs, hrhs⟩ hprofile ?_ rfl
    intro v hv
    rcases List.mem_cons.1 hv with rfl | hv
    · exact .inr ⟨rfl, htensor⟩
    · exact .inl hv
  · cases hsame

/-- **What the checks of an operation say about its tokens.** -/
theorem checked_of_verifyOp (hvalues : TensorValues s)
    (hwell : opWellFormed results s.scope op regions = true)
    (h : verifyOp files branch op regions s = .ok after) : Checked branch s op after := by
  have hop := h
  unfold verifyOp at hop
  cases hname : op.name <;> simp only [hname] at hop
  case funcReturn => exact checked_terminator hop (.inl hname)
  case yield => exact checked_terminator hop (.inr hname)
  case arithConstant | arithCmpI | dim =>
    exact checked_extent hvalues hwell (by simp [OpName.isExtent, hname]) h
  case begin => exact checked_begin hop hname
  case read => exact checked_read hop hname
  case checkGemm => exact checked_check hvalues hop hname
  case gemm => exact checked_gemm hvalues hop hname
  case publish => exact checked_publish hvalues hop hname
  case observe => exact checked_observe hop hname
  case shapeIf | other => cases hop

/-- A branch that passes the checks of its block. -/
def BranchChecked (files : List SourceFile) (depth : ℕ) (s : BlockState) (ops : Ops) : Prop :=
  ∃ (entry last : BlockState), entry.scope = s.scope ∧ entry.state = s.state ∧
    verifyOps files true depth ops entry.branch = .ok last ∧ last.ended = true

/-- What the checks of a `shape_if` say about its tokens. -/
structure Branches (files : List SourceFile) (depth : ℕ) (s : BlockState) (op : Op)
    (thenOps elseOps : Ops) (order condition : Value) (after : BlockState) : Prop where
  live : s.state.order = some order
  pending : s.pendingCheck = none
  operands : op.operands = [order, condition]
  condition : s.scope.type condition = some (.integer 1)
  results : op.results = [.order]
  thenChecked : BranchChecked files (depth + 1) s thenOps
  elseChecked : BranchChecked files (depth + 1) s elseOps
  token : after.state.order = some s.scope.length
  values : after.state.values = s.state.values
  checks : after.pendingCheck = none
  running : after.ended = s.ended

theorem joined_inv {epoch : String} (h : (do
      verifyDepth depth
      let inner ← verifyOps files true depth ops s.branch
      let inner ← verifyBlockEnd inner
      joinBranch op epoch s inner) = .ok after) :
    BranchChecked files depth s ops ∧
      ∃ ids frontiers, after = { s with ids := ids, frontiers := frontiers } := by
  replace h := then_eq_ok h
  obtain ⟨last, hlast, h⟩ := bind_eq_ok h
  obtain ⟨_, hend, h⟩ := bind_eq_ok h
  obtain ⟨_, hended, heq⟩ := bind_eq_ok hend
  cases heq
  replace h := then_eq_ok h
  cases h
  exact ⟨⟨s, last, rfl, rfl, hlast, require_eq_ok.1 hended⟩, _, _, rfl⟩

theorem verifyOps_cons {rest : Ops}
    (h : verifyOps files branch depth (.cons op regions rest) s = .ok s') :
    s.ended = false ∧ ∃ after,
      verifyOps files branch depth rest { after with scope := s.scope ++ op.definitions } = .ok s' ∧
      (op.name ≠ .shapeIf ∧ verifyOp files branch op regions s = .ok after ∨
        op.name = .shapeIf ∧ ∃ thenOps elseOps order condition,
          regions = .cons (.cons [.order] thenOps .nil) (.cons (.cons [.order] elseOps .nil) .nil) ∧
          Branches files depth s op thenOps elseOps order condition after) := by
  unfold verifyOps at h
  obtain ⟨hended, h⟩ := require_then.1 h
  obtain ⟨after, hop, h⟩ := bind_eq_ok h
  rw [Bool.not_eq_true'] at hended
  refine ⟨hended, after, h, ?_⟩
  split_ifs at hop with hname
  · refine .inr ⟨hname, ?_⟩
    obtain ⟨frontier, order, others, hoperands, horder, hpending, hop⟩ := verifyEffect_inv hop
    split at hop
    · obtain ⟨_, hcondition, hop⟩ := bind_eq_ok hop
      obtain ⟨behindThen, hthen, hop⟩ := bind_eq_ok hop
      obtain ⟨behindElse, helse, hop⟩ := bind_eq_ok hop
      split at hthen
      · split at helse
        · obtain ⟨hthenChecked, ids, frontiers, rfl⟩ := joined_inv hthen
          obtain ⟨helseChecked, ids', frontiers', rfl⟩ := joined_inv helse
          have hfields := require_eq_ok.1 hcondition
          simp only [and_eq_true, beq_iff_eq, List.all_eq_true, and_assoc] at hfields
          obtain ⟨hlength, hcondition, hresults, -⟩ := hfields
          obtain ⟨condition, rfl⟩ : ∃ condition, others = [condition] :=
            List.length_eq_one_iff.1 (by simpa [hoperands] using hlength)
          rw [hoperands] at hcondition
          have hp := hpending.resolve_right (by simp [hname])
          unfold verifyJoin at hop
          replace hop := then_eq_ok (then_eq_ok (then_eq_ok hop))
          cases hop
          exact ⟨_, _, order, condition, rfl, horder, hp, hoperands,
            hcondition condition List.mem_cons_self, hresults, hthenChecked, helseChecked, rfl,
            rfl, hp, rfl⟩
        · cases helse
      · cases hthen
    · cases hop
  · exact .inl ⟨hname, hop⟩

theorem opsWellFormed_cons {rest : Ops}
    (h : opsWellFormed results scope (.cons op regions rest) = true) :
    opWellFormed results scope op regions = true ∧ regionsWellFormed scope regions = true ∧
      (op.name.isTerminator = false →
        opsWellFormed results (scope ++ op.definitions) rest = true) := by
  cases rest with
  | nil =>
    rw [opsWellFormed] at h
    simp only [and_eq_true, and_assoc] at h
    refine ⟨h.2.1, h.2.2, fun hname => ?_⟩
    rw [hname] at h
    cases h.1
  | cons op' regions' rest' =>
    rw [opsWellFormed] at h
    · simp only [and_eq_true, and_assoc] at h
      exact ⟨h.2.1, h.2.2.1, fun _ => h.2.2.2⟩
    · simp

end Matcore.ClosedRegion
