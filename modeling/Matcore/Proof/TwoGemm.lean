import Matcore.Proof.RegionValues
import Matcore.TwoGemm.Build

/-!
# The verifier of two-GEMM regions is sound

A region function that the verifier accepts does what the two calls of its source contract do, one
after the other, on every memory and wherever the descriptors lie.
-/

namespace Matcore.TwoGemm

open LoopNest (Tensor)
open Mlir (ascii)
open Except (ok_bind bind_eq_ok)
open List (length_append length_map mem_cons_self)
open Option (bind_eq_bind bind_some)

variable {function : RegionFunction}

namespace AcceptedRegion

variable (region : AcceptedRegion function) (world : World) (memory : Memory)

def call (stage : ℕ) : SourceCall :=
  ⟨region.arguments stage, (region.boundary.guard stage).2.guardLedger⟩

variable {stage : ℕ}

theorem sourceCall_eq (hstage : stage ≤ 1) :
    sourceCall function stage = .ok (region.call stage) := by
  have hfacts := region.stage stage hstage
  unfold sourceCall
  rw [region.sites_eq, ok_bind]
  simp only
  rw [region.bound stage hstage, ok_bind, hfacts.contract, hfacts.hasBindings]
  simp only [asDictionary]
  rw [hfacts.ledger, ok_bind]
  rfl

def views (stage : ℕ) : Roles View := world.views (region.arguments stage)

def passed (stage : ℕ) : Bool :=
  guardHolds (world.floating stage) (region.views world stage) (region.call stage).ledger

/-- The memory that a call of the source finds, once the calls before it have committed. -/
def memoryAt : ℕ → Memory
  | 0 => memory
  | stage + 1 => (region.views world stage).output.write (memoryAt stage)
      (contraction world.arithmetic ((region.views world stage).lhs.read (memoryAt stage))
        ((region.views world stage).rhs.read (memoryAt stage)))

/-- What a call of the source reads. -/
def input (stage role : ℕ) : Tensor (BitVec 32) :=
  ((region.views world stage).input role).read (region.memoryAt world memory stage)

def result (stage : ℕ) : Tensor (BitVec 32) :=
  contraction world.arithmetic (region.input world memory stage 0)
    (region.input world memory stage 1)

/-- What is observed of two calls whose guards pass. -/
def events : List Event :=
  [.guard 0 (region.arguments 0) true,
    .commit 0 (region.arguments 0).output (region.result world memory 0).shape
      (elements (region.result world memory 0)),
    .guard 1 (region.arguments 1) true,
    .commit 1 (region.arguments 1).output (region.result world memory 1).shape
      (elements (region.result world memory 1))]

def source : Outcome := runSource world (region.call 0) (region.call 1) memory

variable {region world memory}

theorem validated_of_passed (hstage : stage ≤ 1) (h : region.passed world stage = true) :
    Validated (region.views world stage) :=
  validated_of_guardHolds (region.stage stage hstage).ledger h

theorem shapes (hstage : stage ≤ 1) (h : region.passed world stage = true) :
    ∃ m k n, (region.input world memory stage 0).shape = [m, k] ∧
      (region.input world memory stage 1).shape = [k, n] ∧
      (region.views world stage).output.shape = [m, n] := by
  have hvalid := validated_of_passed hstage h
  refine ⟨(region.views world stage).lhs.rows.toNat, (region.views world stage).lhs.columns.toNat,
    (region.views world stage).rhs.columns.toNat, rfl, ?_, ?_⟩
  · rw [hvalid.contracted]
    rfl
  · rw [View.shape, hvalid.rows, hvalid.columns]

theorem result_shape (hstage : stage ≤ 1) (h : region.passed world stage = true) :
    (region.result world memory stage).shape = (region.views world stage).output.shape := by
  obtain ⟨m, k, n, hlhs, hrhs, houtput⟩ := @shapes function region world memory stage hstage h
  rw [houtput]
  exact shape_contraction hlhs hrhs

theorem recorded (region : AcceptedRegion function) :
    Recorded region.forwarded function.scope function.placed region.final :=
  recorded_run region.scanned

theorem checked (region : AcceptedRegion function) : Checked function := by
  refine ⟨region.verified, ?_⟩
  intro v k op hop hboundary
  obtain ⟨placed, hm, -, rfl, -⟩ := placed_of_scope hop
  exact region.recorded.incidental placed hm hboundary

variable {argument : ℕ}

theorem boundArgument_lt {arguments : ℕ} {descriptors : List Mlir.Attribute}
    {binding : Option Mlir.Attribute}
    (h : boundArgument arguments descriptors stage binding = .ok argument) :
    argument < arguments := by
  unfold boundArgument at h
  simp only at h
  split at h
  · obtain ⟨hcheck, h⟩ := Except.ite_error_eq_ok.1 h
    cases h
    omega
  · cases h

theorem bound_lt (hstage : stage ≤ 1) :
    (region.arguments stage).output < function.arguments.length ∧
      (region.arguments stage).lhs < function.arguments.length ∧
      (region.arguments stage).rhs < function.arguments.length := by
  have h := region.bound stage hstage
  unfold boundSite at h
  split at h
  · obtain ⟨-, h⟩ := Except.ite_error_eq_ok.1 h
    obtain ⟨output, houtput, h⟩ := bind_eq_ok h
    obtain ⟨lhs, hlhs, h⟩ := bind_eq_ok h
    obtain ⟨rhs, hrhs, h⟩ := bind_eq_ok h
    rw [← Except.ok.inj h]
    exact ⟨boundArgument_lt houtput, boundArgument_lt hlhs, boundArgument_lt hrhs⟩
  · cases h

theorem read_facts (region : AcceptedRegion function) {placed : Placed}
    (hm : placed ∈ function.placed) {read : RegionReadOp}
    (hop : placed.op = .regionRead read) : read.stage ≤ 1 ∧ read.roleIndex ≤ 1 ∧
      read.descriptor = (region.arguments read.stage).input read.roleIndex ∧
      (region.types read.stage).inputs[read.roleIndex]? = some (.tensor read.type) ∧
      read.type.element = .f32 := by
  have hverified := (placed_verified region.verified hm).verified
  rw [hop] at hverified
  simp only [Op.verify, Bool.and_eq_true, decide_eq_true_eq] at hverified
  have hstage : read.stage ≤ 1 := hverified.1.2
  have hrole : read.roleIndex ≤ 1 := by
    unfold RegionReadOp.roleIndex
    split <;> omega
  obtain ⟨-, -, -, hf32⟩ := isMatrix_eq_true hverified.1.1.2
  have hfound := region.recorded.read.found placed hm (read.stage, read.roleIndex) read
    (by rw [hop]; rfl)
  have hfresh : read.stage = 0 ∨ read.roleIndex ≠ region.forwarded := by
    have hcarried := region.recorded.notCarried placed hm read hop
    omega
  obtain ⟨first, read', hread', hdescriptor, htype⟩ :=
    (region.stage read.stage hstage).reads read.roleIndex hrole hfresh
  rw [region.reads_eq] at hread'
  have hsame : some (placed.first, read) = some (first, read') := hfound.symm.trans hread'
  cases hsame
  exact ⟨hstage, hrole, hdescriptor, htype, hf32⟩

theorem guard_facts (region : AcceptedRegion function) {placed : Placed}
    (hm : placed ∈ function.placed) {guard : RegionGuardOp}
    (hop : placed.op = .regionGuard guard) : guard.stage ≤ 1 ∧ guard.type = .order ∧
      guard.output = (region.arguments guard.stage).output ∧
      guard.lhs = (region.arguments guard.stage).lhs ∧
      guard.rhs = (region.arguments guard.stage).rhs ∧
      guard.guardLedger = (region.call guard.stage).ledger := by
  have hverified := (placed_verified region.verified hm).verified
  rw [hop] at hverified
  simp only [Op.verify, Bool.and_eq_true, decide_eq_true_eq] at hverified
  have hstage : guard.stage ≤ 1 := hverified.2
  have hfound := region.recorded.guard.found placed hm guard.stage guard (by rw [hop]; rfl)
  have hsame : some (region.boundary.guard guard.stage) = some (placed.first, guard) :=
    (region.guard_eq guard.stage hstage).symm.trans hfound
  have hguard : (region.boundary.guard guard.stage).2 = guard := by
    rw [Option.some.inj hsame]
  have hfacts := region.stage guard.stage hstage
  have houtput := hfacts.output
  have hlhs := hfacts.lhs
  have hrhs := hfacts.rhs
  rw [hguard] at houtput hlhs hrhs
  refine ⟨hstage, hverified.1.1.1.1.2, houtput, hlhs, hrhs, ?_⟩
  rw [call, hguard]

variable {commit : RegionCommitOp}

theorem commit_facts (region : AcceptedRegion function) {placed : Placed}
    (hm : placed ∈ function.placed) (hop : placed.op = .regionCommit commit) :
    commit.stage ≤ 1 ∧ commit.order = .order ∧
      region.boundary.commit commit.stage = (placed.first, commit) ∧
      function.scope.type commit.value = some (.tensor commit.type) ∧
      commit.type.isMatrix = true ∧
      commit.descriptor = (region.arguments commit.stage).output ∧
      (region.types commit.stage).results[0]? = some (.tensor commit.type) := by
  have hverified := (placed_verified region.verified hm).verified
  rw [hop] at hverified
  simp only [Op.verify, Bool.and_eq_true, decide_eq_true_eq] at hverified
  have hstage : commit.stage ≤ 1 := hverified.2
  have hfound := region.recorded.commit.found placed hm commit.stage commit (by rw [hop]; rfl)
  have hsame : region.boundary.commit commit.stage = (placed.first, commit) :=
    Option.some.inj ((region.commit_eq commit.stage hstage).symm.trans hfound)
  have hfacts := region.stage commit.stage hstage
  have hdescriptor := hfacts.descriptor
  have hresult := hfacts.result
  rw [hsame] at hdescriptor hresult
  exact ⟨hstage, hverified.1.1.1.1.2, hsame, hverified.1.1.2, hverified.1.1.1.2, hdescriptor,
    hresult⟩

/-- The values of an execution: reads have what the source reads, and commits what it writes, each
behind the guard of its call. -/
structure ValuesInv (region : AcceptedRegion function) (world : World) (memory : Memory)
    (values : List RuntimeValue) : Prop where
  evaluated : Evaluated world.arithmetic function values
  reads : ∀ v k read, function.scope.definingOp v = some (k, .regionRead read) →
    v < values.length →
    values[v]? = some (.tensor (region.input world memory read.stage read.roleIndex)) ∧
      region.passed world read.stage = true
  commits : ∀ v k commit, function.scope.definingOp v = some (k, .regionCommit commit) →
    function.scope.type v = some (.tensor commit.type) → v < values.length →
    (∃ T, values[v]? = some (.tensor T) ∧ Agrees T (region.result world memory commit.stage)) ∧
      region.passed world commit.stage = true

variable {k : ℕ} {op : Op} {type : Ty} {values : List RuntimeValue}

/-- **The next value of an execution.** -/
theorem ValuesInv.snoc (h : ValuesInv region world memory values) {value : RuntimeValue}
    (hop : function.scope.definingOp values.length = some (k, op))
    (htype : function.scope.type values.length = some type) (hvalue : HasType value type)
    (hpure : Incidental function.scope op → op.results.length = 1 →
      pureValue world.arithmetic values k op = some value) (hread : ∀ read, op = .regionRead read →
      value = .tensor (region.input world memory read.stage read.roleIndex) ∧
        region.passed world read.stage = true)
    (hcommit : ∀ commit, op = .regionCommit commit → type = .tensor commit.type →
      (∃ T, value = .tensor T ∧ Agrees T (region.result world memory commit.stage)) ∧
        region.passed world commit.stage = true) :
    ValuesInv region world memory (values ++ [value]) := by
  have hcases : ∀ v, v < (values ++ [value]).length →
      (v < values.length ∧ (values ++ [value])[v]? = values[v]?) ∨
        (v = values.length ∧ (values ++ [value])[v]? = some value) := by
    intro v hv
    rw [length_append, List.length_singleton] at hv
    rcases Nat.lt_succ_iff_lt_or_eq.1 hv with hlt | rfl
    · exact Or.inl ⟨hlt, List.getElem?_append_left hlt⟩
    · exact Or.inr ⟨rfl, List.getElem?_concat_length⟩
  refine ⟨evaluated_snoc h.evaluated ?_ ?_, ?_, ?_⟩
  · intro type' htype'
    rw [htype] at htype'
    cases htype'
    exact hvalue
  · intro k' op' hop' hincidental hsingle
    rw [hop] at hop'
    cases hop'
    exact hpure hincidental hsingle
  · intro v k' read hv hlt
    rcases hcases v hlt with ⟨hold, hget⟩ | ⟨rfl, hget⟩
    · rw [hget]
      exact h.reads v k' read hv hold
    · rw [hop] at hv
      cases hv
      obtain ⟨hvalue', hpassed⟩ := hread read rfl
      exact ⟨by rw [hget, hvalue'], hpassed⟩
  · intro v k' commit hv htype' hlt
    rcases hcases v hlt with ⟨hold, hget⟩ | ⟨rfl, hget⟩
    · rw [hget]
      exact h.commits v k' commit hv htype' hold
    · rw [hop] at hv
      cases hv
      rw [htype] at htype'
      obtain ⟨⟨T, hT, hagrees⟩, hpassed⟩ := hcommit commit rfl (Option.some.inj htype')
      exact ⟨⟨T, by rw [hget, hT], hagrees⟩, hpassed⟩

/-- Where the value of an input comes from. -/
inductive Origin (region : AcceptedRegion function) (stage role v : ℕ) : Prop
  | carried (hstage : stage = 1) (hrole : region.forwarded = role) {k : ℕ}
    {commit : RegionCommitOp} (hop : function.scope.definingOp v = some (k, .regionCommit commit))
    (htype : function.scope.type v = some (.tensor commit.type)) (hzero : commit.stage = 0)
  | read {k : ℕ} {read : RegionReadOp}
    (hop : function.scope.definingOp v = some (k, .regionRead read)) (hstage : read.stage = stage)
    (hrole : read.roleIndex = role)

variable {v role : ℕ}

theorem origin (hstage : stage ≤ 1)
    (hv : inputValue region.boundary region.forwarded stage role = some v) :
    Origin region stage role v := by
  unfold inputValue at hv
  by_cases hcarried : stage ≠ 0 ∧ region.forwarded = role
  · rw [if_pos hcarried] at hv
    obtain ⟨placed, hm, hfirst, hselect⟩ := region.recorded.commit.mem 0
      (region.boundary.commit 0).1 (region.boundary.commit 0).2 (region.commit_eq 0 (Nat.zero_le 1))
    obtain ⟨commit, hop, hzero⟩ : ∃ commit, placed.op = .regionCommit commit ∧
        commit.stage = 0 := by
      unfold Op.asCommit at hselect
      split at hselect
      · rename_i commit hop
        exact ⟨commit, hop, (Prod.mk.inj (Option.some.inj hselect)).1⟩
      · cases hselect
    have hresults : placed.op.results = [.tensor commit.type, commit.order] := by
      rw [hop]
      rfl
    have hdefined := definingOp_first hm (by rw [hresults]; exact Nat.succ_pos 1)
    have htype := type_first hm hresults
    rw [hfirst, Option.some.inj hv] at hdefined htype
    rw [hop] at hdefined
    exact .carried (by omega) hcarried.2 hdefined htype hzero
  · rw [if_neg hcarried] at hv
    obtain ⟨⟨first, read⟩, hread, rfl⟩ := Option.map_eq_some_iff.1 hv
    rw [region.reads_eq] at hread
    obtain ⟨placed, hm, hfirst, hselect⟩ := region.recorded.read.mem (stage, role) first read hread
    unfold Op.asRead at hselect
    split at hselect
    · rename_i read' hop
      have hdefined := definingOp_first hm (by rw [hop]; exact Nat.succ_pos 0)
      rw [hfirst, hop] at hdefined
      have hkey := (Prod.mk.inj (Option.some.inj hselect)).1
      exact .read hdefined (Prod.mk.inj hkey).1 (Prod.mk.inj hkey).2
    · cases hselect

theorem origin_strip (h : Origin region stage role v) : stripCast function.scope v = v := by
  cases h with
  | carried _ _ hop => exact stripCast_eq hop nofun
  | read hop => exact stripCast_eq hop nofun

/-- **An input of a call** has what a read behind the guard of the call gives: for the carried role
by the commit before, for the others by their reads. -/
theorem input_value (h : ValuesInv region world memory values)
    (horigin : Origin region stage role v) (hlt : v < values.length) :
    ∃ X, values[v]? = some (.tensor X) ∧ Agrees X (region.input world memory stage role) := by
  cases horigin with
  | carried hstage hrole hop htype hzero =>
    obtain ⟨⟨T, hT, hagrees⟩, hpassed⟩ := h.commits v _ _ hop htype hlt
    rw [hzero] at hagrees hpassed
    refine ⟨T, hT, hagrees.trans ?_⟩
    have hview : (region.views world 1).input role = (region.views world 0).output := by
      rw [← hrole]
      have hsame := region.carried
      unfold Roles.input at hsame ⊢
      unfold views World.views
      split_ifs at hsame ⊢ <;> rw [← hsame]
    rw [hstage, input, hview]
    exact (View.read_write (result_shape (Nat.zero_le 1) hpassed)).symm
  | @read k read hop hstage hrole =>
    refine ⟨region.input world memory read.stage read.roleIndex, (h.reads v k read hop hlt).1, ?_⟩
    rw [hstage, hrole]
    exact Agrees.refl _

variable {rhs lhs : ℕ}

theorem passed_of_inputs (h : ValuesInv region world memory values)
    (hlhs : Origin region stage 0 lhs) (hrhs : Origin region stage 1 rhs)
    (hlt : lhs < values.length) (hlt' : rhs < values.length) :
    region.passed world stage = true := by
  cases hlhs with
  | @read k read hop hstage _ =>
    rw [← hstage]
    exact (h.reads lhs k read hop hlt).2
  | carried _ hrole =>
    cases hrhs with
    | @read k read hop hstage _ =>
      rw [← hstage]
      exact (h.reads rhs k read hop hlt').2
    | carried _ hrole' => omega

theorem inputs_of_lt (h : ValuesInv region world memory values)
    (hdeclared : ∀ stage ≤ 1, HasDeclaredTypes world.view (region.arguments stage)
      (region.types stage)) (hstage : stage ≤ 1) (hlhs : Origin region stage 0 lhs)
    (hrhs : Origin region stage 1 rhs) (hlt : lhs < values.length) (hlt' : rhs < values.length)
    {type : TensorType} (htype : (region.types stage).results[0]? = some (.tensor type)) :
    ∃ A B m k n, Inputs values type lhs rhs A B m k n ∧
      (region.views world stage).output.shape = [m, n] ∧
      Agrees (contraction world.arithmetic A B) (region.result world memory stage) := by
  have hpassed := passed_of_inputs h hlhs hrhs hlt hlt'
  obtain ⟨m, k, n, hleft, hright, houtput⟩ :=
    @shapes function region world memory stage hstage hpassed
  obtain ⟨A, hA, hagreesA⟩ := input_value h hlhs hlt
  obtain ⟨B, hB, hagreesB⟩ := input_value h hrhs hlt'
  have hshapeA := hagreesA.shape.trans hleft
  have hshapeB := hagreesB.shape.trans hright
  have houtput' : conforms [m, n] type = true := by
    rw [← houtput]
    exact (hdeclared stage hstage).output _ htype
  exact ⟨A, B, m, k, n, ⟨hlt, hlt', hA, hB, hshapeA, hshapeB, houtput'⟩, houtput,
    hagreesA.contraction hagreesB hshapeA hshapeB⟩

theorem commit_placed (region : AcceptedRegion function) (hstage : stage ≤ 1) :
    ∃ placed ∈ function.placed,
    placed.op = .regionCommit (region.boundary.commit stage).2 ∧
      (region.boundary.commit stage).2.stage = stage := by
  obtain ⟨placed, hm, -, hselect⟩ := region.recorded.commit.mem stage
    (region.boundary.commit stage).1 (region.boundary.commit stage).2
    (region.commit_eq stage hstage)
  unfold Op.asCommit at hselect
  split at hselect
  · rename_i commit hop
    have hsame := Prod.mk.inj (Option.some.inj hselect)
    rw [← hsame.2]
    exact ⟨placed, hm, hop, hsame.1⟩
  · cases hselect

theorem stage_computation (region : AcceptedRegion function) (hstage : stage ≤ 1) :
    ∃ lhs rhs, Origin region stage 0 lhs ∧ Origin region stage 1 rhs ∧
      ∃ c : Computation function.scope (region.boundary.commit stage).2 lhs rhs,
        region.validated stage = [c.matmulPosition, c.fillPosition, c.emptyPosition] ∧
        c.type.isMatrix = true ∧
        (region.types stage).results[0]? = some (.tensor c.type) := by
  obtain ⟨lhs, rhs, hlhs, hrhs, hcomputation⟩ := (region.stage stage hstage).computed
  obtain ⟨c, hvalidated⟩ := computation_eq_ok hcomputation
  obtain ⟨placed, hm, hop, hsame⟩ := region.commit_placed hstage
  obtain ⟨-, -, -, htype, hmatrix, -, hresult⟩ := region.commit_facts hm hop
  have heq : c.type = (region.boundary.commit stage).2.type := by
    have htypes := c.type_eq.symm.trans htype
    exact Ty.tensor.inj (Option.some.inj htypes)
  rw [hsame] at hresult
  rw [← heq] at hmatrix hresult
  exact ⟨lhs, rhs, origin hstage hlhs, origin hstage hrhs, c, hvalidated, hmatrix, hresult⟩

theorem validated_cases (region : AcceptedRegion function) {placed : Placed}
    (hm : placed ∈ function.placed)
    (hop : (∃ op, placed.op = .linalg op) ∨ ∃ sizes type, placed.op = .empty sizes type) :
    ∃ stage ≤ 1, placed.position ∈ region.validated stage := by
  have hposition : placed.position ∈ region.validated 0 ++ region.validated 1 := by
    have hplaced := List.all_eq_true.1 region.all_validated placed hm
    rcases hop with ⟨op, hop⟩ | ⟨sizes, type, hop⟩
    · rw [hop] at hplaced
      exact of_decide_eq_true hplaced
    · rw [hop] at hplaced
      exact of_decide_eq_true hplaced
  rcases List.mem_append.1 hposition with hzero | hone
  · exact ⟨0, Nat.zero_le 1, hzero⟩
  · exact ⟨1, le_rfl, hone⟩

theorem placed_eq {placed : Placed} (hm : placed ∈ function.placed)
    (hop : function.scope.definingOp v = some (k, op)) (hsingle : op.results.length = 1)
    (hposition : placed.position = k) : placed.first = v ∧ placed.op = op := by
  have hplaced := placed_of_definingOp hop hsingle
  rw [placed_unique hm hplaced hposition]
  exact ⟨rfl, rfl⟩

theorem constantValue_hasType {arithmetic : Arithmetic} {constant : Constant}
    (h : (Op.constant constant).verify function.scope = true) :
    HasType (constantValue arithmetic constant) constant.type := by
  cases constant with
  | float bits => trivial
  | index value => trivial
  | other type text => trivial
  | dense type text =>
    have hstatic : ∀ d ∈ type.shape, d.isSome = true := List.all_eq_true.1 h
    have hconforms : conforms (type.shape.map (·.getD 0)) type = true := by
      refine conforms_iff.2 ⟨length_map _, ?_⟩
      intro i n d hn hd
      rw [List.getElem?_map, hd] at hn
      obtain ⟨extent, rfl⟩ := Option.isSome_iff_exists.1 (hstatic d (List.mem_of_getElem? hd))
      exact Or.inr (congrArg some (Option.some.inj hn))
    unfold constantValue
    simp only
    by_cases hf32 : type.element = .f32
    · rw [if_pos hf32]
      exact ⟨hf32, hconforms⟩
    · rw [if_neg hf32]
      exact ⟨hf32, hconforms⟩

/-- Which of the operations behind a commit stands at one of their places. -/
theorem computed_cases (c : Computation function.scope commit lhs rhs) {placed : Placed}
    (hm : placed ∈ function.placed)
    (hposition : placed.position ∈ [c.matmulPosition, c.fillPosition, c.emptyPosition]) :
    placed.op = .linalg c.matmul ∨ placed.op = .linalg c.fill ∨
      (placed.position = c.emptyPosition ∧ placed.op = .empty c.sizes c.type) := by
  simp only [List.mem_cons, List.not_mem_nil, or_false] at hposition
  rcases hposition with hmatmul | hfill | hempty
  · have hsingle : (Op.linalg c.matmul).results.length = 1 := by
      rw [Op.results, c.matmul_types]
      rfl
    exact Or.inl (placed_eq hm (linalgOp_eq_some c.matmul_found) hsingle hmatmul).2
  · have hsingle : (Op.linalg c.fill).results.length = 1 := by
      rw [Op.results, c.fill_types]
      rfl
    exact Or.inr (Or.inl (placed_eq hm (linalgOp_eq_some c.fill_found) hsingle hfill).2)
  · exact Or.inr (Or.inr
      ⟨hempty, (placed_eq hm (emptyOp_eq_some c.empty_found) rfl hempty).2⟩)

/-- An operation without effects has a value of its type. -/
def Progress (world : World) (values : List RuntimeValue) (placed : Placed) : Prop :=
  ∃ value type, placed.op.results = [type] ∧ HasType value type ∧
    pureValue world.arithmetic values placed.position placed.op = some value

/-- **Where all of its operands are defined, an operation without effects has a value.** -/
theorem incidental_progress (h : ValuesInv region world memory values)
    (hdeclared : ∀ stage ≤ 1, HasDeclaredTypes world.view (region.arguments stage)
      (region.types stage)) {placed : Placed} (hm : placed ∈ function.placed)
    (hfirst : placed.first = values.length) (hop : Incidental function.scope placed.op) :
    Progress world values placed := by
  have hverified := placed_verified region.verified hm
  have hlt : ∀ operand ∈ placed.op.operands, operand < values.length := by
    rw [← hfirst]
    exact hverified.dominated
  have hf := region.checked
  unfold Progress
  obtain ⟨position, first, op⟩ := placed
  cases op with
  | constant constant =>
    exact ⟨_, _, rfl, constantValue_hasType hverified.verified, rfl⟩
  | cast source type =>
    have htype : function.scope.type source = some (.tensor type) := of_decide_eq_true hop
    obtain ⟨value, hget, hvalue⟩ :=
      h.evaluated.typed_value (hlt source mem_cons_self) htype
    obtain ⟨shape, hshape, hconforms⟩ := hvalue.shape
    refine ⟨value, _, rfl, hvalue, ?_⟩
    simp only [pureValue, hget, hshape, hconforms, bind_eq_bind, bind_some, if_true]
  | dim source axis =>
    have haxis_lt := hlt axis (List.mem_cons_of_mem _ mem_cons_self)
    unfold Incidental safeIncidental at hop
    simp only at hop
    split at hop
    · rename_i type index htype hindex
      rw [Bool.and_eq_true, decide_eq_true_eq, decide_eq_true_eq] at hop
      obtain ⟨n, rfl⟩ := Int.eq_ofNat_of_zero_le hop.1
      obtain ⟨value, hget, hvalue⟩ :=
        h.evaluated.typed_value (hlt source mem_cons_self) htype
      obtain ⟨shape, hshape, hconforms⟩ := hvalue.shape
      -- the axis was checked against the static rank, which the view conforms to
      have hrank : n < shape.length := by
        rw [(conforms_iff.1 hconforms).1]
        exact_mod_cast hop.2
      refine ⟨.index shape[n], _, rfl, trivial, ?_⟩
      rw [pureValue_dim hget hshape (constantIndex_value h.evaluated hindex haxis_lt),
        List.getElem?_eq_getElem hrank]
      rfl
    · cases hop
  | empty sizes type =>
    obtain ⟨stage, hstage, hposition⟩ := region.validated_cases hm (Or.inr ⟨sizes, type, rfl⟩)
    obtain ⟨lhs, rhs, -, -, c, hvalidated, hmatrix, -⟩ := region.stage_computation hstage
    obtain ⟨rows, columns, hshape, hf32⟩ := isMatrix_eq_true hmatrix
    rcases computed_cases c hm (hvalidated ▸ hposition) with hop | hop | ⟨hposition', hop⟩
    · cases hop
    · cases hop
    · cases hop
      obtain ⟨m, n, hextents, hvalue⟩ := empty_progress c hf h.evaluated hshape hf32 hlt
      rw [← hposition'] at hvalue
      have htyped : HasType (.tensor ⟨[m, n], world.arithmetic.undefined position⟩)
          (.tensor c.type) := ⟨hf32, hextents.conforms hshape⟩
      exact ⟨_, _, rfl, htyped, hvalue⟩
  | linalg op =>
    obtain ⟨stage, hstage, hposition⟩ := region.validated_cases hm (Or.inl ⟨op, rfl⟩)
    obtain ⟨lhs, rhs, hlhs, hrhs, c, hvalidated, hmatrix, htype⟩ := region.stage_computation hstage
    obtain ⟨rows, columns, hshape, hf32⟩ := isMatrix_eq_true hmatrix
    rcases computed_cases c hm (hvalidated ▸ hposition) with hop | hop | ⟨-, hop⟩
    · cases hop
      have hleft : lhs < values.length := by
        have hoperand := hlt c.left (by simp [Op.operands, c.matmul_inputs])
        rw [← origin_strip hlhs, ← c.left_same]
        exact strip_lt hf.verify hoperand
      have hright : rhs < values.length := by
        have hoperand := hlt c.right (by simp [Op.operands, c.matmul_inputs])
        rw [← origin_strip hrhs, ← c.right_same]
        exact strip_lt hf.verify hoperand
      obtain ⟨A, B, m, k, n, hin, -, -⟩ :=
        inputs_of_lt h hdeclared hstage hlhs hrhs hleft hright htype
      obtain ⟨T, hT, hTtype, -, -⟩ := matmul_progress c hf h.evaluated hin hmatrix hlt
      exact ⟨_, .tensor c.matmulType, by rw [Op.results, c.matmul_types]; rfl, hTtype, hT⟩
    · cases hop
      obtain ⟨m, n, Z, -, hZ, hZtype, -, -⟩ := fill_progress c hf h.evaluated hshape hf32 hlt
      exact ⟨_, .tensor c.fillType, by rw [Op.results, c.fill_types]; rfl, hZtype, hZ⟩
    · cases hop
  | _ => exact absurd hop Bool.false_ne_true

/-- The invariant of an execution with `boundary` boundary operations behind it: its memory and
what has been observed are those of the source, and the guards behind it have passed. -/
structure Running (region : AcceptedRegion function) (world : World) (memory : Memory)
    (boundary : ℕ) (σ : State) : Prop where
  values : ValuesInv region world memory σ.values
  memory_eq : σ.memory = region.memoryAt world memory ((boundary - 1) / 2)
  trace_eq : σ.trace = (region.events world memory).take (boundary - 1)
  passed : ∀ stage ≤ 1, 2 + 2 * stage ≤ boundary → region.passed world stage = true

/-- An operation is executed, and the invariant is kept. -/
def Continues (region : AcceptedRegion function) (world : World) (memory : Memory)
    (boundary : ℕ) (σ : State) (placed : Placed) : Prop :=
  ∃ σ', step world σ placed = some (σ', true) ∧ Running region world memory boundary σ' ∧
    σ'.values.length = σ.values.length + placed.op.results.length

variable {σ : State} {placed : Placed} {boundary : ℕ}

theorem argument_eq (h : ValuesInv region world memory σ.values)
    (hlt : argument < function.arguments.length) : σ.argument argument = some argument := by
  unfold State.argument
  rw [h.evaluated.arguments argument hlt]

theorem defined_first (hm : placed ∈ function.placed) (hfirst : placed.first = σ.values.length)
    {types : List Ty} (hresults : placed.op.results = type :: types) :
    function.scope.definingOp σ.values.length = some (placed.position, placed.op) ∧
      function.scope.type σ.values.length = some type := by
  rw [← hfirst]
  exact ⟨definingOp_first hm (by rw [hresults]; exact Nat.succ_pos _), type_first hm hresults⟩

theorem ValuesInv.order (h : ValuesInv region world memory σ.values)
    (hop : function.scope.definingOp σ.values.length = some (k, op))
    (htype : function.scope.type σ.values.length = some .order) (hboundary : op.isBoundary = true)
    (hread : ∀ read, op ≠ .regionRead read) :
    ValuesInv region world memory (σ.values ++ [.order]) := by
  refine h.snoc hop htype trivial ?_ ?_ ?_
  · intro hincidental
    rw [isBoundary_of_incidental hincidental] at hboundary
    cases hboundary
  · intro read heq
    exact absurd heq (hread read)
  · intro commit _ heq
    cases heq

theorem step_begin (h : Running region world memory boundary σ) (hm : placed ∈ function.placed)
    (hfirst : placed.first = σ.values.length) (hop : placed.op = .regionBegin type)
    (hboundary : boundary = 0) : Continues region world memory (boundary + 1) σ placed := by
  have horder : type = .order := by
    have hverified := (placed_verified region.verified hm).verified
    rw [hop] at hverified
    exact of_decide_eq_true hverified
  obtain ⟨hdefined, htype⟩ := defined_first hm hfirst (by rw [hop]; rfl)
  have hvalues := h.values.order hdefined (htype.trans (congrArg some horder))
    (by rw [hop]; rfl) (by rw [hop]; nofun)
  refine ⟨σ.define [.order], by unfold step; rw [hop], ⟨hvalues, ?_, ?_, ?_⟩, ?_⟩
  · rw [hboundary]
    exact h.memory_eq.trans (by rw [hboundary])
  · rw [hboundary]
    exact h.trace_eq.trans (by rw [hboundary])
  · intro stage _ hle
    omega
  · rw [hop]
    exact length_append

theorem step_finish (h : Running region world memory boundary σ) {order : ℕ}
    (hop : placed.op = .regionEnd order) (hboundary : boundary = 5) :
    Continues region world memory (boundary + 1) σ placed := by
  refine ⟨σ, by unfold step; rw [hop], ⟨h.values, ?_, ?_, ?_⟩, by rw [hop]; rfl⟩
  · rw [h.memory_eq, hboundary]
  · rw [h.trace_eq, hboundary]
    rfl
  · intro stage hstage _
    exact h.passed stage hstage (by omega)

theorem step_of_not_boundary (h : placed.op.isBoundary = false) :
    step world σ placed = (pureValue world.arithmetic σ.values placed.position placed.op).bind
      fun value => some (σ.define [value], true) := by
  obtain ⟨position, first, op⟩ := placed
  cases op with
  | regionBegin | regionGuard | regionCommit | regionRead | regionEnd => cases h
  | _ => rfl

section

variable (h : Running region world memory boundary σ)
  (hdeclared : ∀ stage ≤ 1, HasDeclaredTypes world.view (region.arguments stage) (region.types stage))
  (hm : placed ∈ function.placed) (hfirst : placed.first = σ.values.length)

include h hdeclared hm hfirst

theorem step_incidental (hop : Incidental function.scope placed.op) :
    Continues region world memory boundary σ placed := by
  obtain ⟨value, type, hresults, hvalue, hpure⟩ :=
    incidental_progress h.values hdeclared hm hfirst hop
  obtain ⟨hdefined, htype⟩ := defined_first hm hfirst hresults
  have hnot := isBoundary_of_incidental hop
  have hvalues : ValuesInv region world memory (σ.values ++ [value]) := by
    refine h.values.snoc hdefined htype hvalue (fun _ _ => hpure) ?_ ?_
    · intro read heq
      rw [heq] at hnot
      cases hnot
    · intro commit heq
      rw [heq] at hnot
      cases hnot
  refine ⟨σ.define [value], ?_, ⟨hvalues, h.memory_eq, h.trace_eq, h.passed⟩, ?_⟩
  · rw [step_of_not_boundary hnot, hpure]
    rfl
  · rw [hresults]
    exact length_append

theorem step_read {read : RegionReadOp} (hop : placed.op = .regionRead read)
    (hboundary : boundary = 2 + 2 * read.stage) :
    Continues region world memory boundary σ placed := by
  obtain ⟨hstage, hrole, hdescriptor, htype, hf32⟩ := region.read_facts hm hop
  obtain ⟨hdefined, htyped⟩ := defined_first hm hfirst (by rw [hop]; rfl)
  rw [hop] at hdefined
  have hpassed := h.passed read.stage hstage (by omega)
  have hbounds := region.bound_lt hstage
  have hargument : σ.argument read.descriptor =
      some ((region.arguments read.stage).input read.roleIndex) := by
    rw [hdescriptor]
    refine argument_eq h.values ?_
    unfold Roles.input
    split
    · exact hbounds.2.1
    · exact hbounds.2.2
  have hmemory : σ.memory = region.memoryAt world memory read.stage := by
    rw [h.memory_eq, hboundary]
    congr 1
    omega
  have hview : (world.view ((region.arguments read.stage).input read.roleIndex)).read σ.memory =
      region.input world memory read.stage read.roleIndex := by
    rw [hmemory, input, views, World.views]
    unfold Roles.input
    split_ifs <;> rfl
  have hconforms : conforms (region.input world memory read.stage read.roleIndex).shape
      read.type = true := by
    have htypes := hdeclared read.stage hstage
    rw [← hview]
    rcases Nat.le_one_iff_eq_zero_or_eq_one.1 hrole with hzero | hone
    · rw [hzero] at htype ⊢
      exact htypes.lhs _ htype
    · rw [hone] at htype ⊢
      exact htypes.rhs _ htype
  have hvalues : ValuesInv region world memory (σ.values ++
      [.tensor (region.input world memory read.stage read.roleIndex)]) := by
    refine h.values.snoc hdefined htyped ⟨hf32, hconforms⟩ ?_ ?_ ?_
    · intro hincidental
      exact absurd hincidental Bool.false_ne_true
    · intro read' heq
      cases heq
      exact ⟨rfl, hpassed⟩
    · intro commit heq
      cases heq
  refine ⟨σ.define [.tensor (region.input world memory read.stage read.roleIndex)], ?_,
    ⟨hvalues, h.memory_eq, h.trace_eq, h.passed⟩, ?_⟩
  · unfold step
    rw [hop]
    simp only [hargument, bind_eq_bind, bind_some, hview, hconforms, if_true]
    rfl
  · rw [hop]
    exact length_append

theorem step_commit (hop : placed.op = .regionCommit commit)
    (hboundary : boundary = 2 + 2 * commit.stage) :
    Continues region world memory (boundary + 1) σ placed := by
  obtain ⟨hstage, horder, hcommit, htype, -, hdescriptor, -⟩ := region.commit_facts hm hop
  have hverified := placed_verified region.verified hm
  have hresults : placed.op.results = [.tensor commit.type, .order] := by
    rw [hop, ← horder]
    rfl
  obtain ⟨hdefined, htyped⟩ := defined_first hm hfirst hresults
  have hnext : function.scope.definingOp (σ.values.length + 1) =
      some (placed.position, placed.op) ∧
      function.scope.type (σ.values.length + 1) = some .order := by
    have hone : 1 < placed.op.results.length := by
      rw [hresults]
      exact Nat.lt_succ_self 1
    rw [← hfirst]
    refine ⟨definingOp_placed hm hone, ?_⟩
    rw [type_placed hm hone]
    simp only [hresults, List.getElem_cons_succ, List.getElem_cons_zero]
  rw [hop] at hdefined hnext
  have hpassed := h.passed commit.stage hstage (by omega)
  -- The stored value is traced back to the inputs of the call.
  obtain ⟨lhs, rhs, hlhs, hrhs, c, -, hmatrix, hresult⟩ := region.stage_computation hstage
  have hvalue_lt : (region.boundary.commit commit.stage).2.value < σ.values.length := by
    rw [hcommit, ← hfirst]
    exact hverified.dominated commit.value (by rw [hop]; exact mem_cons_self)
  have hmatmul := linalgOp_eq_some c.matmul_found
  have hsingle : (Op.linalg c.matmul).results.length = 1 := by
    rw [Op.results, c.matmul_types]
    rfl
  have hstrip := strip_lt region.verified hvalue_lt
  have hleft : lhs < σ.values.length := by
    have hoperand := operand_lt region.verified hmatmul hsingle
      (show c.left ∈ (Op.linalg c.matmul).operands by simp [Op.operands, c.matmul_inputs])
    rw [← origin_strip hlhs, ← c.left_same]
    exact strip_lt region.verified (lt_trans hoperand hstrip)
  have hright : rhs < σ.values.length := by
    have hoperand := operand_lt region.verified hmatmul hsingle
      (show c.right ∈ (Op.linalg c.matmul).operands by simp [Op.operands, c.matmul_inputs])
    rw [← origin_strip hrhs, ← c.right_same]
    exact strip_lt region.verified (lt_trans hoperand hstrip)
  obtain ⟨A, B, m, k, n, hin, houtput, hagrees⟩ :=
    inputs_of_lt h.values hdeclared hstage hlhs hrhs hleft hright hresult
  obtain ⟨T, hT, hTshape, hTagrees⟩ := matmul_value c region.checked h.values.evaluated hin hmatrix
    (origin_strip hlhs) (origin_strip hrhs) hvalue_lt
  rw [hcommit] at hT
  have hTresult := hTagrees.trans hagrees
  have hTview : T.shape = (world.view (region.arguments commit.stage).output).shape :=
    hTshape.trans houtput.symm
  -- What it leaves in memory and what is observed are those of the source.
  have hargument : σ.argument commit.descriptor = some (region.arguments commit.stage).output := by
    rw [hdescriptor]
    exact argument_eq h.values (region.bound_lt hstage).1
  have hmemory : (world.view (region.arguments commit.stage).output).write σ.memory T =
      region.memoryAt world memory (commit.stage + 1) := by
    have hbefore : σ.memory = region.memoryAt world memory commit.stage := by
      rw [h.memory_eq, hboundary]
      congr 1
      omega
    rw [hbefore, View.write_congr hTresult hTview]
    rfl
  have hevent : σ.trace ++ [Event.commit commit.stage (region.arguments commit.stage).output
      T.shape (elements T)] = (region.events world memory).take (boundary + 1 - 1) := by
    rw [h.trace_eq, hTresult.shape, elements_congr hTresult, hboundary]
    rcases Nat.le_one_iff_eq_zero_or_eq_one.1 hstage with hzero | hone
    · rw [hzero]
      rfl
    · rw [hone]
      rfl
  have htensor : HasType (.tensor T) (.tensor commit.type) := h.values.evaluated.typed _ _ _ hT htype
  have hvalues : ValuesInv region world memory (σ.values ++ [.tensor T]) := by
    refine h.values.snoc hdefined htyped htensor ?_ ?_ ?_
    · intro hincidental
      exact absurd hincidental Bool.false_ne_true
    · intro read heq
      cases heq
    · intro commit' heq _
      cases heq
      exact ⟨⟨T, rfl, hTresult⟩, hpassed⟩
  let σ' : State := ⟨region.memoryAt world memory (commit.stage + 1), σ.values ++ [.tensor T],
    (region.events world memory).take (boundary + 1 - 1)⟩
  have hlength : σ'.values.length = σ.values.length + 1 := length_append
  have hvalues' : ValuesInv region world memory (σ'.values ++ [.order]) :=
    ValuesInv.order hvalues (by rw [hlength]; exact hnext.1) (by rw [hlength]; exact hnext.2) rfl
      fun read heq => by cases heq
  refine ⟨σ'.define [.order], ?_, ⟨hvalues', ?_, rfl, ?_⟩, ?_⟩
  · unfold step
    rw [hop]
    simp only [hargument, bind_eq_bind, bind_some, hT, if_pos hTview, hmemory, hevent]
    simp only [State.define, σ', List.append_assoc, List.singleton_append]
    rfl
  · show region.memoryAt world memory (commit.stage + 1) = _
    rw [hboundary]
    congr 1
    omega
  · intro stage hstage' hle
    exact h.passed stage hstage' (by omega)
  · rw [hresults]
    simp [σ', State.define]

end

theorem runCall_of_passed (h : region.passed world stage = true) (trace : List Event) :
    runCall world (region.call stage) stage ⟨region.memoryAt world memory stage, trace, true⟩ =
      ⟨region.memoryAt world memory (stage + 1),
        trace ++ [.guard stage (region.arguments stage) true] ++
          [.commit stage (region.arguments stage).output (region.result world memory stage).shape
            (elements (region.result world memory stage))], true⟩ := by
  have hguard : guardHolds (world.floating stage) (world.views (region.call stage).descriptors)
      (region.call stage).ledger = true := h
  unfold runCall
  simp only [hguard, if_true]
  rfl

theorem runCall_of_failed (h : region.passed world stage = false) (before : Outcome) :
    runCall world (region.call stage) stage before =
      ⟨before.memory, before.trace ++ [.guard stage (region.arguments stage) false], false⟩ := by
  have hguard : guardHolds (world.floating stage) (world.views (region.call stage).descriptors)
      (region.call stage).ledger = false := h
  unfold runCall
  simp only [hguard, Bool.false_eq_true, if_false]
  rfl

/-- **What the source does** when both guards pass. -/
theorem source_of_passed (hzero : region.passed world 0 = true)
    (hone : region.passed world 1 = true) : region.source world memory =
      ⟨region.memoryAt world memory 2, region.events world memory, true⟩ := by
  unfold source runSource
  have hfirst := @runCall_of_passed function region world memory 0 hzero []
  have hsecond := @runCall_of_passed function region world memory 1 hone
    ((region.events world memory).take 2)
  simp only [memoryAt] at hfirst hsecond ⊢
  rw [hfirst]
  exact hsecond

/-- **What the source does** when a guard does not pass: it stops there. -/
theorem source_of_failed (hstage : stage ≤ 1)
    (hbefore : ∀ earlier < stage, region.passed world earlier = true)
    (h : region.passed world stage = false) :
    region.source world memory = ⟨region.memoryAt world memory stage,
      (region.events world memory).take (2 * stage) ++
        [.guard stage (region.arguments stage) false], false⟩ := by
  unfold source runSource
  rcases Nat.le_one_iff_eq_zero_or_eq_one.1 hstage with rfl | rfl
  · rw [runCall_of_failed h]
    rfl
  · have hfirst := @runCall_of_passed function region world memory 0 (hbefore 0 Nat.one_pos) []
    simp only [memoryAt] at hfirst ⊢
    rw [hfirst]
    rw [runCall_of_failed h]
    rfl

/-- **A guard** is the frontier of its call: the region goes on behind it where the source does, and
stops with it. -/
theorem step_guard (h : Running region world memory boundary σ)
    (hm : placed ∈ function.placed) (hfirst : placed.first = σ.values.length)
    {guard : RegionGuardOp} (hop : placed.op = .regionGuard guard)
    (hboundary : boundary = 1 + 2 * guard.stage) :
    Continues region world memory (boundary + 1) σ placed ∨
      ∃ σ', step world σ placed = some (σ', false) ∧
        ⟨σ'.memory, σ'.trace, false⟩ = region.source world memory := by
  obtain ⟨hstage, horder, houtput, hlhs, hrhs, hledger⟩ := region.guard_facts hm hop
  obtain ⟨hdefined, htype⟩ := defined_first hm hfirst (by rw [hop]; rfl)
  have hbounds := region.bound_lt hstage
  have houtput' : σ.argument guard.output = some (region.arguments guard.stage).output := by
    rw [houtput]
    exact argument_eq h.values hbounds.1
  have hlhs' : σ.argument guard.lhs = some (region.arguments guard.stage).lhs := by
    rw [hlhs]
    exact argument_eq h.values hbounds.2.1
  have hrhs' : σ.argument guard.rhs = some (region.arguments guard.stage).rhs := by
    rw [hrhs]
    exact argument_eq h.values hbounds.2.2
  have hmemory : σ.memory = region.memoryAt world memory guard.stage := by
    rw [h.memory_eq, hboundary]
    congr 1
    omega
  have htrace : σ.trace = (region.events world memory).take (2 * guard.stage) := by
    rw [h.trace_eq, hboundary, Nat.add_sub_cancel_left]
  let descriptors := region.arguments guard.stage
  let passed := region.passed world guard.stage
  have hstep : step world σ placed = some (State.define
      ⟨σ.memory, σ.values, σ.trace ++ [Event.guard guard.stage descriptors passed]⟩ [.order],
      passed) := by
    unfold step
    rw [hop]
    simp only [houtput', hlhs', hrhs', bind_eq_bind, bind_some, hledger]
    rfl
  cases hpassed : region.passed world guard.stage with
  | false =>
    -- the source stops at its first call that fails, which is this one
    refine Or.inr ⟨_, hstep.trans (by simp only [passed, hpassed]; rfl), ?_⟩
    have hbefore : ∀ earlier < guard.stage, region.passed world earlier = true := by
      intro earlier hlt
      exact h.passed earlier (by omega) (by omega)
    rw [source_of_failed hstage hbefore hpassed]
    simp only [State.define, hmemory, htrace, descriptors]
  | true =>
    have hvalues := h.values.order hdefined (htype.trans (congrArg some horder))
      (by rw [hop]; rfl) (by rw [hop]; nofun)
    refine Or.inl ⟨_, hstep.trans (by simp only [passed, hpassed]; rfl),
      ⟨hvalues, ?_, ?_, ?_⟩, ?_⟩
    · simp only [State.define]
      rw [hmemory, hboundary]
      congr 1
      omega
    · simp only [State.define, descriptors]
      rw [htrace, hboundary]
      rcases Nat.le_one_iff_eq_zero_or_eq_one.1 hstage with hzero | hone
      · rw [hzero]
        rfl
      · rw [hone]
        rfl
    · intro stage hstage' hle
      rcases Nat.lt_or_ge stage guard.stage with hlt | hge
      · exact h.passed stage hstage' (by omega)
      · obtain rfl : stage = guard.stage := by omega
        exact hpassed
    · rw [hop]
      exact length_append

/-- **The rest of the block** does what is left of the source. -/
theorem run_sound (hdeclared : ∀ stage ≤ 1, HasDeclaredTypes world.view (region.arguments stage)
      (region.types stage)) {ops : List Op} {position : ℕ} {scanned : Scan}
    (h : Running region world memory scanned.boundary σ)
    (hmem : ∀ placed ∈ placedFrom position σ.values.length ops, placed ∈ function.placed)
    (hscan : (placedFrom position σ.values.length ops).foldlM
      (scanStep function.scope region.forwarded) scanned = .ok region.final) :
    run world σ (placedFrom position σ.values.length ops) =
      some (region.source world memory) := by
  induction ops generalizing position scanned σ with
  | nil =>
    have hfinal : scanned = region.final := Except.ok.inj hscan
    have hsix : scanned.boundary = 6 := by rw [hfinal, region.final_boundary]
    rw [hsix] at h
    have hsource := @source_of_passed function region world memory
      (h.passed 0 (Nat.zero_le 1) (by omega)) (h.passed 1 le_rfl (by omega))
    rw [placedFrom, run, hsource, h.memory_eq, h.trace_eq]
    rfl
  | cons op rest ih =>
    rw [placedFrom] at hmem hscan ⊢
    rw [List.foldlM_cons] at hscan
    obtain ⟨next, hstep, hrest⟩ := bind_eq_ok hscan
    have hm := hmem _ mem_cons_self
    have hcontinue : Continues region world memory next.boundary σ
          ⟨position, σ.values.length, op⟩ →
        run world σ (⟨position, σ.values.length, op⟩ ::
          placedFrom (position + 1) (σ.values.length + op.results.length) rest) =
          some (region.source world memory) := by
      rintro ⟨σ', hσ', hrunning, hlength⟩
      rw [← hlength] at hmem hrest ⊢
      rw [run, hσ']
      exact ih hrunning (fun placed hp => hmem placed (List.mem_cons_of_mem _ hp)) hrest
    cases scanStep_inv hstep with
    | begin hop hboundary => exact hcontinue (step_begin h hm rfl hop hboundary)
    | guard hop _ hboundary =>
      rcases step_guard h hm rfl hop hboundary with hgoes | ⟨σ', hσ', hsource⟩
      · exact hcontinue hgoes
      · rw [run, hσ', ← hsource]
        rfl
    | commit hop _ hboundary => exact hcontinue (step_commit h hdeclared hm rfl hop hboundary)
    | read hop _ hboundary _ => exact hcontinue (step_read h hdeclared hm rfl hop hboundary)
    | finish hop hboundary => exact hcontinue (step_finish h hop hboundary)
    | incidental hop => exact hcontinue (step_incidental h hdeclared hm rfl hop)

theorem valuesInv_arguments :
    ValuesInv region world memory (argumentValues function) := by
  have hlength : (argumentValues function).length = function.arguments.length := by
    unfold argumentValues
    rw [length_map, List.length_range]
  have hnone : ∀ v k op, function.scope.definingOp v = some (k, op) →
      ¬ v < (argumentValues function).length := by
    intro v k op hop
    rw [hlength, not_lt]
    exact arguments_le_of_definingOp hop
  have hget : ∀ v < function.arguments.length,
      (argumentValues function)[v]? = some (.descriptor v) := by
    intro v hv
    unfold argumentValues
    rw [List.getElem?_map, List.getElem?_range hv]
    rfl
  refine ⟨⟨hget, ?_, ?_⟩, ?_, ?_⟩
  · intro v value type hvalue htype
    obtain ⟨hlt, -⟩ := List.getElem?_eq_some_iff.1 hvalue
    rw [hlength] at hlt
    have hargument := type_argument (List.getElem?_eq_getElem hlt)
    rw [htype] at hargument
    rw [hget v hlt] at hvalue
    rw [← Option.some.inj hvalue, Option.some.inj hargument,
      region.arguments_type _ (List.getElem_mem hlt)]
    trivial
  · intro v k op hop hlt
    exact absurd hlt (hnone v k op hop)
  · intro v k read hop hlt
    exact absurd hlt (hnone v k _ hop)
  · intro v k commit hop _ hlt
    exact absurd hlt (hnone v k _ hop)

theorem executeRegion_eq (region : AcceptedRegion function) (hdeclared : ∀ stage ≤ 1,
      HasDeclaredTypes world.view (region.arguments stage) (region.types stage)) :
    executeRegion world function memory = some (region.source world memory) := by
  have hlength : (argumentValues function).length = function.arguments.length := by
    unfold argumentValues
    rw [length_map, List.length_range]
  let σ : State := ⟨memory, argumentValues function, []⟩
  have hrunning : Running region world memory ({} : Scan).boundary σ :=
    ⟨valuesInv_arguments, rfl, rfl, fun stage _ hle => absurd hle (by simp)⟩
  have hplaced : function.placed = placedFrom 0 σ.values.length function.ops := by
    unfold RegionFunction.placed
    rw [← hlength]
  have hscan := region.scanned
  unfold executeRegion
  unfold scan at hscan
  rw [hplaced] at hscan ⊢
  exact run_sound hdeclared hrunning (fun placed hp => by rwa [hplaced]) hscan

end AcceptedRegion

/-- **The verifier of two-GEMM regions is sound.** A function that it accepts, on any memory and
any descriptors of the declared types, wherever they lie, is executed to the end and does what the
two calls of its source contract do in order: each behind its guard reads its inputs, the second
one from the memory that the first has left, and commits their contraction. -/
theorem region_sound (h : verifyTwoGemmRegion function = .ok ()) :
    ∃ first second, sourceCall function 0 = .ok first ∧ sourceCall function 1 = .ok second ∧
      ∀ (descriptors : Descriptors function) (arithmetic : Arithmetic) (floating : ℕ → Bool)
        (memory : Memory), executeRegion ⟨arithmetic, descriptors.view, floating⟩ function memory =
          some (runSource ⟨arithmetic, descriptors.view, floating⟩ first second memory) := by
  obtain ⟨region⟩ := accepted_of_verify h
  refine ⟨region.call 0, region.call 1, region.sourceCall_eq (Nat.zero_le 1),
    region.sourceCall_eq le_rfl, ?_⟩
  intro descriptors arithmetic floating memory
  refine region.executeRegion_eq ?_
  intro stage hstage
  exact descriptors.declared stage hstage _ _ _ _ region.sites_eq (region.bound stage hstage)
    (region.stage stage hstage).hasType

/-- A call of the capture, on dynamic matrices aligned to their elements. -/
def capturedSite (site output lhs rhs : String) : CapturedSite where
  siteId := ascii site
  semantics := .ofList [
    ("site_id", .string (ascii site)),
    ("output_semantics", .dictionary (.ofList [("alignment_bytes", .integer 64 4)])),
    ("lhs_semantics", .dictionary (.ofList [("alignment_bytes", .integer 64 4)])),
    ("rhs_semantics", .dictionary (.ofList [("alignment_bytes", .integer 64 4)]))]
  type :=
    let matrix : Ty := .tensor ⟨[none, none], .f32, none⟩
    ⟨[matrix, matrix, matrix], [matrix]⟩
  bindings :=
    let binding (name : String) : CapturedBinding := ⟨ascii name, ascii name, ascii name⟩
    ⟨binding output, binding lhs, binding rhs⟩

/-- A binding of `capturedSite`, where its descriptor has got a number. -/
def capturedBinding (stage : ℕ) (name : String) (argument : Mlir.Value) :
    Mlir.Attribute :=
  .dictionary (.ofList [
    ("descriptor", .string (ascii name)),
    ("declaration", .string (ascii name)),
    ("source_expression", .string (ascii name)),
    ("snapshot_stage", .integer 64 stage),
    ("argument", .integer 64 argument)])

theorem exists_ledger {site : CapturedSite} {bindings : List Mlir.Attribute} {stage : ℕ}
    (h : (buildRegionGuardLedger site.semantics bindings stage).isOk = true) :
    ∃ ledger, buildRegionGuardLedger site.semantics bindings stage = .ok ledger := by
  cases hbuild : buildRegionGuardLedger site.semantics bindings stage with
  | error message =>
    rw [hbuild] at h
    cases h
  | ok ledger => exact ⟨ledger, rfl⟩

theorem verify_chained :
    ∃ source, collectSource (capturedSite "s0" "C" "A" "B") (capturedSite "s1" "E" "C" "D") =
        .ok source ∧ verifyTwoGemmRegion (appendRegion source) = .ok () := by
  obtain ⟨ledger0, h0⟩ := @exists_ledger (capturedSite "s0" "C" "A" "B")
    [capturedBinding 0 "C" 0, capturedBinding 0 "A" 1, capturedBinding 0 "B" 2] 0
    (by decide +kernel)
  obtain ⟨ledger1, h1⟩ := @exists_ledger (capturedSite "s1" "E" "C" "D")
    [capturedBinding 1 "E" 3, capturedBinding 1 "C" 0, capturedBinding 1 "D" 4] 1
    (by decide +kernel)
  have hverify0 := verify_of_build h0
  have hverify1 := verify_of_build h1
  -- The ledgers stay closed: their rows have been read back for every contract.
  generalize hverify : verifyRegionGuardLedger = verify at hverify0 hverify1
  generalize hbuild : buildRegionGuardLedger = build at h0 h1
  conv at h0 => lhs; arg 2; cbv
  conv at h1 => lhs; arg 2; cbv
  conv at hverify0 => lhs; arg 2; cbv
  conv at hverify0 => lhs; arg 3; cbv
  conv at hverify1 => lhs; arg 2; cbv
  conv at hverify1 => lhs; arg 3; cbv
  refine ⟨?source, ?collected, ?verified⟩
  case collected =>
    unfold collectSource collectStage
    rw [hbuild]
    conv => lhs; cbv
    rw [h0]
    conv => lhs; cbv
    rw [h1]
    conv => lhs; cbv
  case verified =>
    unfold verifyTwoGemmRegion verifyFunction verifyParts verifyStage
    rw [hverify]
    conv => lhs; cbv
    simp only [hverify0]
    conv => lhs; cbv
    simp only [one_ne_zero, if_false, hverify1]
    conv => lhs; cbv

/-- The region of `C = A * B` and `E = C * D`, as it is built. -/
theorem region_sound_chained :
    ∃ source, collectSource (capturedSite "s0" "C" "A" "B") (capturedSite "s1" "E" "C" "D") =
        .ok source ∧
      ∃ first second, sourceCall (appendRegion source) 0 = .ok first ∧
        sourceCall (appendRegion source) 1 = .ok second ∧
        ∀ (descriptors : Descriptors (appendRegion source)) (arithmetic : Arithmetic)
          (floating : ℕ → Bool) (memory : Memory),
          executeRegion ⟨arithmetic, descriptors.view, floating⟩ (appendRegion source) memory =
            some (runSource ⟨arithmetic, descriptors.view, floating⟩ first second memory) := by
  obtain ⟨source, hsource, hverify⟩ := verify_chained
  exact ⟨source, hsource, region_sound hverify⟩

end Matcore.TwoGemm
