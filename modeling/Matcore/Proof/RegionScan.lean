import Matcore.Proof.GuardLedger
import Matcore.Proof.RegionScope

/-!
# What an accepted region function is

The scan of the block and the checks behind it, as facts about each operation.
-/

namespace Matcore.TwoGemm

open Function (update update_of_ne update_self)
open Except (error_ite_eq_ok ite_error_eq_ok bind_eq_ok)
open Mlir (Attribute Entries)

variable {function : RegionFunction} {scope : Scope} {forwarded : ℕ}

/-- What the verifier accepts beside the boundary operations. -/
def Incidental (scope : Scope) : Op → Prop
  | .linalg _ | .empty _ _ => True
  | op => safeIncidental scope op = true

/-- What the scan does with one operation. -/
inductive ScanStep (scope : Scope) (forwarded : ℕ) (σ : Scan) (placed : Placed) : Scan → Prop
  | begin {type : Ty} (hop : placed.op = .regionBegin type) (hboundary : σ.boundary = 0) :
    ScanStep scope forwarded σ placed
      { σ with begin := some placed.first, boundary := σ.boundary + 1 }
  | guard {op : RegionGuardOp} (hop : placed.op = .regionGuard op)
    (hnew : σ.guard op.stage = none) (hboundary : σ.boundary = 1 + 2 * op.stage) :
    ScanStep scope forwarded σ placed { σ with
      guard := update σ.guard op.stage (some (placed.first, op))
      boundary := σ.boundary + 1 }
  | commit {op : RegionCommitOp} (hop : placed.op = .regionCommit op)
    (hnew : σ.commit op.stage = none) (hboundary : σ.boundary = 2 + 2 * op.stage) :
    ScanStep scope forwarded σ placed { σ with
      commit := update σ.commit op.stage (some (placed.first, op))
      boundary := σ.boundary + 1 }
  | read {op : RegionReadOp} (hop : placed.op = .regionRead op)
    (hnew : σ.reads op.stage op.roleIndex = none) (hboundary : σ.boundary = 2 + 2 * op.stage)
    (hcarried : ¬(op.stage = 1 ∧ op.roleIndex = forwarded)) :
    ScanStep scope forwarded σ placed { σ with
      reads := update σ.reads op.stage
        (update (σ.reads op.stage) op.roleIndex (some (placed.first, op))) }
  | finish {order : ℕ} (hop : placed.op = .regionEnd order) (hboundary : σ.boundary = 5) :
    ScanStep scope forwarded σ placed
      { σ with finish := some order, boundary := σ.boundary + 1 }
  | incidental (hop : Incidental scope placed.op) : ScanStep scope forwarded σ placed σ

variable {σ' σ : Scan} {placed : Placed}

/-- What the scan does with one operation. -/
theorem scanStep_inv (h : scanStep scope forwarded σ placed = .ok σ') :
    ScanStep scope forwarded σ placed σ' := by
  unfold scanStep at h
  split at h
  · rename_i hop
    obtain ⟨hcheck, h⟩ := error_ite_eq_ok.1 h
    push Not at hcheck
    cases h
    exact .begin hop hcheck.2
  · rename_i hop
    obtain ⟨hcheck, h⟩ := error_ite_eq_ok.1 h
    push Not at hcheck
    cases h
    exact .guard hop (Option.not_isSome_iff_eq_none.1 hcheck.2.1) hcheck.2.2
  · rename_i hop
    obtain ⟨hcheck, h⟩ := error_ite_eq_ok.1 h
    push Not at hcheck
    cases h
    exact .commit hop (Option.not_isSome_iff_eq_none.1 hcheck.1) hcheck.2
  · rename_i hop
    obtain ⟨hcheck, h⟩ := error_ite_eq_ok.1 h
    simp only [not_or, not_not] at hcheck
    cases h
    exact .read hop (Option.not_isSome_iff_eq_none.1 hcheck.2.2.1) hcheck.2.1 hcheck.2.2.2
  · rename_i hop
    obtain ⟨hcheck, h⟩ := error_ite_eq_ok.1 h
    push Not at hcheck
    cases h
    exact .finish hop hcheck.2
  · rename_i hop
    obtain ⟨-, h⟩ := ite_error_eq_ok.1 h
    cases h
    exact .incidental (by rw [hop]; trivial)
  · rename_i hop
    cases h
    exact .incidental (by rw [hop]; trivial)
  · obtain ⟨hcheck, h⟩ := ite_error_eq_ok.1 h
    cases h
    refine .incidental ?_
    unfold Incidental
    split
    · trivial
    · trivial
    · exact hcheck

def Op.asGuard : Op → Option (ℕ × RegionGuardOp)
  | .regionGuard op => some (op.stage, op)
  | _ => none

def Op.asCommit : Op → Option (ℕ × RegionCommitOp)
  | .regionCommit op => some (op.stage, op)
  | _ => none

def Op.asRead : Op → Option ((ℕ × ℕ) × RegionReadOp)
  | .regionRead op => some ((op.stage, op.roleIndex), op)
  | _ => none

def Op.isBoundary : Op → Bool
  | .regionBegin _ | .regionGuard _ | .regionCommit _ | .regionRead _ | .regionEnd _ => true
  | _ => false

theorem isBoundary_of_incidental {op : Op} (h : Incidental scope op) : op.isBoundary = false := by
  cases op with
  | regionBegin | regionGuard | regionCommit | regionRead | regionEnd =>
    exact absurd h Bool.false_ne_true
  | _ => rfl

theorem select_eq_none {op : Op} (h : op.isBoundary = false) :
    op.asGuard = none ∧ op.asCommit = none ∧ op.asRead = none ∧
      ∀ read, op ≠ .regionRead read := by
  cases op with
  | regionBegin | regionGuard | regionCommit | regionRead | regionEnd => cases h
  | _ => exact ⟨rfl, rfl, rfl, nofun⟩

/-- The operations of one kind that have been scanned are recorded by their keys, and no others. -/
structure Records {κ α : Type} (select : Op → Option (κ × α)) (scanned : List Placed)
    (record : κ → Option (ℕ × α)) : Prop where
  found : ∀ placed ∈ scanned, ∀ key op, select placed.op = some (key, op) →
    record key = some (placed.first, op)
  mem : ∀ key first op, record key = some (first, op) →
    ∃ placed ∈ scanned, placed.first = first ∧ select placed.op = some (key, op)

section

variable {κ α : Type} {select : Op → Option (κ × α)} {scanned : List Placed}
  {record : κ → Option (ℕ × α)} {placed : Placed}

theorem Records.same (h : Records select scanned record) (hop : select placed.op = none) :
    Records select (scanned ++ [placed]) record := by
  constructor
  · intro placed' hm key op hselect
    rcases List.mem_append.1 hm with hold | hnew
    · exact h.found placed' hold key op hselect
    · rw [List.mem_singleton.1 hnew, hop] at hselect
      cases hselect
  · intro key first op hrecord
    obtain ⟨placed', hm, hplaced'⟩ := h.mem key first op hrecord
    exact ⟨placed', List.mem_append_left _ hm, hplaced'⟩

theorem Records.new [DecidableEq κ] {key : κ} {op : α} (h : Records select scanned record)
    (hop : select placed.op = some (key, op)) (hnone : record key = none) :
    Records select (scanned ++ [placed]) (update record key (some (placed.first, op))) := by
  constructor
  · intro placed' hm key' op' hselect
    rcases List.mem_append.1 hm with hold | hnew
    · have hrecord := h.found placed' hold key' op' hselect
      have hne : key' ≠ key := by
        rintro rfl
        rw [hnone] at hrecord
        cases hrecord
      rw [update_of_ne hne, hrecord]
    · rw [List.mem_singleton.1 hnew, hop] at hselect
      cases hselect
      rw [update_self, List.mem_singleton.1 hnew]
  · intro key' first op' hrecord
    by_cases heq : key' = key
    · rw [heq, update_self] at hrecord
      cases hrecord
      exact ⟨placed, List.mem_append_right _ (List.mem_singleton_self _), rfl, heq ▸ hop⟩
    · rw [update_of_ne heq] at hrecord
      obtain ⟨placed', hm, hplaced'⟩ := h.mem key' first op' hrecord
      exact ⟨placed', List.mem_append_left _ hm, hplaced'⟩

end

/-- What the scan knows of the operations it has passed. -/
structure Recorded (forwarded : ℕ) (scope : Scope) (scanned : List Placed) (σ : Scan) : Prop where
  guard : Records Op.asGuard scanned σ.guard
  commit : Records Op.asCommit scanned σ.commit
  read : Records Op.asRead scanned fun key => σ.reads key.1 key.2
  notCarried : ∀ placed ∈ scanned, ∀ op, placed.op = .regionRead op →
    ¬(op.stage = 1 ∧ op.roleIndex = forwarded)
  incidental : ∀ placed ∈ scanned, placed.op.isBoundary = false → Incidental scope placed.op

theorem recorded_nil : Recorded forwarded scope [] {} :=
  ⟨⟨nofun, nofun⟩, ⟨nofun, nofun⟩, ⟨nofun, nofun⟩, nofun, nofun⟩

variable {scanned : List Placed}

theorem forall_mem_snoc {P : Placed → Prop} (h : ∀ placed' ∈ scanned, P placed') (hnew : P placed) :
    ∀ placed' ∈ scanned ++ [placed], P placed' := by
  intro placed' hm
  rcases List.mem_append.1 hm with hold | hlast
  · exact h placed' hold
  · rwa [List.mem_singleton.1 hlast]

/-- **One operation** is recorded beside those before it. -/
theorem recorded_step (h : Recorded forwarded scope scanned σ)
    (hstep : ScanStep scope forwarded σ placed σ') :
    Recorded forwarded scope (scanned ++ [placed]) σ' := by
  have hquiet : placed.op.isBoundary = true →
      ∀ placed' ∈ scanned ++ [placed], placed'.op.isBoundary = false →
        Incidental scope placed'.op :=
    fun hboundary => forall_mem_snoc h.incidental fun hfalse => by
      rw [hboundary] at hfalse
      cases hfalse
  have hreads : (∀ op, placed.op ≠ .regionRead op) → ∀ placed' ∈ scanned ++ [placed], ∀ op,
      placed'.op = .regionRead op → ¬(op.stage = 1 ∧ op.roleIndex = forwarded) :=
    fun hne => forall_mem_snoc h.notCarried fun op hop => absurd hop (hne op)
  obtain ⟨position, first, op⟩ := placed
  cases hstep with
  | begin hop _ | finish hop _ =>
    cases hop
    exact ⟨h.guard.same rfl, h.commit.same rfl, h.read.same rfl, hreads nofun, hquiet rfl⟩
  | guard hop hnone _ =>
    cases hop
    exact ⟨h.guard.new rfl hnone, h.commit.same rfl, h.read.same rfl, hreads nofun, hquiet rfl⟩
  | commit hop hnone _ =>
    cases hop
    exact ⟨h.guard.same rfl, h.commit.new rfl hnone, h.read.same rfl, hreads nofun, hquiet rfl⟩
  | @read op hop hnone _ hcarried =>
    cases hop
    have hread : Records Op.asRead (scanned ++ [⟨position, first, .regionRead op⟩])
        (update (fun key : ℕ × ℕ => σ.reads key.1 key.2) (op.stage, op.roleIndex)
          (some (first, op))) := h.read.new rfl hnone
    refine ⟨h.guard.same rfl, h.commit.same rfl, ?_,
      forall_mem_snoc h.notCarried fun op' hop' => ?_, hquiet rfl⟩
    · convert hread using 2 with key
      obtain ⟨stage, role⟩ := key
      simp only [Function.update_apply, Prod.mk.injEq]
      split_ifs <;> simp_all
    · cases hop'
      exact hcarried
  | incidental hop =>
    have hnone := select_eq_none (isBoundary_of_incidental hop)
    exact ⟨h.guard.same hnone.1, h.commit.same hnone.2.1, h.read.same hnone.2.2.1,
      hreads hnone.2.2.2, forall_mem_snoc h.incidental fun _ => hop⟩

theorem recorded_foldlM {rest : List Placed} (h : Recorded forwarded scope scanned σ)
    (hscan : rest.foldlM (scanStep scope forwarded) σ = .ok σ') :
    Recorded forwarded scope (scanned ++ rest) σ' := by
  induction rest generalizing scanned σ with
  | nil =>
    cases hscan
    rwa [List.append_nil]
  | cons placed rest ih =>
    rw [List.foldlM_cons] at hscan
    obtain ⟨between, hstep, hrest⟩ := bind_eq_ok hscan
    have hall := ih (recorded_step h (scanStep_inv hstep)) hrest
    rwa [List.append_assoc, List.singleton_append] at hall

/-- The scan has recorded every boundary operation of the block. -/
theorem recorded_run {placed : List Placed} (h : scan scope forwarded placed = .ok σ) :
    Recorded forwarded scope placed σ := recorded_foldlM recorded_nil h

theorem check_eq_ok {condition : Bool} {message : String} {result : Unit}
    (h : check condition message = .ok result) : condition = true :=
  (ite_error_eq_ok.1 h).1

/-- The input of a call by the number of its role. -/
def Roles.input {α : Type} (roles : Roles α) (role : ℕ) : α :=
  if role = 0 then roles.lhs else roles.rhs

/-- What the checks of one call establish. -/
structure StageFacts (scope : Scope) (boundary : Boundary) (forwarded : ℕ)
    (arguments : Roles ℕ) (site : Option RegionSite) (stage : ℕ) (validated : List ℕ)
    (bindings : List Attribute) (type : FunctionType) : Prop where
  hasBindings : asArray ((siteEntries site).get "bindings") = some bindings
  hasType : site.bind (·.tensorType) = some type
  contract : (siteEntries site).get "source_contract" =
    some (.dictionary (boundary.guard stage).2.semanticContract)
  ledger : buildRegionGuardLedger (boundary.guard stage).2.semanticContract bindings stage =
    .ok (boundary.guard stage).2.guardLedger
  output : (boundary.guard stage).2.output = arguments.output
  lhs : (boundary.guard stage).2.lhs = arguments.lhs
  rhs : (boundary.guard stage).2.rhs = arguments.rhs
  descriptor : (boundary.commit stage).2.descriptor = arguments.output
  result : type.results[0]? = some (.tensor (boundary.commit stage).2.type)
  reads : ∀ role ≤ 1, stage = 0 ∨ role ≠ forwarded → ∃ first read,
    boundary.reads stage role = some (first, read) ∧ read.descriptor = arguments.input role ∧
      type.inputs[role]? = some (.tensor read.type)
  computed : ∃ lhs rhs, inputValue boundary forwarded stage 0 = some lhs ∧
    inputValue boundary forwarded stage 1 = some rhs ∧
    computation scope (boundary.commit stage).2 lhs rhs = .ok validated

variable {boundary : Boundary} {stage : ℕ}

theorem readMatches_eq_true {role descriptor : ℕ} {type : Option Ty}
    (h : readMatches boundary forwarded stage role descriptor type = true)
    (hread : stage = 0 ∨ role ≠ forwarded) : ∃ first read,
      boundary.reads stage role = some (first, read) ∧ read.descriptor = descriptor ∧
        type = some (.tensor read.type) := by
  have hfresh : (decide (stage ≠ 0) && decide (role = forwarded)) = false := by
    rcases hread with hzero | hne
    · simp [hzero]
    · simp [hne]
  unfold readMatches at h
  rw [hfresh, Bool.false_or] at h
  split at h
  · rename_i first read hfound
    simp only [Bool.and_eq_true, decide_eq_true_eq] at h
    exact ⟨first, read, hfound, h.1.1, h.2⟩
  · cases h

theorem verifyRegionGuardLedger_eq_ok {encoded contract : Entries} {bindings : List Attribute}
    {result : Unit} (h : verifyRegionGuardLedger encoded contract bindings stage = .ok result) :
    buildRegionGuardLedger contract bindings stage = .ok encoded := by
  obtain ⟨ledger, -, h⟩ := bind_eq_ok h
  obtain ⟨expected, hbuild, h⟩ := bind_eq_ok h
  obtain ⟨hsame, -⟩ := ite_error_eq_ok.1 h
  rw [hbuild, hsame]

variable {validated : List ℕ}

theorem verifyStage_eq_ok {arguments : Roles ℕ} {site : Option RegionSite}
    (h : verifyStage scope boundary forwarded arguments site stage = .ok validated) :
    ∃ bindings type, StageFacts scope boundary forwarded arguments site stage validated bindings
      type := by
  cases hbindings : asArray ((siteEntries site).get "bindings") with
  | none =>
    simp only [verifyStage, hbindings] at h
    cases h
  | some bindings =>
  cases htype : site.bind (·.tensorType) with
  | none =>
    simp only [verifyStage, hbindings, htype] at h
    cases h
  | some type =>
    simp only [verifyStage, hbindings, htype] at h
    obtain ⟨hcontract, h⟩ := Except.check_eq_ok.1 h
    obtain ⟨hledger, h⟩ := Except.check_eq_ok.1 h
    obtain ⟨hoperands, h⟩ := Except.check_eq_ok.1 h
    obtain ⟨hreads, h⟩ := Except.check_eq_ok.1 h
    obtain ⟨-, h⟩ := Except.check_eq_ok.1 h
    have hcontract' := check_eq_ok hcontract
    have hoperands' := check_eq_ok hoperands
    have hreads' := check_eq_ok hreads
    simp only [Bool.and_eq_true, decide_eq_true_eq] at hcontract' hoperands' hreads'
    obtain ⟨⟨⟨⟨houtput, hlhs⟩, hrhs⟩, hdescriptor⟩, hresult⟩ := hoperands'
    refine ⟨bindings, type, hbindings, htype, hcontract'.1.2,
      verifyRegionGuardLedger_eq_ok hledger, houtput, hlhs, hrhs, hdescriptor, hresult, ?_, ?_⟩
    · intro role hrole hfresh
      rcases Nat.le_one_iff_eq_zero_or_eq_one.1 hrole with rfl | rfl
      · exact readMatches_eq_true hreads'.1 hfresh
      · exact readMatches_eq_true hreads'.2 hfresh
    · split at h
      · rename_i lhs rhs hleft hright
        exact ⟨lhs, rhs, hleft, hright, h⟩
      · cases h

/-- The operations that a commit has been traced to. -/
structure Computation (scope : Scope) (commit : RegionCommitOp) (lhs rhs : ℕ) where
  matmulPosition : ℕ
  fillPosition : ℕ
  emptyPosition : ℕ
  matmul : LinalgOp
  fill : LinalgOp
  left : ℕ
  right : ℕ
  init : ℕ
  zero : ℕ
  target : ℕ
  matmulType : TensorType
  fillType : TensorType
  sizes : List ℕ
  type : TensorType
  matmul_found : linalgOp scope commit.value = some (matmulPosition, matmul)
  matmul_inputs : matmul.inputs = [left, right]
  matmul_inits : matmul.inits = [init]
  matmul_types : matmul.types = [matmulType]
  left_same : stripCast scope left = stripCast scope lhs
  right_same : stripCast scope right = stripCast scope rhs
  matmul_maps : matmul.maps = gemmMaps
  matmul_iterators : matmul.iterators = gemmIterators
  matmul_canonical : canonicalScalar matmul true = true
  fill_found : linalgOp scope init = some (fillPosition, fill)
  fill_inputs : fill.inputs = [zero]
  fill_inits : fill.inits = [target]
  fill_types : fill.types = [fillType]
  fill_maps : fill.maps = fillMaps
  fill_iterators : fill.iterators = [.parallel, .parallel]
  fill_canonical : canonicalScalar fill false = true
  zero_bits : positiveZero scope zero = true
  empty_found : emptyOp scope target = some (emptyPosition, sizes, type)
  type_eq : scope.type commit.value = some (.tensor type)
  extents : extentsFollow scope type lhs rhs [0, 1] sizes = true

theorem consumes_eq_true {op : LinalgOp} {lhs rhs : ℕ} (h : consumes scope op lhs rhs = true) :
    ∃ left right init type, op.inputs = [left, right] ∧ op.inits = [init] ∧ op.types = [type] ∧
      stripCast scope left = stripCast scope lhs ∧ stripCast scope right = stripCast scope rhs := by
  unfold consumes at h
  split at h
  · rename_i left right hinputs
    simp only [Bool.and_eq_true, decide_eq_true_eq] at h
    obtain ⟨⟨⟨hinits, htypes⟩, hleft⟩, hright⟩ := h
    obtain ⟨init, hinit⟩ := List.length_eq_one_iff.1 hinits
    obtain ⟨type, htype⟩ := List.length_eq_one_iff.1 htypes
    exact ⟨left, right, init, type, hinputs, hinit, htype, hleft, hright⟩
  · cases h

theorem computation_eq_ok {commit : RegionCommitOp} {lhs rhs : ℕ}
    (h : computation scope commit lhs rhs = .ok validated) :
    ∃ c : Computation scope commit lhs rhs,
      validated = [c.matmulPosition, c.fillPosition, c.emptyPosition] := by
  unfold computation at h
  split at h
  · cases h
  · rename_i matmulPosition matmul hmatmul
    obtain ⟨hconsumes, h⟩ := Except.check_eq_ok.1 h
    obtain ⟨left, right, init, matmulType, hinputs, hinits, htypes, hleft, hright⟩ :=
      consumes_eq_true (check_eq_ok hconsumes)
    obtain ⟨hcanonical, h⟩ := Except.check_eq_ok.1 h
    have hcanonical' := check_eq_ok hcanonical
    simp only [Bool.and_eq_true, decide_eq_true_eq] at hcanonical'
    rw [hinits] at h
    split at h
    · cases h
    · rename_i fillPosition fill hfill
      obtain ⟨hcounts, h⟩ := Except.check_eq_ok.1 h
      obtain ⟨hfills, h⟩ := Except.check_eq_ok.1 h
      have hcounts' := check_eq_ok hcounts
      have hfills' := check_eq_ok hfills
      simp only [Bool.and_eq_true, decide_eq_true_eq] at hcounts' hfills'
      obtain ⟨number, hzero⟩ := List.length_eq_one_iff.1 hcounts'.1.1.1
      obtain ⟨target, htarget⟩ := List.length_eq_one_iff.1 hcounts'.1.1.2
      obtain ⟨fillType, hfillType⟩ := List.length_eq_one_iff.1 hcounts'.1.2
      rw [htarget] at h
      split at h
      · cases h
      · rename_i emptyPosition sizes type hempty
        obtain ⟨htype, h⟩ := Except.check_eq_ok.1 h
        obtain ⟨hextents, h⟩ := Except.check_eq_ok.1 h
        have hbits : positiveZero scope number = true := by
          have hall := hfills'.1.1
          rwa [hzero, List.all_cons, List.all_nil, Bool.and_true] at hall
        exact ⟨⟨matmulPosition, fillPosition, emptyPosition, matmul, fill, left, right, init, number,
          target, matmulType, fillType, sizes, type, hmatmul, hinputs, hinits, htypes, hleft,
          hright, hcanonical'.1.1, hcanonical'.1.2, hcanonical'.2, hfill, hzero, htarget,
          hfillType, hfills'.1.2, hfills'.2, hcounts'.2, hbits, hempty,
          of_decide_eq_true (check_eq_ok htype), check_eq_ok hextents⟩, (Except.ok.inj h).symm⟩

theorem complete_eq_ok (h : σ.complete forwarded = .ok boundary) :
    (∀ stage ≤ 1, σ.guard stage = some (boundary.guard stage) ∧
      σ.commit stage = some (boundary.commit stage)) ∧ boundary.reads = σ.reads ∧
      σ.boundary = 6 := by
  unfold Scan.complete at h
  split at h
  · rename_i _ _ hguard0 hguard1 hcommit0 hcommit1
    obtain ⟨hcheck, h⟩ := ite_error_eq_ok.1 h
    cases h
    refine ⟨?_, rfl, hcheck.2.2.2⟩
    intro stage hstage
    rcases Nat.le_one_iff_eq_zero_or_eq_one.1 hstage with rfl | rfl
    · exact ⟨hguard0, hcommit0⟩
    · exact ⟨hguard1, hcommit1⟩
  · cases h

theorem forwardedInput_eq_some {roles : Roles ℕ} {output : ℕ}
    (h : forwardedInput output roles.lhs roles.rhs = some forwarded) :
    forwarded ≤ 1 ∧ roles.input forwarded = output := by
  unfold forwardedInput at h
  by_cases hlhs : output = roles.lhs
  · rw [if_pos hlhs] at h
    cases h
    exact ⟨Nat.zero_le 1, hlhs.symm⟩
  · rw [if_neg hlhs] at h
    obtain ⟨hrhs, h⟩ := Option.ite_none_right_eq_some.1 h
    cases h
    exact ⟨le_rfl, hrhs.symm⟩

/-- A function that the verifier accepts, with all that it has found out about it. -/
structure AcceptedRegion (function : RegionFunction) where
  sites : ℕ → Option RegionSite
  descriptors : List Attribute
  arguments : ℕ → Roles ℕ
  forwarded : ℕ
  boundary : Boundary
  bindings : ℕ → List Attribute
  types : ℕ → FunctionType
  validated : ℕ → List ℕ
  final : Scan
  verified : function.verify = true
  sites_eq : contractSites function = .ok (sites, descriptors)
  arguments_type : ∀ type ∈ function.arguments, type = .descriptor
  bound : ∀ stage ≤ 1, boundSite function.arguments.length descriptors stage (sites stage) =
    .ok (arguments stage)
  forwarded_le : forwarded ≤ 1
  carried : (arguments 1).input forwarded = (arguments 0).output
  scanned : scan function.scope forwarded function.placed = .ok final
  final_boundary : final.boundary = 6
  guard_eq : ∀ stage ≤ 1, final.guard stage = some (boundary.guard stage)
  commit_eq : ∀ stage ≤ 1, final.commit stage = some (boundary.commit stage)
  reads_eq : boundary.reads = final.reads
  stage : ∀ stage ≤ 1, StageFacts function.scope boundary forwarded (arguments stage)
    (sites stage) stage (validated stage) (bindings stage) (types stage)
  all_validated : allValidated function (validated 0 ++ validated 1) = true

theorem accepted_of_verify (h : verifyTwoGemmRegion function = .ok ()) :
    Nonempty (AcceptedRegion function) := by
  obtain ⟨hverify, h⟩ := Except.check_eq_ok.1 h
  obtain ⟨verified, h, -⟩ := bind_eq_ok h
  obtain ⟨-, h⟩ := Except.check_eq_ok.1 h
  obtain ⟨⟨sites, descriptors⟩, hsites, h⟩ := bind_eq_ok h
  obtain ⟨harguments, h⟩ := Except.check_eq_ok.1 h
  obtain ⟨first, hfirst, h⟩ := bind_eq_ok h
  obtain ⟨second, hsecond, h⟩ := bind_eq_ok h
  split at h
  · cases h
  · rename_i forwarded hforwarded
    obtain ⟨-, h⟩ := Except.check_eq_ok.1 h
    obtain ⟨final, hscan, h⟩ := bind_eq_ok h
    obtain ⟨boundary, hcomplete, h⟩ := bind_eq_ok h
    obtain ⟨-, h⟩ := Except.check_eq_ok.1 h
    obtain ⟨validated0, hstage0, h⟩ := bind_eq_ok h
    obtain ⟨validated1, hstage1, h⟩ := bind_eq_ok h
    obtain ⟨hvalidated, -⟩ := Except.check_eq_ok.1 h
    obtain ⟨bindings0, type0, hfacts0⟩ := verifyStage_eq_ok hstage0
    obtain ⟨bindings1, type1, hfacts1⟩ := verifyStage_eq_ok hstage1
    obtain ⟨hboundary, hreads, hsix⟩ := complete_eq_ok hcomplete
    obtain ⟨hle, hcarried⟩ := forwardedInput_eq_some hforwarded
    have htypes := List.all_eq_true.1 (check_eq_ok harguments)
    refine ⟨⟨sites, descriptors, fun stage => if stage = 0 then first else second, forwarded,
      boundary, fun stage => if stage = 0 then bindings0 else bindings1,
      fun stage => if stage = 0 then type0 else type1,
      fun stage => if stage = 0 then validated0 else validated1, final, check_eq_ok hverify, hsites,
      fun type hm => of_decide_eq_true (htypes type hm), ?_, hle, hcarried, hscan, hsix,
      fun stage hle => (hboundary stage hle).1, fun stage hle => (hboundary stage hle).2, hreads,
      ?_, check_eq_ok hvalidated⟩⟩
    · intro stage hstage
      rcases Nat.le_one_iff_eq_zero_or_eq_one.1 hstage with rfl | rfl
      · exact hfirst
      · exact hsecond
    · intro stage hstage
      rcases Nat.le_one_iff_eq_zero_or_eq_one.1 hstage with rfl | rfl
      · exact hfacts0
      · exact hfacts1

end Matcore.TwoGemm
