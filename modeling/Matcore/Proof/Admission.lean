import Matcore.ClosedRegion.Verify
import Matcore.Lib.Except

/-!
# What admission guarantees

Every value in scope is among the identities used.
-/

namespace Matcore.ClosedRegion

open Bool (and_eq_true not_eq_true')
open Except (bind_eq_ok then_eq_ok)

variable {α : Type} {message : String} {condition : Bool}

@[simp] theorem require_eq_ok {u : Unit} :
    require condition message = .ok u ↔ condition = true := by
  unfold require fail
  cases condition <;> simp

variable {f : Unit → Except String α}

theorem require_then {a : α} :
    (require condition message >>= f) = .ok a ↔ condition = true ∧ f () = .ok a := by
  rw [Except.check_eq_ok, require_eq_ok]

theorem require_bind (h : condition = true) :
    (require condition message >>= f) = f () := by
  rw [h]
  rfl

/-- The dimensions that the checks accept. -/
def DimensionOk (parameters : List Id) (scope : Scope) (dim : Dimension) : Prop :=
  match dim.kind with
  | .literal => True
  | .shapeParameter => dim.reference ∈ parameters
  | .valueRows | .valueColumns => (scope dim.reference).isSome

variable {dim : Dimension}

theorem dimensionOk_of_dimension {parameters : List Id} {scope : Scope} {extent : Extent}
    (h : dimension dim parameters scope = .ok extent) : DimensionOk parameters scope dim := by
  unfold dimension at h
  unfold DimensionOk
  cases hk : dim.kind <;> simp only [hk] at h ⊢
  · split at h
    · cases h
    · rename_i hc
      by_contra hr
      exact hc (.inr hr)
  all_goals
    split at h
    · rename_i hs; simp [hs]
    · cases h

/-- The scope with a new value. -/
def Values.define (values : Values) (id : Id) (shape : Shape) : Values :=
  ⟨Function.update values.scope id (some shape), id :: values.all⟩

/-- The checks of a new value. -/
structure Fresh (op : Operation) (shape : Shape) (values : Values) : Prop where
  pos : 0 < op.result
  bound : op.result ≤ maximum
  unused : op.result ∉ values.all
  product : extentProduct shape = .ok ()

variable {shape : Shape} {op : Operation}

theorem newValue_ok {values after : Values} (h : newValue op shape values = .ok after) :
    Fresh op shape values ∧ after = values.define op.result shape := by
  unfold newValue at h
  obtain ⟨_, h₁, h⟩ := bind_eq_ok h
  obtain ⟨_, h₂, h⟩ := bind_eq_ok h
  have hid := require_eq_ok.1 h₁
  simp only [and_eq_true, not_eq_true', List.contains_eq_mem, decide_eq_false_iff_not,
    decide_eq_true_eq, bne_iff_ne, ne_eq] at hid
  exact ⟨⟨Nat.pos_of_ne_zero hid.1.1, hid.1.2, hid.2, h₂⟩, (Except.ok.inj h).symm⟩

variable {b : Body}

theorem isEmpty_iff : b.isEmpty = true ↔ b = .nil := by
  cases b <;> simp [Body.isEmpty]

theorem emptyDimension_iff : emptyDimension dim = true ↔ dim = {} := by
  obtain ⟨kind, literal, reference⟩ := dim
  simp [emptyDimension, and_assoc]

/-- No condition and no comparison. -/
structure Operation.Plain (op : Operation) : Prop where
  lhs : op.conditionLhs = {}
  rhs : op.conditionRhs = {}
  comparison : op.comparison = .equal

theorem plain_of_hasControl {t e : Body} (h : op.hasControl t e = false) :
    t = .nil ∧ e = .nil ∧ op.Plain := by
  unfold Operation.hasControl at h
  simp only [Bool.or_eq_false_iff, Bool.not_eq_false', isEmpty_iff, emptyDimension_iff,
    bne_eq_false_iff_eq] at h
  exact ⟨h.1.1.1.1, h.1.1.1.2, h.1.1.2, h.1.2, h.2⟩

theorem shapeless_of_hasShape (h : op.hasShape = false) :
    op.rows = {} ∧ op.columns = {} := by
  unfold Operation.hasShape at h
  simpa only [Bool.or_eq_false_iff, Bool.not_eq_false', emptyDimension_iff] using h

/-- **The checks of one operation**, by kind, with the values after it. -/
inductive Accepted (ctx : Context) (depth : ℕ) (op : Operation) :
    Body → Body → Values → Values → Prop where
  | read {values : Values} {rows columns : Extent} (kind : op.kind = .read)
      (resource : op.resource ∈ ctx.resources) (noLhs : op.lhs = 0) (noRhs : op.rhs = 0)
      (plain : op.Plain) (profile : op.numericalProfile = .strictF32)
      (rowsOk : dimension op.rows ctx.parameters values.scope = .ok rows)
      (columnsOk : dimension op.columns ctx.parameters values.scope = .ok columns)
      (fresh : Fresh op (rows, columns) values) :
      Accepted ctx depth op .nil .nil values (values.define op.result (rows, columns))
  | gemm {values : Values} {lhs rhs : Shape} (kind : op.kind = .gemm)
      (lhsOk : values.scope op.lhs = some lhs) (rhsOk : values.scope op.rhs = some rhs)
      (noResource : op.resource = 0) (shapeless : op.rows = {} ∧ op.columns = {})
      (plain : op.Plain) (contraction : lhs.2.isNone || rhs.1.isNone || lhs.2 == rhs.1)
      (fresh : Fresh op (lhs.1, rhs.2) values) :
      Accepted ctx depth op .nil .nil values (values.define op.result (lhs.1, rhs.2))
  | publish {values : Values} {value : Shape} (kind : op.kind = .publish)
      (resource : op.resource ∈ ctx.resources) (valueOk : values.scope op.lhs = some value)
      (noResult : op.result = 0) (noRhs : op.rhs = 0)
      (shapeless : op.rows = {} ∧ op.columns = {}) (plain : op.Plain)
      (profile : op.numericalProfile = .strictF32) :
      Accepted ctx depth op .nil .nil values values
  | observe {values : Values} (kind : op.kind = .observe)
      (resource : op.resource ∈ ctx.resources) (noResult : op.result = 0) (noLhs : op.lhs = 0)
      (noRhs : op.rhs = 0) (shapeless : op.rows = {} ∧ op.columns = {}) (plain : op.Plain)
      (profile : op.numericalProfile = .strictF32) :
      Accepted ctx depth op .nil .nil values values
  | shapeIf {thenBody elseBody : Body} {values afterThen afterElse : Values} {lhs rhs : Extent}
      (kind : op.kind = .shapeIf) (noResult : op.result = 0) (noResource : op.resource = 0)
      (noLhs : op.lhs = 0) (noRhs : op.rhs = 0) (shapeless : op.rows = {} ∧ op.columns = {})
      (profile : op.numericalProfile = .strictF32)
      (lhsOk : dimension op.conditionLhs ctx.parameters values.scope = .ok lhs)
      (rhsOk : dimension op.conditionRhs ctx.parameters values.scope = .ok rhs)
      (depthOk : depth + 1 ≤ 16)
      (thenOk : verifyBody ctx (depth + 1) thenBody values = .ok afterThen)
      (elseOk : verifyBody ctx (depth + 1) elseBody ⟨values.scope, afterThen.all⟩ =
        .ok afterElse) :
      Accepted ctx depth op thenBody elseBody values ⟨values.scope, afterElse.all⟩

/-- The values an accepted operation uses and defines. -/
inductive Admitted (ctx : Context) (depth : ℕ) (op : Operation) :
    Body → Body → Values → Values → Prop where
  | read {values : Values} {shape : Shape} (kind : op.kind = .read)
      (resource : op.resource ∈ ctx.resources)
      (rows : DimensionOk ctx.parameters values.scope op.rows)
      (columns : DimensionOk ctx.parameters values.scope op.columns)
      (fresh : op.result ∉ values.all) :
      Admitted ctx depth op .nil .nil values (values.define op.result shape)
  | gemm {values : Values} {shape : Shape} (kind : op.kind = .gemm)
      (lhs : (values.scope op.lhs).isSome) (rhs : (values.scope op.rhs).isSome)
      (fresh : op.result ∉ values.all) :
      Admitted ctx depth op .nil .nil values (values.define op.result shape)
  | publish {values : Values} (kind : op.kind = .publish)
      (resource : op.resource ∈ ctx.resources) (value : (values.scope op.lhs).isSome) :
      Admitted ctx depth op .nil .nil values values
  | observe {values : Values} (kind : op.kind = .observe)
      (resource : op.resource ∈ ctx.resources) :
      Admitted ctx depth op .nil .nil values values
  | shapeIf {thenBody elseBody : Body} {values afterThen afterElse : Values}
      (kind : op.kind = .shapeIf)
      (lhs : DimensionOk ctx.parameters values.scope op.conditionLhs)
      (rhs : DimensionOk ctx.parameters values.scope op.conditionRhs)
      (thenOk : verifyBody ctx (depth + 1) thenBody values = .ok afterThen)
      (elseOk : verifyBody ctx (depth + 1) elseBody ⟨values.scope, afterThen.all⟩ =
        .ok afterElse) :
      Admitted ctx depth op thenBody elseBody values ⟨values.scope, afterElse.all⟩

variable {ctx : Context} {depth : ℕ} {op : Operation} {t e rest : Body} {values after : Values}

theorem accepted_read (hk : op.kind = .read)
    (h : verifyRead ctx op (op.hasControl t e) values = .ok after) :
    Accepted ctx depth op t e values after := by
  unfold verifyRead at h
  obtain ⟨hfields, h⟩ := require_then.1 h
  obtain ⟨rows, hr, h⟩ := bind_eq_ok h
  obtain ⟨columns, hc, h⟩ := bind_eq_ok h
  obtain ⟨hf, rfl⟩ := newValue_ok h
  simp only [and_eq_true, not_eq_true', List.contains_eq_mem, decide_eq_true_eq,
    beq_iff_eq, and_assoc] at hfields
  obtain ⟨hres, hlhs, hrhs, hcontrol, hprofile⟩ := hfields
  obtain ⟨rfl, rfl, hplain⟩ := plain_of_hasControl hcontrol
  exact .read hk hres hlhs hrhs hplain hprofile hr hc hf

theorem accepted_gemm (hk : op.kind = .gemm)
    (h : verifyGemm op (op.hasControl t e) values = .ok after) :
    Accepted ctx depth op t e values after := by
  unfold verifyGemm at h
  split at h
  · rename_i hl hr
    obtain ⟨hfields, h⟩ := require_then.1 h
    obtain ⟨hprofile, h⟩ := require_then.1 h
    obtain ⟨hf, rfl⟩ := newValue_ok h
    simp only [and_eq_true, not_eq_true', beq_iff_eq, and_assoc] at hfields
    obtain ⟨hres, hshape, hcontrol⟩ := hfields
    obtain ⟨rfl, rfl, hplain⟩ := plain_of_hasControl hcontrol
    exact .gemm hk hl hr hres (shapeless_of_hasShape hshape) hplain hprofile hf
  · cases h

theorem accepted_publish (hk : op.kind = .publish)
    (h : verifyPublish ctx op (op.hasControl t e) values = .ok after) :
    Accepted ctx depth op t e values after := by
  unfold verifyPublish at h
  obtain ⟨hfields, h⟩ := require_then.1 h
  cases h
  simp only [and_eq_true, not_eq_true', List.contains_eq_mem, decide_eq_true_eq,
    beq_iff_eq, and_assoc, Option.isSome_iff_exists] at hfields
  obtain ⟨hres, ⟨value, hvalue⟩, hresult, hrhs, hshape, hcontrol, hprofile⟩ := hfields
  obtain ⟨rfl, rfl, hplain⟩ := plain_of_hasControl hcontrol
  exact .publish hk hres hvalue hresult hrhs (shapeless_of_hasShape hshape) hplain hprofile

theorem accepted_observe (hk : op.kind = .observe)
    (h : verifyObserve ctx op (op.hasControl t e) values = .ok after) :
    Accepted ctx depth op t e values after := by
  unfold verifyObserve at h
  obtain ⟨hfields, h⟩ := require_then.1 h
  cases h
  simp only [and_eq_true, not_eq_true', List.contains_eq_mem, decide_eq_true_eq,
    beq_iff_eq, and_assoc] at hfields
  obtain ⟨hres, hresult, hlhs, hrhs, hshape, hcontrol, hprofile⟩ := hfields
  obtain ⟨rfl, rfl, hplain⟩ := plain_of_hasControl hcontrol
  exact .observe hk hres hresult hlhs hrhs (shapeless_of_hasShape hshape) hplain hprofile

/-- The sites of an operation lie in the source files. -/
structure Operation.Sited (op : Operation) (files : List SourceFile) : Prop where
  site : siteValid op.site files = true
  helperCalls : ∀ site ∈ op.helperCalls, siteValid site files = true

/-- The checks of one operation, by kind (`Accepted`). -/
theorem accepted_cons (h : verifyBody ctx depth (.cons op t e rest) values = .ok after) :
    op.Sited ctx.files ∧ ∃ mid, Accepted ctx depth op t e values mid ∧
      verifyBody ctx depth rest mid = .ok after := by
  obtain ⟨hsite, h⟩ := require_then.1 h
  rw [and_eq_true, List.all_eq_true] at hsite
  refine ⟨⟨hsite.1, hsite.2⟩, ?_⟩
  cases hk : op.kind <;> simp only [hk] at h
  · obtain ⟨mid, hm, h⟩ := bind_eq_ok h
    exact ⟨mid, accepted_read hk hm, h⟩
  · obtain ⟨mid, hm, h⟩ := bind_eq_ok h
    exact ⟨mid, accepted_gemm hk hm, h⟩
  · obtain ⟨mid, hm, h⟩ := bind_eq_ok h
    exact ⟨mid, accepted_publish hk hm, h⟩
  · obtain ⟨mid, hm, h⟩ := bind_eq_ok h
    exact ⟨mid, accepted_observe hk hm, h⟩
  · obtain ⟨_, hs, h⟩ := bind_eq_ok h
    obtain ⟨_, hdepth, h⟩ := bind_eq_ok h
    obtain ⟨afterThen, ht, h⟩ := bind_eq_ok h
    replace h := then_eq_ok h
    obtain ⟨afterElse, he, h⟩ := bind_eq_ok h
    obtain ⟨mid, hm, h⟩ := bind_eq_ok h
    cases hm
    unfold verifyShapeIf at hs
    obtain ⟨hfields, hs⟩ := require_then.1 hs
    obtain ⟨_, hl, hs⟩ := bind_eq_ok hs
    obtain ⟨_, hr, -⟩ := bind_eq_ok hs
    simp only [and_eq_true, not_eq_true', beq_iff_eq, and_assoc] at hfields
    obtain ⟨hresult, hres, hlhs, hrhs, hshape, hprofile⟩ := hfields
    have hdepth : depth + 1 ≤ 16 := of_decide_eq_true (require_eq_ok.1 hdepth)
    exact ⟨_, .shapeIf hk hresult hres hlhs hrhs (shapeless_of_hasShape hshape) hprofile hl hr
      hdepth ht he, h⟩

theorem Accepted.admitted (h : Accepted ctx depth op t e values after) :
    Admitted ctx depth op t e values after := by
  cases h with
  | read kind resource _ _ _ _ rowsOk columnsOk fresh =>
    exact .read kind resource (dimensionOk_of_dimension rowsOk)
      (dimensionOk_of_dimension columnsOk) fresh.unused
  | gemm kind lhsOk rhsOk _ _ _ _ fresh =>
    exact .gemm kind (Option.isSome_of_eq_some lhsOk) (Option.isSome_of_eq_some rhsOk) fresh.unused
  | publish kind resource valueOk =>
    exact .publish kind resource (Option.isSome_of_eq_some valueOk)
  | observe kind resource => exact .observe kind resource
  | shapeIf kind _ _ _ _ _ _ lhsOk rhsOk _ thenOk elseOk =>
    exact .shapeIf kind (dimensionOk_of_dimension lhsOk) (dimensionOk_of_dimension rhsOk) thenOk
      elseOk

/-- The values that one operation uses and defines, then the checks of those after it. -/
theorem verifyBody_cons (h : verifyBody ctx depth (.cons op t e rest) values = .ok after) :
    ∃ mid, Admitted ctx depth op t e values mid ∧ verifyBody ctx depth rest mid = .ok after := by
  obtain ⟨-, mid, hm, h⟩ := accepted_cons h
  exact ⟨mid, hm.admitted, h⟩

namespace Admitted

section

variable (h : Admitted ctx depth op t e values after)

include h

theorem read_inv (hk : op.kind = .read) :
    op.resource ∈ ctx.resources ∧ DimensionOk ctx.parameters values.scope op.rows ∧
      DimensionOk ctx.parameters values.scope op.columns ∧ op.result ∉ values.all ∧
      ∃ shape, after = values.define op.result shape := by
  cases h with
  | read _ hres hr hc hf => exact ⟨hres, hr, hc, hf, _, rfl⟩
  | _ => simp_all

theorem gemm_inv (hk : op.kind = .gemm) :
    (values.scope op.lhs).isSome ∧ (values.scope op.rhs).isSome ∧ op.result ∉ values.all ∧
      ∃ shape, after = values.define op.result shape := by
  cases h with
  | gemm _ hl hr hf => exact ⟨hl, hr, hf, _, rfl⟩
  | _ => simp_all

theorem publish_inv (hk : op.kind = .publish) :
    op.resource ∈ ctx.resources ∧ (values.scope op.lhs).isSome ∧ after = values := by
  cases h with
  | publish _ hres hl => exact ⟨hres, hl, rfl⟩
  | _ => simp_all

theorem observe_inv (hk : op.kind = .observe) : op.resource ∈ ctx.resources ∧ after = values := by
  cases h with
  | observe _ hres => exact ⟨hres, rfl⟩
  | _ => simp_all

theorem shapeIf_inv (hk : op.kind = .shapeIf) :
    DimensionOk ctx.parameters values.scope op.conditionLhs ∧
      DimensionOk ctx.parameters values.scope op.conditionRhs ∧
      ∃ afterThen afterElse, verifyBody ctx (depth + 1) t values = .ok afterThen ∧
        verifyBody ctx (depth + 1) e ⟨values.scope, afterThen.all⟩ = .ok afterElse ∧
        after = ⟨values.scope, afterElse.all⟩ := by
  cases h with
  | shapeIf _ hl hr ht he => exact ⟨hl, hr, _, _, ht, he, rfl⟩
  | _ => simp_all

end

end Admitted

/-- Only a `shapeIf` has nested operations. -/
def Body.Nested : Body → Prop
  | .nil => True
  | .cons op t e rest =>
    (op.kind ≠ .shapeIf → t = .nil ∧ e = .nil) ∧ t.Nested ∧ e.Nested ∧ rest.Nested

/-- Only a `shapeIf` has nested operations. -/
theorem nested_of_verify (h : verifyBody ctx depth b values = .ok after) : b.Nested := by
  induction b generalizing depth values after with
  | nil => exact trivial
  | cons op t e rest iht ihe ihr =>
    obtain ⟨mid, ha, hr⟩ := verifyBody_cons h
    cases ha with
    | shapeIf kind _ _ thenOk elseOk =>
      exact ⟨fun hk => absurd kind hk, iht thenOk, ihe elseOk, ihr hr⟩
    | _ => exact ⟨fun _ => ⟨rfl, rfl⟩, trivial, trivial, ihr hr⟩

variable {id : Id}

theorem subset_of_verify (h : verifyBody ctx depth b values = .ok after) :
    ∀ id ∈ values.all, id ∈ after.all := by
  induction b generalizing depth values after with
  | nil => cases h; exact fun _ => id
  | cons op t e rest iht ihe ihr =>
    obtain ⟨mid, ha, hr⟩ := verifyBody_cons h
    intro id hid
    refine ihr hr id ?_
    cases ha with
    | shapeIf _ _ _ thenOk elseOk => exact ihe elseOk id (iht thenOk id hid)
    | read | gemm => exact List.mem_cons_of_mem _ hid
    | publish | observe => exact hid

theorem mem_of_verifyParameters {entries : List (Id × Text × ℕ)} {ids ids' : List Id}
    {indices indices' : List ℕ}
    (h : verifyParameters message entries ids indices = .ok (ids', indices')) (hid : id ∈ ids') :
    id ∈ ids ∨ id ∈ entries.map (·.1) := by
  induction entries generalizing ids indices with
  | nil => cases h; exact .inl hid
  | cons entry rest ih =>
    unfold verifyParameters at h
    replace h := then_eq_ok h
    rcases ih h with hid | hid
    · rcases List.mem_cons.1 hid with rfl | hid
      · exact .inr List.mem_cons_self
      · exact .inl hid
    · exact .inr (List.mem_cons_of_mem _ hid)

variable {region : Region}

/-- The body of an admitted region passes its checks over the region's own parameters. -/
theorem verifyBody_of_region {files : List SourceFile} (h : verifyRegion files region = .ok ()) :
    ∃ ctx after, (∀ id ∈ ctx.resources, id ∈ region.resources.map (·.id)) ∧
      (∀ id ∈ ctx.parameters, id ∈ region.shapeParameters.map (·.id)) ∧
      verifyBody ctx 0 region.body ⟨fun _ => none, []⟩ = .ok after := by
  unfold verifyRegion at h
  obtain ⟨⟨resources, indices⟩, hr, h⟩ := bind_eq_ok h
  obtain ⟨⟨parameters, indices'⟩, hp, h⟩ := bind_eq_ok h
  replace h := then_eq_ok h
  obtain ⟨after, hb, -⟩ := bind_eq_ok h
  refine ⟨_, after, fun id hid => ?_, fun id hid => ?_, hb⟩
  · simpa using mem_of_verifyParameters hr hid
  · simpa using mem_of_verifyParameters hp hid

/-- **Every region of an admitted program** passes the checks of `verifyBody`. -/
theorem verifyBody_of_program {program : Program} (h : verifyProgram program = .ok ())
    (hr : region ∈ program.regions) :
    ∃ ctx after, (∀ id ∈ ctx.resources, id ∈ region.resources.map (·.id)) ∧
      (∀ id ∈ ctx.parameters, id ∈ region.shapeParameters.map (·.id)) ∧
      verifyBody ctx 0 region.body ⟨fun _ => none, []⟩ = .ok after := by
  have key : ∀ (regions : List Region) (names : List Text),
      verifyRegions program.sourceFiles regions names = .ok () → ∀ region ∈ regions,
        verifyRegion program.sourceFiles region = .ok () := by
    intro regions
    induction regions with
    | nil => simp
    | cons first rest ih =>
      intro names h region hr
      unfold verifyRegions at h
      replace h := then_eq_ok h
      obtain ⟨_, hf, h⟩ := bind_eq_ok h
      rcases List.mem_cons.1 hr with rfl | hr
      · exact hf
      · exact ih _ h region hr
  unfold verifyProgram at h
  replace h := then_eq_ok (then_eq_ok h)
  exact verifyBody_of_region (key _ _ h region hr)

end Matcore.ClosedRegion
