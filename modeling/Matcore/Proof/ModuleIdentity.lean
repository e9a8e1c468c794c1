import Matcore.Proof.BuildModule

/-!
# A module identifies its program

A body is determined by its operations. What an operation does not record in its attributes is in its
operands, and different identities have different values (`Distinct`).
-/

namespace Matcore.ClosedRegion

open Except (bind_eq_ok then_eq_ok ok_bind)
open Mlir.Ops (ofList append)
open Option (map_eq_some_iff bind_eq_some_iff)
open Mlir (Attribute Entries Value Regions Blocks ascii)

variable {state state' : BuildState} {path path' : Text} {source source' : Operation} {n : ℕ}

variable {n' : ℕ}

theorem i64Attr_inj (h : i64Attr n = i64Attr n') : n = n' := by
  unfold i64Attr at h
  exact Int.ofNat.inj (Attribute.integer.inj h).2

theorem sourceAttr_inj {site site' : SourceSite} (h : sourceAttr site = sourceAttr site') :
    site = site' := by
  have hentries := Attribute.dictionary.inj h
  have hfile := congrArg (Entries.get · "file_id") hentries
  have hoffset := congrArg (Entries.get · "offset") hentries
  have hlength := congrArg (Entries.get · "length") hentries
  have hline := congrArg (Entries.get · "line") hentries
  have hcolumn := congrArg (Entries.get · "column") hentries
  simp only [Entries.ofList, List.foldl, Entries.get_set] at hfile hoffset hlength hline hcolumn
  cases site
  cases site'
  congr
  · exact i64Attr_inj (Option.some.inj (by simpa using hoffset))
  · exact i64Attr_inj (Option.some.inj (by simpa using hlength))
  · exact i64Attr_inj (Option.some.inj (by simpa using hline))
  · exact i64Attr_inj (Option.some.inj (by simpa using hcolumn))
  · exact i64Attr_inj (Option.some.inj (by simpa using hfile))

theorem sourceAttrs_inj {sites sites' : List SourceSite}
    (h : sites.map sourceAttr = sites'.map sourceAttr) : sites = sites' :=
  List.map_injective_iff.2 (fun _ _ => sourceAttr_inj) h

variable {op : Op}

theorem Framed.inj {epoch epoch' : Text} (h : Framed op source path epoch)
    (h' : Framed op source' path' epoch') :
    source.site = source'.site ∧ source.helperCalls = source'.helperCalls := by
  have hsite : some (sourceAttr source.site) = some (sourceAttr source'.site) :=
    h.site.symm.trans h'.site
  have hcalls := h.calls.symm.trans h'.calls
  rw [Option.some.injEq, Attribute.array.injEq] at hcalls
  exact ⟨sourceAttr_inj (Option.some.inj hsite), sourceAttrs_inj (Mlir.Elements.ofList_inj hcalls)⟩

/-- The operations that an operation of a body begins with. -/
def OpName.isExtent (name : OpName) : Bool :=
  name == .arithConstant || name == .arithCmpI || name == .dim

variable {extents : List Op} {op' : Op} {regions : Regions OpName Ty}

variable {regions' : Regions OpName Ty} {extents' : List Op}

theorem split_ops {rest rest' : Ops} (hextents : ∀ e ∈ extents, e.name.isExtent = true)
    (hextents' : ∀ e ∈ extents', e.name.isExtent = true) (hop : op.name.isExtent = false)
    (hop' : op'.name.isExtent = false)
    (h : (ofList extents).append (.cons op regions rest) =
      (ofList extents').append (.cons op' regions' rest')) :
    extents = extents' ∧ op = op' ∧ regions = regions' ∧ rest = rest' := by
  induction extents generalizing extents' with
  | nil =>
    cases extents' with
    | nil =>
      simp only [ofList, append, Mlir.Ops.cons.injEq] at h
      exact ⟨rfl, h⟩
    | cons first' more' =>
      simp only [ofList, append, Mlir.Ops.cons.injEq] at h
      have := hextents' first' List.mem_cons_self
      rw [← h.1, hop] at this
      cases this
  | cons first more ih =>
    cases extents' with
    | nil =>
      simp only [ofList, append, Mlir.Ops.cons.injEq] at h
      have := hextents first List.mem_cons_self
      rw [h.1, hop'] at this
      cases this
    | cons first' more' =>
      simp only [ofList, append, Mlir.Ops.cons.injEq] at h
      obtain ⟨rfl, -, h⟩ := h
      have hmore := ih (fun e he => hextents e (List.mem_cons_of_mem _ he))
        (fun e he => hextents' e (List.mem_cons_of_mem _ he)) h
      exact ⟨by rw [hmore.1], hmore.2⟩

theorem append_assoc (a b c : Ops) : (a.append b).append c = a.append (b.append c) := by
  induction a using Mlir.Ops.induction with
  | nil => rfl
  | cons op regions rest _ ih => rw [append, append, append, ih]

theorem append_last_inj {ops ops' : Ops}
    (h : ops.append (.ofList [op]) = ops'.append (.ofList [op'])) : ops = ops' ∧ op = op' := by
  induction ops using Mlir.Ops.induction generalizing ops' with
  | nil =>
    cases ops' with
    | nil =>
      simp only [ofList, append, Mlir.Ops.cons.injEq] at h
      exact ⟨rfl, h.1⟩
    | cons first regions rest =>
      simp only [ofList, append, Mlir.Ops.cons.injEq] at h
      cases rest <;> simp [append] at h
  | cons first regions rest _ ih =>
    cases ops' with
    | nil =>
      simp only [ofList, append, Mlir.Ops.cons.injEq] at h
      cases rest <;> simp [append] at h
    | cons first' regions' rest' =>
      simp only [ofList, append, Mlir.Ops.cons.injEq] at h
      obtain ⟨rfl, rfl, h⟩ := h
      obtain ⟨rfl, rfl⟩ := ih h
      exact ⟨rfl, rfl⟩

/-- Different identities have different values, all of them in scope. -/
structure Distinct (state : BuildState) : Prop where
  parameter : ∀ {id id' v}, state.parameters id = some v → state.parameters id' = some v → id = id'
  value : ∀ {id id' v shape shape'}, state.values id = some (v, shape) →
    state.values id' = some (v, shape') → id = id'
  parameterLt : ∀ {id v}, state.parameters id = some v → v < state.next
  valueLt : ∀ {id v shape}, state.values id = some (v, shape) → v < state.next

theorem Distinct.advance (h : Distinct state) (results : ℕ) : Distinct (state.advance results) where
  parameter := h.parameter
  value := h.value
  parameterLt hv := Nat.lt_add_right _ (h.parameterLt hv)
  valueLt hv := Nat.lt_add_right _ (h.valueLt hv)

theorem Distinct.move (h : Distinct state) (order : Value) (epoch : Text) :
    Distinct { state with order := order, epoch := epoch } :=
  ⟨h.parameter, h.value, h.parameterLt, h.valueLt⟩

theorem Distinct.branch (h : Distinct state) : Distinct state.branch := (h.advance 1).move _ _

theorem Distinct.define (h : Distinct state) (id : Id) (shape : Shape) (results : ℕ)
    (hpos : 0 < results) : Distinct ((state.define id shape).advance results) where
  parameter := h.parameter
  value := by
    intro id₁ id₂ v shape₁ shape₂ h₁ h₂
    simp only [BuildState.advance, BuildState.define, Function.update_apply] at h₁ h₂
    -- the new value is behind those in scope
    split_ifs at h₁ h₂ with heq₁ heq₂ heq₂
    · rw [heq₁, heq₂]
    · cases h₁
      exact absurd (h.valueLt h₂) (lt_irrefl _)
    · cases h₂
      exact absurd (h.valueLt h₁) (lt_irrefl _)
    · exact h.value h₁ h₂
  parameterLt hv := Nat.lt_add_right _ (h.parameterLt hv)
  valueLt := by
    intro id₁ v shape₁ h₁
    simp only [BuildState.advance, BuildState.define, Function.update_apply] at h₁
    split_ifs at h₁ with heq₁
    · cases h₁
      exact Nat.lt_add_of_pos_right hpos
    · exact Nat.lt_add_right _ (h.valueLt h₁)

/-- The fields that the kind of a dimension leaves alone are zero. -/
def Dimension.Canonical (dim : Dimension) : Prop :=
  match dim.kind with
  | .literal => dim.reference = 0
  | .shapeParameter | .valueRows | .valueColumns => dim.literal = 0

variable {dim : Dimension}

theorem canonical_of_dimension {parameters : List Id} {scope : Scope} {extent : Extent}
    (h : dimension dim parameters scope = .ok extent) : dim.Canonical := by
  unfold dimension at h
  unfold Dimension.Canonical
  cases hkind : dim.kind <;> simp only [hkind] at h ⊢
  · split at h
    · cases h
    · rename_i hfields
      by_contra hne
      exact hfields (.inl hne)
  · split at h
    · cases h
    · rename_i hfields
      by_contra hne
      exact hfields (.inl hne)
  all_goals
    split at h
    · rename_i hliteral _
      exact hliteral
    · cases h

/-- The operations of a dimension, by kind. -/
inductive Emits (dim : Dimension) (state : BuildState) : List Op → Value → Prop where
  | literal (kind : dim.kind = .literal) : Emits dim state [constantOp dim.literal] state.next
  | parameter {v : Value} (kind : dim.kind = .shapeParameter)
      (parameter : state.parameters dim.reference = some v) : Emits dim state [] v
  | rows {v : Value} {shape : Shape} (kind : dim.kind = .valueRows)
      (value : state.values dim.reference = some (v, shape)) :
      Emits dim state [dimOp v 0] state.next
  | columns {v : Value} {shape : Shape} (kind : dim.kind = .valueColumns)
      (value : state.values dim.reference = some (v, shape)) :
      Emits dim state [dimOp v 1] state.next

variable {v : Value} {after : BuildState} {ops : List Op}

theorem emits_of_build (h : buildDimension dim state = some (ops, v, after)) :
    Emits dim state ops v ∧ after = state.advance ops.length := by
  unfold buildDimension at h
  cases hkind : dim.kind <;> simp only [hkind] at h
  · cases h
    exact ⟨.literal hkind, rfl⟩
  · obtain ⟨value, hvalue, heq⟩ := map_eq_some_iff.1 h
    cases heq
    exact ⟨.parameter hkind hvalue, rfl⟩
  · obtain ⟨⟨value, shape⟩, hvalue, heq⟩ := map_eq_some_iff.1 h
    cases heq
    exact ⟨.rows hkind hvalue, rfl⟩
  · obtain ⟨⟨value, shape⟩, hvalue, heq⟩ := map_eq_some_iff.1 h
    cases heq
    exact ⟨.columns hkind hvalue, rfl⟩

theorem Distinct.dimension (h : Distinct state)
    (hb : buildDimension dim state = some (ops, v, after)) : Distinct after := by
  obtain ⟨-, rfl⟩ := emits_of_build hb
  exact h.advance _

theorem Emits.extent (h : Emits dim state ops v) :
    ∀ op ∈ ops, op.name.isExtent = true := by
  cases h <;> simp [constantOp, dimOp, OpName.isExtent]

theorem constantOp_inj (h : constantOp n = constantOp n') : n = n' := by
  have hvalue := congrArg (fun op : Op => op.attributes.get "value") h
  simp only [constantOp, get_single, Option.some.injEq] at hvalue
  exact i64Attr_inj hvalue

variable {axis : ℕ}

theorem dimOp_inj {v' : Value} {axis' : ℕ} (h : dimOp v axis = dimOp v' axis') :
    v = v' ∧ axis = axis' := by
  have hoperands := congrArg Mlir.Op.operands h
  have haxis := congrArg (fun op : Op => op.attributes.get "axis") h
  simp only [dimOp, get_single, Option.some.injEq, List.cons.injEq] at hoperands haxis
  exact ⟨hoperands.1, i64Attr_inj haxis⟩

theorem constantOp_ne_dimOp : constantOp n ≠ dimOp v axis := by
  intro h
  cases congrArg Mlir.Op.name h

/-- **A dimension is determined by its operations and by the value that holds it.** -/
theorem Emits.inj {dim' : Dimension} {ops ops' more more' : List Op} (hd : Distinct state)
    (hdim : dim.Canonical) (hdim' : dim'.Canonical) (h : Emits dim state ops v)
    (h' : Emits dim' state ops' v) (hops : ops ++ more = ops' ++ more') : dim = dim' := by
  obtain ⟨kind, literal, reference⟩ := dim
  obtain ⟨kind', literal', reference'⟩ := dim'
  -- a result is behind the arguments, and the operations tell the other kinds apart
  cases h with
  | literal kind =>
    cases h' with
    | literal kind' =>
      cases kind
      cases kind'
      have hn := constantOp_inj (List.cons.inj hops).1
      simp only [Dimension.Canonical] at hdim hdim' hn
      rw [hdim, hdim', hn]
    | parameter _ parameter => exact absurd (hd.parameterLt parameter) (lt_irrefl _)
    | rows | columns => exact absurd (List.cons.inj hops).1 constantOp_ne_dimOp
  | parameter kind parameter =>
    cases h' with
    | parameter kind' parameter' =>
      cases kind
      cases kind'
      have hreference := hd.parameter parameter parameter'
      simp only [Dimension.Canonical] at hdim hdim' hreference
      rw [hdim, hdim', hreference]
    | literal | rows | columns => exact absurd (hd.parameterLt parameter) (lt_irrefl _)
  | rows kind value =>
    cases h' with
    | rows kind' value' =>
      cases kind
      cases kind'
      obtain ⟨rfl, -⟩ := dimOp_inj (List.cons.inj hops).1
      have hreference := hd.value value value'
      simp only [Dimension.Canonical] at hdim hdim' hreference
      rw [hdim, hdim', hreference]
    | literal => exact absurd (List.cons.inj hops).1.symm constantOp_ne_dimOp
    | parameter _ parameter => exact absurd (hd.parameterLt parameter) (lt_irrefl _)
    | columns => exact absurd (dimOp_inj (List.cons.inj hops).1).2 (by decide)
  | columns kind value =>
    cases h' with
    | columns kind' value' =>
      cases kind
      cases kind'
      obtain ⟨rfl, -⟩ := dimOp_inj (List.cons.inj hops).1
      have hreference := hd.value value value'
      simp only [Dimension.Canonical] at hdim hdim' hreference
      rw [hdim, hdim', hreference]
    | literal => exact absurd (List.cons.inj hops).1.symm constantOp_ne_dimOp
    | parameter _ parameter => exact absurd (hd.parameterLt parameter) (lt_irrefl _)
    | rows => exact absurd (dimOp_inj (List.cons.inj hops).1).2 (by decide)

variable {mid mid' : BuildState}

theorem dimensions_inj {first first' second second' : Dimension} {ops₁ ops₁' ops₂ ops₂' : List Op}
    (more more' : List Op) {v₁ v₂ : Value} {after' : BuildState} (hd : Distinct state)
    (hc₁ : first.Canonical) (hc₁' : first'.Canonical) (hc₂ : second.Canonical)
    (hc₂' : second'.Canonical) (h₁ : buildDimension first state = some (ops₁, v₁, mid))
    (h₁' : buildDimension first' state = some (ops₁', v₁, mid'))
    (h₂ : buildDimension second mid = some (ops₂, v₂, after))
    (h₂' : buildDimension second' mid' = some (ops₂', v₂, after'))
    (hops : ops₁ ++ (ops₂ ++ more) = ops₁' ++ (ops₂' ++ more')) :
    first = first' ∧ second = second' ∧ more = more' ∧ after = after' := by
  obtain ⟨hemits₁, -⟩ := emits_of_build h₁
  obtain ⟨hemits₁', -⟩ := emits_of_build h₁'
  have hfirst := hemits₁.inj hd hc₁ hc₁' hemits₁' hops
  subst hfirst
  obtain ⟨rfl, -, rfl⟩ : ops₁ = ops₁' ∧ v₁ = v₁ ∧ mid = mid' := by
    simpa using h₁.symm.trans h₁'
  have hops := List.append_cancel_left hops
  obtain ⟨hemits₂, -⟩ := emits_of_build h₂
  obtain ⟨hemits₂', -⟩ := emits_of_build h₂'
  have hsecond := hemits₂.inj (hd.dimension h₁) hc₂ hc₂' hemits₂' hops
  subst hsecond
  obtain ⟨rfl, hafter⟩ : ops₂ = ops₂' ∧ after = after' := by simpa using h₂.symm.trans h₂'
  exact ⟨rfl, rfl, List.append_cancel_left hops, hafter⟩

/-- What `buildBody` emits for one operation: the operations of its extents, the operation itself
with its regions, and the GEMM behind a check. -/
inductive Emitted (path : Text) (state : BuildState) (source : Operation) :
    Body → Body → List Op → Op → Regions OpName Ty → List Op → BuildState → Prop where
  | read {t e : Body} {rowOps columnOps : List Op} {rows columns resource : Value} {shape : Shape}
      {mid after : BuildState} (kind : source.kind = .read)
      (rowsBuilt : buildDimension source.rows state = some (rowOps, rows, mid))
      (columnsBuilt : buildDimension source.columns mid = some (columnOps, columns, after)) :
      Emitted path state source t e (rowOps ++ columnOps)
        (readOp source path state.epoch state.order resource rows columns shape) .nil []
        { (after.define source.result shape).advance 2 with order := after.next + 1 }
  | gemm {t e : Body} {lhs rhs : Value × Shape} (kind : source.kind = .gemm)
      (lhsOk : state.values source.lhs = some lhs) (rhsOk : state.values source.rhs = some rhs) :
      Emitted path state source t e [] (checkOp source path state.epoch state.order lhs.1 rhs.1)
        .nil [gemmOp source path state.epoch state.next lhs.1 rhs.1 (lhs.2.1, rhs.2.2)]
        ((({ state.advance 1 with order := state.next } : BuildState).define source.result
          (lhs.2.1, rhs.2.2)).advance 1)
  | publish {t e : Body} {resource : Value} {value : Value × Shape} (kind : source.kind = .publish)
      (valueOk : state.values source.lhs = some value) :
      Emitted path state source t e []
        (publishOp source path state.epoch state.order resource value.1) .nil []
        { state.advance 1 with order := state.next, epoch := path }
  | observe {t e : Body} {resource : Value} (kind : source.kind = .observe) :
      Emitted path state source t e [] (observeOp source path state.epoch state.order resource)
        .nil [] { state.advance 1 with order := state.next }
  | shapeIf {t e : Body} {lhsOps rhsOps : List Op} {lhs rhs : Value}
      {mid after thenState elseState : BuildState} {thenOps elseOps : Ops}
      (kind : source.kind = .shapeIf)
      (lhsBuilt : buildDimension source.conditionLhs state = some (lhsOps, lhs, mid))
      (rhsBuilt : buildDimension source.conditionRhs mid = some (rhsOps, rhs, after))
      (thenBuilt : buildBody (path ++ ascii ".then") 0 t (after.advance 1).branch =
        some (thenOps, thenState))
      (elseBuilt : buildBody (path ++ ascii ".else") 0 e (after.advance 1).branch =
        some (elseOps, elseState)) :
      Emitted path state source t e (lhsOps ++ (rhsOps ++ [conditionOp source lhs rhs]))
        (shapeIfOp source path (after.advance 1) after.next thenState.epoch elseState.epoch)
        (.cons (branchBlock thenOps thenState.order)
          (.cons (branchBlock elseOps elseState.order) .nil)) []
        { (after.advance 1).advance 1 with
          order := (after.advance 1).next, epoch := path ++ ascii ".join" }

variable {base : Text} {index : ℕ} {t e rest : Body} {ops : Ops}

/-- An operation without regions, in the middle of the list built for it. -/
def Built.Plain (path : Text) (state : BuildState) (source : Operation) (t e : Body)
    (built : Option (List Op × BuildState)) : Prop :=
  ∀ list mid, built = some (list, mid) → ∃ extents op tail, list = extents ++ op :: tail ∧
    Emitted path state source t e extents op .nil tail mid

theorem read_emitted (kind : source.kind = .read) :
    Built.Plain path state source t e (buildRead source path state) := by
  intro list mid h
  unfold buildRead at h
  obtain ⟨⟨rowOps, rows, after⟩, hrows, h⟩ := bind_eq_some_iff.1 h
  obtain ⟨⟨columnOps, columns, after'⟩, hcolumns, h⟩ := bind_eq_some_iff.1 h
  obtain ⟨rowExtent, -, h⟩ := bind_eq_some_iff.1 h
  obtain ⟨columnExtent, -, h⟩ := bind_eq_some_iff.1 h
  obtain ⟨resource, -, h⟩ := bind_eq_some_iff.1 h
  cases h
  exact ⟨_, _, _, (List.append_assoc ..).symm, .read kind hrows hcolumns⟩

theorem gemm_emitted (kind : source.kind = .gemm) :
    Built.Plain path state source t e (buildGemm source path state) := by
  intro list mid h
  unfold buildGemm at h
  obtain ⟨lhs, hlhs, h⟩ := bind_eq_some_iff.1 h
  obtain ⟨rhs, hrhs, h⟩ := bind_eq_some_iff.1 h
  cases h
  exact ⟨[], _, _, rfl, .gemm kind hlhs hrhs⟩

theorem publish_emitted (kind : source.kind = .publish) :
    Built.Plain path state source t e (buildPublish source path state) := by
  intro list mid h
  unfold buildPublish at h
  obtain ⟨resource, -, h⟩ := bind_eq_some_iff.1 h
  obtain ⟨value, hvalue, h⟩ := bind_eq_some_iff.1 h
  cases h
  exact ⟨[], _, _, rfl, .publish kind hvalue⟩

theorem observe_emitted (kind : source.kind = .observe) :
    Built.Plain path state source t e (buildObserve source path state) := by
  intro list mid h
  unfold buildObserve at h
  obtain ⟨resource, -, h⟩ := bind_eq_some_iff.1 h
  cases h
  exact ⟨[], _, _, rfl, .observe kind⟩

theorem buildBody_cons (h : buildBody base index (.cons source t e rest) state = some (ops, state')) :
    ∃ extents op regions tail mid restOps,
      Emitted (operationPath base index) state source t e extents op regions tail mid ∧
      buildBody base (index + 1) rest mid = some (restOps, state') ∧
      ops = (ofList extents).append
        (.cons op regions ((ofList tail).append restOps)) := by
  have plain : ∀ {built : Option (List Op × BuildState)},
      Built.Plain (operationPath base index) state source t e built →
      ((built.map fun b => (ofList b.1, b.2)).bind fun first =>
        (buildBody base (index + 1) rest first.2).bind fun behind =>
          some (first.1.append behind.1, behind.2)) = some (ops, state') →
      ∃ extents op regions tail mid restOps,
        Emitted (operationPath base index) state source t e extents op regions tail mid ∧
        buildBody base (index + 1) rest mid = some (restOps, state') ∧
        ops = (ofList extents).append
          (.cons op regions ((ofList tail).append restOps)) := by
    intro built hplain hbuilt
    obtain ⟨_, hfirst, hbuilt⟩ := bind_eq_some_iff.1 hbuilt
    obtain ⟨⟨list, mid⟩, rfl, rfl⟩ := map_eq_some_iff.1 hfirst
    obtain ⟨⟨restOps, last⟩, hrest, heq⟩ := bind_eq_some_iff.1 hbuilt
    cases heq
    obtain ⟨extents, op, tail, rfl, hemitted⟩ := hplain list mid rfl
    refine ⟨extents, op, .nil, tail, mid, restOps, hemitted, hrest, ?_⟩
    rw [ofList_append, append_assoc]
    rfl
  unfold buildBody at h
  simp only [Option.bind_eq_bind] at h
  cases hkind : source.kind <;> simp only [hkind, pure, Option.bind_some] at h
  · exact plain (read_emitted hkind) h
  · exact plain (gemm_emitted hkind) h
  · exact plain (publish_emitted hkind) h
  · exact plain (observe_emitted hkind) h
  · obtain ⟨⟨extents, condition, after⟩, hcondition, h⟩ := bind_eq_some_iff.1 h
    obtain ⟨⟨thenOps, thenState⟩, hthen, h⟩ := bind_eq_some_iff.1 h
    obtain ⟨⟨elseOps, elseState⟩, helse, h⟩ := bind_eq_some_iff.1 h
    obtain ⟨⟨restOps, last⟩, hrest, heq⟩ := bind_eq_some_iff.1 h
    cases heq
    unfold buildCondition at hcondition
    obtain ⟨⟨lhsOps, lhs, mid⟩, hlhs, hcondition⟩ := bind_eq_some_iff.1 hcondition
    obtain ⟨⟨rhsOps, rhs, behind⟩, hrhs, hcondition⟩ := bind_eq_some_iff.1 hcondition
    cases hcondition
    refine ⟨_, _, _, [], _, restOps, .shapeIf hkind hlhs hrhs hthen helse, hrest, ?_⟩
    rw [append_assoc]
    rfl

variable {tail : List Op}

section

variable (h : Emitted path state source t e extents op regions tail mid)

include h

theorem Emitted.distinct (hd : Distinct state) : Distinct mid := by
  cases h with
  | read _ hrows hcolumns =>
    exact (((hd.dimension hrows).dimension hcolumns).define _ _ 2 (by decide)).move _ _
  | gemm => exact ((hd.advance 1).move _ _).define _ _ 1 (by decide)
  | publish | observe => exact (hd.advance 1).move _ _
  | shapeIf _ hlhs hrhs =>
    exact ((((hd.dimension hlhs).dimension hrhs).advance 1).advance 1).move _ _

theorem Emitted.extent : (∀ x ∈ extents, x.name.isExtent = true) ∧ op.name.isExtent = false := by
  cases h with
  | read _ hrows hcolumns =>
    have hr := (emits_of_build hrows).1.extent
    have hc := (emits_of_build hcolumns).1.extent
    exact ⟨fun x hx => (List.mem_append.1 hx).elim (hr x) (hc x), rfl⟩
  | gemm | publish | observe => exact ⟨by simp, rfl⟩
  | shapeIf _ hlhs hrhs =>
    have hl := (emits_of_build hlhs).1.extent
    have hr := (emits_of_build hrhs).1.extent
    refine ⟨fun x hx => ?_, rfl⟩
    rcases List.mem_append.1 hx with hx | hx
    · exact hl x hx
    · rcases List.mem_append.1 hx with hx | hx
      · exact hr x hx
      · rw [List.mem_singleton.1 hx]
        rfl

theorem Emitted.name :
    op.name = match source.kind with
      | .read => .read
      | .gemm => .checkGemm
      | .publish => .publish
      | .observe => .observe
      | .shapeIf => .shapeIf := by
  cases h with
  | read kind | gemm kind | publish kind | observe kind | shapeIf kind => rw [kind]; rfl

theorem Emitted.framed : ∃ framePath epoch, Framed op source framePath epoch := by
  cases h with
  | read | publish | observe => exact ⟨_, _, framed_addResource⟩
  | gemm => exact ⟨_, _, framed_checkOp⟩
  | shapeIf => exact ⟨_, _, framed_shapeIfOp⟩

end

/-- The fields that the kind of an operation leaves alone have their defaults. -/
def Operation.Canonical (op : Operation) (t e : Body) : Prop :=
  match op.kind with
  | .read => t = .nil ∧ e = .nil ∧ op.lhs = 0 ∧ op.rhs = 0 ∧ op.Plain ∧
    op.numericalProfile = .strictF32 ∧ op.rows.Canonical ∧ op.columns.Canonical
  | .gemm => t = .nil ∧ e = .nil ∧ op.resource = 0 ∧ op.rows = {} ∧ op.columns = {} ∧ op.Plain
  | .publish => t = .nil ∧ e = .nil ∧ op.result = 0 ∧ op.rhs = 0 ∧ op.rows = {} ∧
    op.columns = {} ∧ op.Plain ∧ op.numericalProfile = .strictF32
  | .observe => t = .nil ∧ e = .nil ∧ op.result = 0 ∧ op.lhs = 0 ∧ op.rhs = 0 ∧ op.rows = {} ∧
    op.columns = {} ∧ op.Plain ∧ op.numericalProfile = .strictF32
  | .shapeIf => op.result = 0 ∧ op.resource = 0 ∧ op.lhs = 0 ∧ op.rhs = 0 ∧ op.rows = {} ∧
    op.columns = {} ∧ op.numericalProfile = .strictF32 ∧ op.conditionLhs.Canonical ∧
    op.conditionRhs.Canonical

variable {depth : ℕ} {values : Values} {ctx : Context} {after : Values}

theorem Accepted.canonical (h : Accepted ctx depth source t e values after) :
    source.Canonical t e := by
  unfold Operation.Canonical
  cases h with
  | read kind _ noLhs noRhs plain profile rowsOk columnsOk =>
    rw [kind]
    exact ⟨rfl, rfl, noLhs, noRhs, plain, profile, canonical_of_dimension rowsOk,
      canonical_of_dimension columnsOk⟩
  | gemm kind _ _ noResource shapeless plain =>
    rw [kind]
    exact ⟨rfl, rfl, noResource, shapeless.1, shapeless.2, plain⟩
  | publish kind _ _ noResult noRhs shapeless plain profile =>
    rw [kind]
    exact ⟨rfl, rfl, noResult, noRhs, shapeless.1, shapeless.2, plain, profile⟩
  | observe kind _ noResult noLhs noRhs shapeless plain profile =>
    rw [kind]
    exact ⟨rfl, rfl, noResult, noLhs, noRhs, shapeless.1, shapeless.2, plain, profile⟩
  | shapeIf kind noResult noResource noLhs noRhs shapeless profile lhsOk rhsOk =>
    rw [kind]
    exact ⟨noResult, noResource, noLhs, noRhs, shapeless.1, shapeless.2, profile,
      canonical_of_dimension lhsOk, canonical_of_dimension rhsOk⟩

theorem Accepted.nested (h : Accepted ctx depth source t e values after) :
    (∃ depth values after, verifyBody ctx depth t values = .ok after) ∧
      ∃ depth values after, verifyBody ctx depth e values = .ok after := by
  cases h with
  | read | gemm | publish | observe => exact ⟨⟨0, values, values, rfl⟩, ⟨0, values, values, rfl⟩⟩
  | shapeIf _ _ _ _ _ _ _ _ _ _ thenOk elseOk => exact ⟨⟨_, _, _, thenOk⟩, ⟨_, _, _, elseOk⟩⟩

variable {epoch : Text} {order : Value} {resource' resource : Value} {shape shape' : Shape}

theorem readOp_inj {rows rows' columns columns' : Value}
    (h : readOp source path epoch order resource rows columns shape =
      readOp source' path epoch order resource' rows' columns' shape') :
    rows = rows' ∧ columns = columns' ∧ shape = shape' ∧ source.result = source'.result ∧
      source.resource = source'.resource := by
  have hoperands := congrArg Mlir.Op.operands h
  have hresults := congrArg Mlir.Op.results h
  have hresult := congrArg (fun op : Op => op.attributes.get "value_id") h
  have hresource := congrArg (fun op : Op => op.attributes.get "resource_id") h
  simp [readOp] at hoperands
  simp [readOp, tensor] at hresults
  simp [readOp, addResource, addSource] at hresult hresource
  exact ⟨hoperands.2.1, hoperands.2.2, Prod.ext hresults.1 hresults.2, i64Attr_inj hresult,
    i64Attr_inj hresource⟩

variable {rhs rhs' lhs lhs' : Value}

theorem checkOp_inj
    (h : checkOp source path epoch order lhs rhs = checkOp source' path epoch order lhs' rhs') :
    lhs = lhs' ∧ rhs = rhs' ∧ source.numericalProfile = source'.numericalProfile := by
  have hoperands := congrArg Mlir.Op.operands h
  have hprofile := congrArg (fun op : Op => op.attributes.get "numerical_profile") h
  simp [checkOp] at hoperands
  refine ⟨hoperands.1, hoperands.2, ?_⟩
  cases hs : source.numericalProfile
  all_goals
    cases hs' : source'.numericalProfile
    all_goals
      first
      | rfl
      | simp [checkOp, addNumerics, literalAttr, hs, hs'] at hprofile
        revert hprofile
        decide

theorem gemmOp_inj (h : gemmOp source path epoch order lhs rhs shape =
      gemmOp source' path epoch order lhs' rhs' shape') : source.result = source'.result := by
  have hresult := congrArg (fun op : Op => op.attributes.get "value_id") h
  simp [gemmOp, addSource] at hresult
  exact i64Attr_inj hresult

theorem publishOp_inj {value value' : Value} (h : publishOp source path epoch order resource value =
      publishOp source' path epoch order resource' value') :
    value = value' ∧ source.resource = source'.resource := by
  have hoperands := congrArg Mlir.Op.operands h
  have hresource := congrArg (fun op : Op => op.attributes.get "resource_id") h
  simp [publishOp] at hoperands
  simp [publishOp, addResource] at hresource
  exact ⟨hoperands.2, i64Attr_inj hresource⟩

theorem observeOp_inj
    (h : observeOp source path epoch order resource = observeOp source' path epoch order resource') :
    source.resource = source'.resource := by
  have hresource := congrArg (fun op : Op => op.attributes.get "resource_id") h
  simp [observeOp, addResource] at hresource
  exact i64Attr_inj hresource

theorem conditionOp_inj (h : conditionOp source lhs rhs = conditionOp source' lhs' rhs') :
    lhs = lhs' ∧ rhs = rhs' ∧ source.comparison = source'.comparison := by
  have hoperands := congrArg Mlir.Op.operands h
  have hpredicate := congrArg (fun op : Op => op.attributes.get "predicate") h
  simp [conditionOp] at hoperands
  simp [conditionOp, get_single] at hpredicate
  refine ⟨hoperands.1, hoperands.2, ?_⟩
  cases hs : source.comparison
  all_goals
    cases hs' : source'.comparison
    all_goals
      first
      | rfl
      | simp [cmpIPredicate, hs, hs'] at hpredicate

/-- A body is determined by its operations. -/
def Body.Determined (b : Body) : Prop :=
  ∀ {b' : Body} {base : Text} {index : ℕ} {state s s' : BuildState} {ops : Ops},
    (∃ ctx depth values after, verifyBody ctx depth b values = .ok after) →
    (∃ ctx depth values after, verifyBody ctx depth b' values = .ok after) → Distinct state →
    buildBody base index b state = some (ops, s) → buildBody base index b' state = some (ops, s') →
    b = b'

/-- **An operation is determined by what is emitted for it**, when its nested bodies are. -/
theorem Emitted.inj {ctx' : Context} {depth' : ℕ} {values' after after' : Values} {t' e' : Body}
    {tail' : List Op} {restOps restOps' : Ops} (ht : t.Determined) (he : e.Determined)
    (hd : Distinct state) (ha : Accepted ctx depth source t e values after)
    (ha' : Accepted ctx' depth' source' t' e' values' after')
    (h : Emitted path state source t e extents op regions tail mid)
    (h' : Emitted path state source' t' e' extents' op' regions' tail' mid')
    (hextents : extents = extents') (hop : op = op') (hregions : regions = regions')
    (htail : (ofList tail).append restOps = (ofList tail').append restOps') :
    source = source' ∧ t = t' ∧ e = e' ∧ mid = mid' ∧ restOps = restOps' := by
  obtain ⟨_, _, hframed⟩ := h.framed
  obtain ⟨_, _, hframed'⟩ := h'.framed
  obtain ⟨hsite, hcalls⟩ := hframed.inj (hop ▸ hframed')
  have hname : op.name = op'.name := congrArg Mlir.Op.name hop
  rw [h.name, h'.name] at hname
  have hc := ha.canonical
  have hc' := ha'.canonical
  unfold Operation.Canonical at hc hc'
  -- the kinds are the same, since the names of the operations are
  cases h with
  | read kind hrows hcolumns =>
    cases h' with
    | read kind' hrows' hcolumns' =>
      rw [kind] at hc
      rw [kind'] at hc'
      obtain ⟨rfl, rfl, hlhs, hrhs, hplain, hprofile, hrowsOk, hcolumnsOk⟩ := hc
      obtain ⟨rfl, rfl, hlhs', hrhs', hplain', hprofile', hrowsOk', hcolumnsOk'⟩ := hc'
      obtain ⟨rfl, rfl, rfl, hresult, hresource⟩ := readOp_inj hop
      obtain ⟨hrowsEq, hcolumnsEq, -, rfl⟩ := dimensions_inj [] [] hd hrowsOk
        hrowsOk' hcolumnsOk hcolumnsOk' hrows hrows' hcolumns hcolumns' (by simpa using hextents)
      have hsource : source = source' :=
        Operation.ext (kind.trans kind'.symm) hsite hcalls hresult hresource
          (hlhs.trans hlhs'.symm) (hrhs.trans hrhs'.symm) hrowsEq hcolumnsEq
          (hprofile.trans hprofile'.symm) (hplain.comparison.trans hplain'.comparison.symm)
          (hplain.lhs.trans hplain'.lhs.symm) (hplain.rhs.trans hplain'.rhs.symm)
      exact ⟨hsource, rfl, rfl, by rw [hresult], htail⟩
    | _ kind' =>
      rw [kind, kind'] at hname
      cases hname
  | gemm kind hlhs hrhs =>
    cases h' with
    | gemm kind' hlhs' hrhs' =>
      rw [kind] at hc
      rw [kind'] at hc'
      obtain ⟨rfl, rfl, hresource, hrows, hcolumns, hplain⟩ := hc
      obtain ⟨rfl, rfl, hresource', hrows', hcolumns', hplain'⟩ := hc'
      obtain ⟨hlhsValue, hrhsValue, hprofile⟩ := checkOp_inj hop
      simp only [ofList, append, Mlir.Ops.cons.injEq] at htail
      obtain ⟨hgemm, -, hrest⟩ := htail
      have hresult := gemmOp_inj hgemm
      have hlhsId := hd.value hlhs (by rw [hlhsValue]; exact hlhs')
      have hrhsId := hd.value hrhs (by rw [hrhsValue]; exact hrhs')
      have hsource : source = source' :=
        Operation.ext (kind.trans kind'.symm) hsite hcalls hresult
          (hresource.trans hresource'.symm) hlhsId hrhsId (hrows.trans hrows'.symm)
          (hcolumns.trans hcolumns'.symm) hprofile
          (hplain.comparison.trans hplain'.comparison.symm) (hplain.lhs.trans hplain'.lhs.symm)
          (hplain.rhs.trans hplain'.rhs.symm)
      subst hsource
      cases hlhs.symm.trans hlhs'
      cases hrhs.symm.trans hrhs'
      exact ⟨rfl, rfl, rfl, rfl, hrest⟩
    | _ kind' =>
      rw [kind, kind'] at hname
      cases hname
  | publish kind hvalue =>
    cases h' with
    | publish kind' hvalue' =>
      rw [kind] at hc
      rw [kind'] at hc'
      obtain ⟨rfl, rfl, hresult, hrhs, hrows, hcolumns, hplain, hprofile⟩ := hc
      obtain ⟨rfl, rfl, hresult', hrhs', hrows', hcolumns', hplain', hprofile'⟩ := hc'
      obtain ⟨hlhsValue, hresource⟩ := publishOp_inj hop
      have hlhs : source.lhs = source'.lhs :=
        hd.value (v := _) hvalue (by rw [hlhsValue]; exact hvalue')
      have hsource : source = source' :=
        Operation.ext (kind.trans kind'.symm) hsite hcalls (hresult.trans hresult'.symm) hresource
          hlhs (hrhs.trans hrhs'.symm) (hrows.trans hrows'.symm) (hcolumns.trans hcolumns'.symm)
          (hprofile.trans hprofile'.symm) (hplain.comparison.trans hplain'.comparison.symm)
          (hplain.lhs.trans hplain'.lhs.symm) (hplain.rhs.trans hplain'.rhs.symm)
      exact ⟨hsource, rfl, rfl, rfl, htail⟩
    | _ kind' =>
      rw [kind, kind'] at hname
      cases hname
  | observe kind =>
    cases h' with
    | observe kind' =>
      rw [kind] at hc
      rw [kind'] at hc'
      obtain ⟨rfl, rfl, hresult, hlhs, hrhs, hrows, hcolumns, hplain, hprofile⟩ := hc
      obtain ⟨rfl, rfl, hresult', hlhs', hrhs', hrows', hcolumns', hplain', hprofile'⟩ := hc'
      have hresource := observeOp_inj hop
      have hsource : source = source' :=
        Operation.ext (kind.trans kind'.symm) hsite hcalls (hresult.trans hresult'.symm) hresource
          (hlhs.trans hlhs'.symm) (hrhs.trans hrhs'.symm) (hrows.trans hrows'.symm)
          (hcolumns.trans hcolumns'.symm) (hprofile.trans hprofile'.symm)
          (hplain.comparison.trans hplain'.comparison.symm) (hplain.lhs.trans hplain'.lhs.symm)
          (hplain.rhs.trans hplain'.rhs.symm)
      exact ⟨hsource, rfl, rfl, rfl, htail⟩
    | _ kind' =>
      rw [kind, kind'] at hname
      cases hname
  | shapeIf kind hlhs hrhs hthen helse =>
    cases h' with
    | shapeIf kind' hlhs' hrhs' hthen' helse' =>
      rw [kind] at hc
      rw [kind'] at hc'
      obtain ⟨hresult, hresource, hl, hr, hrows, hcolumns, hprofile, hlhsOk, hrhsOk⟩ := hc
      obtain ⟨hresult', hresource', hl', hr', hrows', hcolumns', hprofile', hlhsOk', hrhsOk'⟩ := hc'
      have hlast := congrArg List.getLast? hextents
      simp only [← List.append_assoc, List.getLast?_concat, Option.some.injEq] at hlast
      obtain ⟨rfl, rfl, hcomparison⟩ := conditionOp_inj hlast
      obtain ⟨hlhsEq, hrhsEq, -, rfl⟩ := dimensions_inj _ _ hd hlhsOk hlhsOk' hrhsOk hrhsOk' hlhs hlhs'
        hrhs hrhs' hextents
      simp only [branchBlock, Regions.cons.injEq, Blocks.cons.injEq, and_true, true_and] at hregions
      obtain ⟨rfl, -⟩ := append_last_inj hregions.1
      obtain ⟨rfl, -⟩ := append_last_inj hregions.2
      have hbranch := (((hd.dimension hlhs).dimension hrhs).advance 1).branch
      have hthenEq := ht ⟨_, ha.nested.1⟩ ⟨_, ha'.nested.1⟩ hbranch hthen hthen'
      have helseEq := he ⟨_, ha.nested.2⟩ ⟨_, ha'.nested.2⟩ hbranch helse helse'
      have hsource : source = source' :=
        Operation.ext (kind.trans kind'.symm) hsite hcalls (hresult.trans hresult'.symm)
          (hresource.trans hresource'.symm) (hl.trans hl'.symm) (hr.trans hr'.symm)
          (hrows.trans hrows'.symm) (hcolumns.trans hcolumns'.symm) (hprofile.trans hprofile'.symm)
          hcomparison hlhsEq hrhsEq
      exact ⟨hsource, hthenEq, helseEq, rfl, htail⟩
    | _ kind' =>
      rw [kind, kind'] at hname
      cases hname

/-- **A body is determined by its operations**, at any nesting. -/
theorem body_inj (b : Body) : b.Determined := by
  induction b with
  | nil =>
    intro b' base index state s s' ops _ _ _ h h'
    cases h
    cases b' with
    | nil => rfl
    | cons source' t' e' rest' =>
      obtain ⟨extents, op, regions, tail, mid, restOps, -, -, hops⟩ := buildBody_cons h'
      cases extents <;> simp [ofList, append] at hops
  | cons source t e rest iht ihe ihr =>
    rintro b' base index state s s' ops ⟨ctx, depth, values, after, hv⟩
      ⟨ctx', depth', values', after', hv'⟩ hd h h'
    obtain ⟨extents, op, regions, tail, mid, restOps, hemitted, hrest, rfl⟩ := buildBody_cons h
    cases b' with
    | nil =>
      have hempty := congrArg Prod.fst (Option.some.inj h')
      cases extents <;> simp [ofList, append] at hempty
    | cons source' t' e' rest' =>
      obtain ⟨extents', op', regions', tail', mid', restOps', hemitted', hrest', hops⟩ :=
        buildBody_cons h'
      obtain ⟨-, _, ha, hbehind⟩ := accepted_cons hv
      obtain ⟨-, _, ha', hbehind'⟩ := accepted_cons hv'
      obtain ⟨hextents, hop⟩ := hemitted.extent
      obtain ⟨hextents', hop'⟩ := hemitted'.extent
      obtain ⟨rfl, rfl, rfl, htail⟩ := split_ops hextents hextents' hop hop' hops
      obtain ⟨rfl, rfl, rfl, rfl, rfl⟩ :=
        hemitted.inj iht ihe hd ha ha' hemitted' rfl rfl rfl htail
      have hrestEq := ihr ⟨_, _, _, _, hbehind⟩ ⟨_, _, _, _, hbehind'⟩ (hemitted.distinct hd) hrest
        hrest'
      rw [hrestEq]

theorem get_bindArguments {map : Id → Option Value} {first : Value} {ids : List Id} {id : Id}
    (h : bindArguments map first ids id = some v) :
    map id = some v ∨ first ≤ v ∧ ids[v - first]? = some id := by
  induction ids generalizing map first with
  | nil => exact .inl h
  | cons id' rest ih =>
    rw [bindArguments] at h
    rcases ih h with hmap | ⟨hle, hget⟩
    · by_cases heq : id = id'
      · subst heq
        rw [Function.update_self, Option.some.injEq] at hmap
        subst hmap
        exact .inr ⟨le_rfl, by simp⟩
      · rw [Function.update_of_ne heq] at hmap
        exact .inl hmap
    · refine .inr ⟨Nat.le_of_succ_le hle, ?_⟩
      obtain ⟨i, rfl⟩ := Nat.exists_eq_add_of_le hle
      rw [Nat.add_sub_cancel_left] at hget
      rw [Nat.add_assoc, Nat.add_sub_cancel_left, Nat.add_comm, List.getElem?_cons_succ, hget]

theorem distinct_initial (region : Region) : Distinct (initialState region) where
  parameter := by
    intro id id' v h h'
    have hid := (get_bindArguments h).resolve_left nofun
    have hid' := (get_bindArguments h').resolve_left nofun
    exact Option.some.inj (hid.2.symm.trans hid'.2)
  value := nofun
  parameterLt := by
    intro id v h
    obtain ⟨hle, hget⟩ := (get_bindArguments h).resolve_left nofun
    have hlt := (List.getElem?_eq_some_iff.1 hget).1
    rw [List.length_map] at hlt
    show v < region.resources.length + region.shapeParameters.length + 1
    exact Nat.lt_succ_of_lt ((Nat.sub_lt_iff_lt_add' hle).1 hlt)
  valueLt := nofun

theorem resourceArgument_inj {resource resource' : Resource}
    (h : resourceArgument resource = resourceArgument resource') : resource = resource' := by
  have hattributes := congrArg Argument.attributes h
  have hid := congrArg (Entries.get · "mdsl_admission.resource_id") hattributes
  have hindex := congrArg (Entries.get · "mdsl_admission.source_parameter") hattributes
  have hname := congrArg (Entries.get · "mdsl_admission.name") hattributes
  simp [resourceArgument, Entries.ofList] at hid hindex hname
  cases resource
  cases resource'
  congr
  · exact i64Attr_inj hid
  · exact i64Attr_inj hindex

theorem shapeArgument_inj {parameter parameter' : ShapeParameter}
    (h : shapeArgument parameter = shapeArgument parameter') : parameter = parameter' := by
  have hattributes := congrArg Argument.attributes h
  have hid := congrArg (Entries.get · "mdsl_admission.shape_id") hattributes
  have hindex := congrArg (Entries.get · "mdsl_admission.source_parameter") hattributes
  have hname := congrArg (Entries.get · "mdsl_admission.name") hattributes
  simp [shapeArgument, Entries.ofList] at hid hindex hname
  cases parameter
  cases parameter'
  congr
  · exact i64Attr_inj hid
  · exact i64Attr_inj hindex

variable {region region' : Region}

/-- The parameters of a region are determined by its arguments, whose types tell the two kinds
apart. -/
theorem regionArguments_inj (h : regionArguments region = regionArguments region') :
    region.resources = region'.resources ∧ region.shapeParameters = region'.shapeParameters := by
  have hfilter : ∀ (region : Region),
      (regionArguments region).filter (·.type = .descriptor) =
        region.resources.map resourceArgument ∧
      (regionArguments region).filter (·.type ≠ .descriptor) =
        region.shapeParameters.map shapeArgument := by
    simp [regionArguments, resourceArgument, shapeArgument, List.filter_map, Function.comp_def]
  have hresources := congrArg (List.filter (·.type = .descriptor)) h
  have hparameters := congrArg (List.filter (·.type ≠ .descriptor)) h
  rw [(hfilter region).1, (hfilter region').1] at hresources
  rw [(hfilter region).2, (hfilter region').2] at hparameters
  exact ⟨List.map_injective_iff.2 (fun _ _ => resourceArgument_inj) hresources,
    List.map_injective_iff.2 (fun _ _ => shapeArgument_inj) hparameters⟩

variable {files' files : List SourceFile}

/-- **A region is determined by its function.** -/
theorem buildFunction_inj {function : Function} (hv : verifyRegion files region = .ok ())
    (hv' : verifyRegion files' region' = .ok ()) (h : buildFunction index region = some function)
    (h' : buildFunction index region' = some function) : region = region' := by
  unfold buildFunction at h h'
  obtain ⟨⟨ops, state⟩, hbody, h⟩ := bind_eq_some_iff.1 h
  obtain ⟨⟨ops', state'⟩, hbody', h'⟩ := bind_eq_some_iff.1 h'
  have hfunction := Option.some.inj (h.trans h'.symm)
  simp only [Function.mk.injEq, true_and, Blocks.cons.injEq, Mlir.Ops.cons.injEq, and_true]
    at hfunction
  obtain ⟨hname, harguments, hattributes, -, hops⟩ := hfunction
  obtain ⟨hresources, hparameters⟩ := regionArguments_inj harguments
  obtain ⟨rfl, -⟩ := append_last_inj hops
  have hinitial : initialState region' = initialState region := by
    unfold initialState
    rw [hresources, hparameters]
  rw [hinitial] at hbody'
  obtain ⟨_, _, -, -, hchecks⟩ := verifyBody_of_region hv
  obtain ⟨_, _, -, -, hchecks'⟩ := verifyBody_of_region hv'
  have hsite := congrArg (Entries.get · "mdsl_admission.source") hattributes
  simp [Entries.ofList] at hsite
  exact Region.ext hname (sourceAttr_inj hsite) hresources hparameters
    (body_inj region.body ⟨_, _, _, _, hchecks⟩ ⟨_, _, _, _, hchecks'⟩ (distinct_initial region)
      hbody hbody')

theorem buildFunctions_inj {regions regions' : List Region} {names names' : List Text}
    {functions : List TopLevel} (hv : verifyRegions files regions names = .ok ())
    (hv' : verifyRegions files' regions' names' = .ok ())
    (h : buildFunctions index regions = some functions)
    (h' : buildFunctions index regions' = some functions) : regions = regions' := by
  induction regions generalizing regions' names names' index functions with
  | nil =>
    cases h
    cases regions' with
    | nil => rfl
    | cons region' rest' =>
      obtain ⟨_, -, h'⟩ := bind_eq_some_iff.1 h'
      obtain ⟨_, -, h'⟩ := bind_eq_some_iff.1 h'
      cases h'
  | cons region rest ih =>
    obtain ⟨function, hfunction, h⟩ := bind_eq_some_iff.1 h
    obtain ⟨more, hmore, h⟩ := bind_eq_some_iff.1 h
    cases h
    cases regions' with
    | nil => cases h'
    | cons region' rest' =>
      obtain ⟨function', hfunction', h'⟩ := bind_eq_some_iff.1 h'
      obtain ⟨more', hmore', h'⟩ := bind_eq_some_iff.1 h'
      cases h'
      unfold verifyRegions at hv hv'
      replace hv := then_eq_ok hv
      obtain ⟨_, hregion, hv⟩ := bind_eq_ok hv
      obtain ⟨_, -, hv'⟩ := bind_eq_ok hv'
      obtain ⟨_, hregion', hv'⟩ := bind_eq_ok hv'
      rw [buildFunction_inj hregion hregion' hfunction hfunction', ih hv hv' hmore hmore']

variable {program : Program}

theorem verifyProgram_inv (h : verifyProgram program = .ok ()) :
    filesValid program.sourceFiles program.sourceIdentity program.sourceSha256 = true ∧
      verifyRegions program.sourceFiles program.regions [] = .ok () := by
  unfold verifyProgram at h
  replace h := then_eq_ok h
  obtain ⟨_, hfiles, hregions⟩ := bind_eq_ok h
  exact ⟨require_eq_ok.1 hfiles, hregions⟩

variable {module : Module}

/-- **An accepted program is determined by the module made for it.** -/
theorem emitModule_inj {p q : Program} (hp : verifyProgram p = .ok ())
    (hq : verifyProgram q = .ok ()) (h : emitModule p = some module)
    (h' : emitModule q = some module) : p = q := by
  unfold emitModule at h h'
  obtain ⟨functions, hfunctions, h⟩ := bind_eq_some_iff.1 h
  obtain ⟨functions', hfunctions', h'⟩ := bind_eq_some_iff.1 h'
  have hmodule := Option.some.inj (h.trans h'.symm)
  rw [Module.mk.injEq] at hmodule
  obtain ⟨hattributes, rfl⟩ := hmodule
  obtain ⟨hfiles, hregions⟩ := verifyProgram_inv hp
  obtain ⟨hfiles', hregions'⟩ := verifyProgram_inv hq
  have hidentity := congrArg (Entries.get · "mdsl_admission.source_identity") hattributes
  have hsource := congrArg (Entries.get · "mdsl_admission.source_sha256") hattributes
  have hheader := congrArg (Entries.get · "mdsl_admission.header_sha256") hattributes
  have hcompiler := congrArg (Entries.get · "mdsl_admission.compiler_identity") hattributes
  simp [moduleAttributes] at hidentity hsource hheader hcompiler
  -- the table of files is read back from either
  have hread : verifyFiles (moduleAttributes p) = .ok p.sourceFiles :=
    files_built hfiles (by simp [moduleAttributes])
  have hread' : verifyFiles (moduleAttributes q) = .ok q.sourceFiles :=
    files_built hfiles' (by simp [moduleAttributes])
  have htable : p.sourceFiles = q.sourceFiles := by
    rw [hattributes, hread'] at hread
    exact (Except.ok.inj hread).symm
  exact Program.ext hidentity hsource hheader hcompiler htable
    (buildFunctions_inj hregions hregions' hfunctions hfunctions')

theorem buildModule_inv {verify : Module → Bool} (h : buildModule verify program = .ok module) :
    verifyProgram program = .ok () ∧ emitModule program = some module := by
  unfold buildModule at h
  obtain ⟨_, hverify, h⟩ := bind_eq_ok h
  refine ⟨hverify, ?_⟩
  split at h
  · rename_i module' hemit
    replace h := then_eq_ok h
    cases h
    exact hemit
  · cases h

/-- **A module identifies its program.** Programs whose modules print alike are equal, in every
field. A module matches a program only if it is the program's own, which no other program builds.
`printModule`, MLIR's printer, is injective. -/
theorem module_identifies_program {P : Type} [DecidableEq P] {printModule : Module → P}
    (hprint : Function.Injective printModule) (verify : Module → Bool) :
    (∀ p q module module', buildModule verify p = .ok module → buildModule verify q = .ok module' →
      printModule module = printModule module' → p = q) ∧
    ∀ p module, verifyModuleMatchesProgram verify printModule p module = .ok () →
      buildModule verify p = .ok module ∧ ∀ q, buildModule verify q = .ok module → q = p := by
  have hinj : ∀ p q module module', buildModule verify p = .ok module →
      buildModule verify q = .ok module' → printModule module = printModule module' → p = q := by
    intro p q module module' h h' heq
    obtain rfl := hprint heq
    obtain ⟨hp, hemit⟩ := buildModule_inv h
    obtain ⟨hq, hemit'⟩ := buildModule_inv h'
    exact emitModule_inj hp hq hemit hemit'
  refine ⟨hinj, fun p module h => ?_⟩
  unfold verifyModuleMatchesProgram at h
  replace h := then_eq_ok h
  split at h
  · cases h
  · rename_i expected hbuild
    have heq : printModule expected = printModule module := by simpa using require_eq_ok.1 h
    obtain rfl := hprint heq
    exact ⟨hbuild, fun q hq => hinj q p _ _ hq hbuild rfl⟩

theorem module_identifies_twoLayer :
    ∃ module, buildModule Module.wellFormed twoLayerProgram = .ok module ∧
      ∀ q, buildModule Module.wellFormed q = .ok module → q = twoLayerProgram := by
  obtain ⟨module, hemit, haccept⟩ := emitModule_verified Module.wellFormed (fun _ _ h => h)
    verify_twoLayer
  have hbuild := buildModule_eq verify_twoLayer hemit haccept
  have hmatches : verifyModuleMatchesProgram Module.wellFormed id twoLayerProgram module =
      .ok () := by
    unfold verifyModuleMatchesProgram
    rw [haccept, ok_bind, hbuild]
    exact require_eq_ok.2 (beq_self_eq_true _)
  exact ⟨module, (module_identifies_program Function.injective_id _).2 _ _ hmatches⟩

end Matcore.ClosedRegion
