import Matcore.ClosedRegion.VerifyModule
import Matcore.Proof.Admission

/-!
# Built operations pass their checks

Each operation of `buildBody` carries the attributes that `verifyBlock` reads. `verify_*` is the
spec of one check on the operation built for it.
-/

namespace Matcore.ClosedRegion

open Except (ok_bind)
open Mlir (Elements Entries Value Regions ascii)

variable {source : Operation} {files : List SourceFile} {path epoch : Text} {s : BlockState}
variable {order : Value} {d : Entries} {allowed : List String} {name : String}

@[simp] theorem i64_i64Attr (n : ℕ) : i64 (some (i64Attr n)) = some (n : ℤ) := rfl

theorem textIs_of_get {value : Text} (h : d.get name = some (.string value)) :
    textIs d name value = true := by
  unfold textIs
  rw [h]
  exact beq_self_eq_true value

theorem attrsAre_nil : attrsAre .nil allowed = true := rfl

variable {value : Mlir.Attribute}

theorem attrsAre_set (hname : name ∈ allowed) (h : attrsAre d allowed = true) :
    attrsAre (d.set name value) allowed = true := by
  unfold attrsAre at h ⊢
  rw [List.all_eq_true] at h ⊢
  intro key hkey
  refine List.contains_iff_mem.2 (Entries.names_set hname ?_ key hkey)
  exact fun x hx => List.contains_iff_mem.1 (h x hx)

theorem attrsAre_addSource (hallowed : sourceAttributes ⊆ allowed) (h : attrsAre d allowed = true) :
    attrsAre ((addSource d source path).set "resource_epoch" (.string epoch)) allowed = true := by
  unfold addSource
  exact attrsAre_set (hallowed (by simp [sourceAttributes]))
    (attrsAre_set (hallowed (by simp [sourceAttributes]))
      (attrsAre_set (hallowed (by simp [sourceAttributes]))
        (attrsAre_set (hallowed (by simp [sourceAttributes])) h)))

variable {profile : NumericalProfile}

theorem attrsAre_addNumerics (hallowed : numericAttributes ⊆ allowed)
    (h : attrsAre d allowed = true) : attrsAre (addNumerics d profile) allowed = true := by
  unfold addNumerics
  repeat refine attrsAre_set (hallowed (by simp [numericAttributes])) ?_
  exact h

theorem sourceValid_sourceAttr {site : SourceSite} (h : siteValid site files = true) :
    sourceValid (some (sourceAttr site)) files = true := by
  have hfields := h
  unfold siteValid at hfields
  rw [Bool.and_eq_true] at hfields
  obtain ⟨hid, hfields⟩ := hfields
  split at hfields
  · cases hfields
  · simp only [Bool.and_eq_true, bne_iff_ne, ne_eq, decide_eq_true_eq] at hid hfields
    obtain ⟨⟨⟨⟨⟨⟨⟨⟨hlength, hline⟩, hcolumn⟩, hoffset⟩, hend⟩, -⟩, -⟩, -⟩, -⟩ := hfields
    have hread : sourceValid (some (sourceAttr site)) files =
        (decide (0 < (site.fileId : ℤ)) && decide (0 ≤ (site.offset : ℤ)) &&
          decide (0 < (site.length : ℤ)) && decide (0 < (site.line : ℤ)) &&
          decide (0 < (site.column : ℤ)) &&
          decide ((site.length : ℤ) ≤ (maximum : ℤ) - (site.offset : ℤ)) &&
          siteValid site files) := by
      simp [sourceValid, sourceAttr, Entries.ofList]
    have hfile : 0 < (site.fileId : ℤ) := by exact_mod_cast Nat.pos_of_ne_zero hid
    rw [hread, h]
    simp only [Bool.and_eq_true, decide_eq_true_eq, Bool.and_true]
    exact ⟨⟨⟨⟨⟨hfile, by omega⟩, by omega⟩, by omega⟩, by omega⟩, by omega⟩

/-- The attributes of an operation on the effect chain. -/
structure Framed (op : Op) (source : Operation) (path epoch : Text) : Prop where
  site : op.attributes.get "source" = some (sourceAttr source.site)
  calls : op.attributes.get "helper_calls" =
    some (.array (.ofList (source.helperCalls.map sourceAttr)))
  frontier : op.attributes.get "frontier" = some (.string path)
  epoch : op.attributes.get "resource_epoch" = some (.string epoch)

/-- **The common checks** of an operation on the effect chain. -/
theorem verify_effect {op : Op} {regions : Regions OpName Ty}
    (hframed : Framed op source path epoch) (hsited : source.Sited files)
    (hoperand : ∃ rest, op.operands = order :: rest) (horder : s.state.order = some order)
    (hpending : s.pendingCheck = none ∨ op.name = .gemm) (hpath : path ≠ [])
    (hnew : path ∉ s.frontiers) (hregions : op.name = .shapeIf ∨ regions = .nil)
    (hepoch : op.name = .publish ∨ op.name = .shapeIf ∨ epoch = s.state.epoch) :
    verifyEffect files op regions s = .ok (path, { s with frontiers := path :: s.frontiers }) := by
  obtain ⟨rest, hoperands⟩ := hoperand
  have h₁ : require (!op.operands.isEmpty && op.operands.head? == s.state.order)
      "unknown operation or broken ordered effect chain" = .ok () := by
    rw [require_eq_ok, hoperands, horder]
    simp
  have h₂ : require (s.pendingCheck.isNone || op.name == .gemm)
      "checked GEMM frontier is separated from its computation" = .ok () := by
    rw [require_eq_ok]
    rcases hpending with h | h <;> simp [h]
  have h₃ : require (sourceValid (op.attributes.get "source") files && !path.isEmpty &&
      (Elements.ofList (source.helperCalls.map sourceAttr)).toList.all fun site =>
        sourceValid (some site) files) "missing source/frontier identity" = .ok () := by
    rw [require_eq_ok, hframed.site, sourceValid_sourceAttr hsited.site,
      Elements.toList_ofList, List.all_map]
    have hall : source.helperCalls.all
        ((fun site => sourceValid (some site) files) ∘ sourceAttr) = true := by
      rw [List.all_eq_true]
      exact fun site hsite => sourceValid_sourceAttr (hsited.helperCalls site hsite)
    rw [hall]
    simp [hpath]
  have h₄ : require (!s.frontiers.contains path)
      "duplicate source-effect frontier identity" = .ok () := by
    rw [require_eq_ok]
    simpa using hnew
  have h₅ : require (op.name == .shapeIf || regions == .nil) "unexpected nested region" =
      .ok () := by
    rw [require_eq_ok]
    rcases hregions with h | h <;> simp [h]
  have h₆ : require (op.name == .publish || op.name == .shapeIf ||
      textIs op.attributes "resource_epoch" s.state.epoch)
      "stale or forged resource epoch" = .ok () := by
    rw [require_eq_ok]
    rcases hepoch with h | h | h
    · simp [h]
    · simp [h]
    · rw [textIs_of_get (h ▸ hframed.epoch), Bool.or_true]
  have hsource : verifySource files op = .ok path := by
    unfold verifySource
    rw [hframed.calls, hframed.frontier]
    dsimp only
    rw [h₃, ok_bind]
    rfl
  unfold verifyEffect
  rw [h₁, ok_bind, h₂, ok_bind, hsource, ok_bind, h₄, ok_bind, h₅, ok_bind, h₆, ok_bind]
  rfl

theorem attrsAre_single : attrsAre (.ofList [(name, value)]) [name] = true :=
  attrsAre_set List.mem_cons_self attrsAre_nil

theorem get_single : (Entries.ofList [(name, value)]).get name = some value := by
  simp [Entries.ofList]

theorem verify_constant {n : ℕ} (hpending : s.pendingCheck = none) :
    verifyConstant (constantOp n) s = .ok s := by
  unfold verifyConstant
  rw [require_bind]
  · rfl
  · rw [hpending]
    simp [constantOp, get_single, attrsAre_single, i64Attr]

theorem verify_dim {value : Value} {axis : ℕ} (hpending : s.pendingCheck = none)
    (hvalue : value ∈ s.state.values) (haxis : axis ≤ 1) :
    verifyDim (dimOp value axis) .nil s = .ok s := by
  unfold verifyDim
  rw [require_bind]
  · rfl
  · rw [hpending]
    have haxis : (axis : ℤ) ≤ 1 := by exact_mod_cast haxis
    simp [dimOp, get_single, attrsAre_single, hvalue, haxis]

variable {rhs lhs : Value}

theorem verify_condition (hpending : s.pendingCheck = none)
    (hlhs : s.scope.type lhs = some (.integer 64)) (hrhs : s.scope.type rhs = some (.integer 64)) :
    verifyComparison (conditionOp source lhs rhs) s = .ok s := by
  unfold verifyComparison
  rw [require_bind, require_bind]
  · rfl
  · cases h : source.comparison <;> simp [conditionOp, get_single, cmpIPredicate, h]
  · rw [hpending]
    simp [conditionOp, attrsAre_single, hlhs, hrhs]

variable {n : OpName} {operands : List Value} {results : List Ty}

theorem framed_addSource :
    Framed ⟨n, operands, results, (addSource d source path).set "resource_epoch" (.string epoch)⟩
      source path epoch := by
  constructor <;> simp [addSource]

variable {kind : Obligation}

theorem framed_addResource :
    Framed ⟨n, operands, results, addResource ((addSource d source path).set "resource_epoch"
      (.string epoch)) source kind⟩ source path epoch := by
  cases kind <;> constructor <;> simp [addResource, addSource]

theorem attrsAre_addResource (hallowed : ["resource_id", "obligations", "evidence"] ⊆ allowed)
    (hview : kind = .observe ∨ "storage_view" ∈ allowed) (h : attrsAre d allowed = true) :
    attrsAre (addResource d source kind) allowed = true := by
  have hstored : attrsAre (((d.set "resource_id" (i64Attr source.resource)).set "obligations"
      (obligations kind)).set "evidence" (literalAttr "required_not_discharged")) allowed = true :=
    attrsAre_set (hallowed (by simp)) (attrsAre_set (hallowed (by simp))
      (attrsAre_set (hallowed (by simp)) h))
  unfold addResource
  split_ifs with hkind
  · exact hstored
  · exact attrsAre_set (hview.resolve_left hkind) hstored

variable {resource : Value}

theorem verify_resource (op : Op) (kind : Obligation) {rest : List Value}
    (hd : op.attributes = addResource d source kind)
    (hoperands : op.operands = order :: resource :: rest)
    (hkind : op.name = .observe ↔ kind = .observe) (hpos : 0 < source.resource)
    (hresource : s.state.resources source.resource = some resource)
    (htype : s.scope.type resource = some .descriptor) :
    verifyResource op s = .ok () ∧ verifyObligations op kind = .ok () := by
  constructor
  · unfold verifyResource
    rw [require_bind]
    · rw [require_eq_ok, hd]
      by_cases hobserve : kind = .observe
      · simp [hkind.2 hobserve]
      · simp [addResource, hobserve, literalAttr, textIs]
    · have hid : (addResource d source kind).get "resource_id" =
          some (i64Attr source.resource) := by
        unfold addResource
        split_ifs <;> simp
      simp [hd, hid, hoperands, hresource, htype, hpos]
  · unfold verifyObligations
    rw [require_eq_ok, hd]
    unfold addResource
    split_ifs <;> simp [literalAttr, textIs]

theorem verify_gemmOperands (op : Op) (hnumerics : numericsValid op.attributes = true)
    (hoperands : op.operands = [order, lhs, rhs]) (hlhs : lhs ∈ s.state.values)
    (hrhs : rhs ∈ s.state.values) : verifyGemmOperands op s = .ok () := by
  unfold verifyGemmOperands
  rw [require_eq_ok, hnumerics, hoperands]
  simp [hlhs, hrhs]

theorem verify_value (op : Op) (results : ℕ) {id : ℕ} (hid : op.attributes.get "value_id" =
      some (i64Attr id)) (hpos : 0 < id) (hnew : id ∉ s.ids) (hresults : op.results.length = results)
    (htensor : isTensor op.results.head? = true) :
    verifyValue op results s = .ok { s with
      ids := id :: s.ids
      state := { s.state with values := s.scope.length :: s.state.values } } := by
  unfold verifyValue
  rw [hid, i64_i64Attr]
  dsimp only
  rw [require_bind]
  · rfl
  · simp [hpos, hnew, hresults, htensor]

/-- The numerical contract of a profile. -/
def Numeric (d : Entries) (profile : NumericalProfile) : Prop :=
  ∀ name ∈ numericAttributes, d.get name = (addNumerics .nil profile).get name

theorem numericsValid_of (h : Numeric d profile) : numericsValid d = true := by
  simp only [Numeric, numericAttributes, List.forall_mem_cons] at h
  have hsame : numericsValid d = numericsValid (addNumerics .nil profile) := by
    simp only [numericsValid, textIs, h]
    rfl
  rw [hsame]
  cases profile <;> decide

variable {shape : Shape}

theorem verify_readOp {rows columns : Value} (hpos : 0 < source.resource)
    (hresource : s.state.resources source.resource = some resource)
    (hdescriptor : s.scope.type resource = some .descriptor)
    (hrows : s.scope.type rows = some (.integer 64))
    (hcolumns : s.scope.type columns = some (.integer 64))
    (hrowExtent : knownExtent s.scope rows = shape.1.map (↑))
    (hcolumnExtent : knownExtent s.scope columns = shape.2.map (↑)) (hresult : 0 < source.result)
    (hnew : source.result ∉ s.ids) (hproduct : extentProduct shape = .ok ()) :
    verifyReadOp (readOp source path epoch order resource rows columns shape) s = .ok { s with
      ids := source.result :: s.ids
      state := { s.state with
        values := s.scope.length :: s.state.values, order := some (s.scope.length + 1) } } := by
  let op := readOp source path epoch order resource rows columns shape
  have hattributes : attrsAre op.attributes
      (sourceAttributes ++ ["resource_id", "storage_view", "obligations", "evidence", "value_id",
        "read_semantics", "failure"]) = true := by
    dsimp only [op, readOp]
    refine attrsAre_addResource (by simp) (.inr (by simp)) (attrsAre_addSource (by simp) ?_)
    exact attrsAre_set (by simp) (attrsAre_set (by simp) (attrsAre_set (by simp) attrsAre_nil))
  have haxis : ∀ (extent : Extent), verifyReadAxis (extent.map (↑)) extent = .ok () := by
    intro extent
    cases extent <;> simp [verifyReadAxis]
  obtain ⟨hres, hobligations⟩ := verify_resource op .read rfl rfl (by simp [op, readOp]) hpos
    hresource hdescriptor
  have hvalue := verify_value (s := s) op 2 (by simp [op, readOp, addResource, addSource]) hresult
    hnew rfl rfl
  have hshape : verifyReadShape op s.scope = .ok () := by
    show (verifyReadAxis (knownExtent s.scope rows) shape.1 >>= fun _ =>
      verifyReadAxis (knownExtent s.scope columns) shape.2 >>= fun _ => extentProduct shape) = .ok ()
    rw [hrowExtent, hcolumnExtent, haxis, ok_bind, haxis, ok_bind, hproduct]
  change verifyReadOp op s = _
  unfold verifyReadOp
  rw [hres, ok_bind, hobligations, ok_bind, hvalue, ok_bind, require_bind, hshape, ok_bind]
  · rw [Op.attrsAre, require_bind hattributes]
    rfl
  · simp [op, readOp, hrows, hcolumns, addResource, addSource, textIs, literalAttr]

theorem numeric_checkOp :
    Numeric (checkOp source path epoch order lhs rhs).attributes source.numericalProfile := by
  intro name hname
  simp only [numericAttributes, List.mem_cons, List.not_mem_nil, or_false] at hname
  rcases hname with rfl | rfl | rfl | rfl | rfl | rfl | rfl | rfl | rfl | rfl <;>
    simp [checkOp, addNumerics]

theorem numeric_gemmOp :
    Numeric (gemmOp source path epoch order lhs rhs shape).attributes
      source.numericalProfile := by
  intro name hname
  simp only [numericAttributes, List.mem_cons, List.not_mem_nil, or_false] at hname
  rcases hname with rfl | rfl | rfl | rfl | rfl | rfl | rfl | rfl | rfl | rfl <;>
    simp [gemmOp, addNumerics, addSource]

theorem framed_checkOp :
    Framed (checkOp source path epoch order lhs rhs) source (path ++ ascii ".check") epoch := by
  constructor <;> simp [checkOp, addNumerics, addSource]

theorem verify_checkOp (hlhs : lhs ∈ s.state.values) (hrhs : rhs ∈ s.state.values) :
    verifyCheckOp (checkOp source path epoch order lhs rhs) s = .ok { s with
      pendingCheck := some (checkOp source path epoch order lhs rhs)
      state := { s.state with order := some s.scope.length } } := by
  let op := checkOp source path epoch order lhs rhs
  have hattributes : attrsAre op.attributes
      (sourceAttributes ++ numericAttributes ++ ["obligations", "evidence", "failure"]) = true := by
    dsimp only [op, checkOp]
    refine attrsAre_set (by simp [sourceAttributes]) (attrsAre_set (by simp) (attrsAre_set (by simp)
      (attrsAre_set (by simp) (attrsAre_addNumerics ?_ ?_))))
    · exact fun x hx => List.mem_append_left _ (List.mem_append_right _ hx)
    · unfold addSource
      exact attrsAre_set (by simp [sourceAttributes]) (attrsAre_set (by simp [sourceAttributes])
        (attrsAre_set (by simp [sourceAttributes]) attrsAre_nil))
  have hoperands := verify_gemmOperands op (numericsValid_of numeric_checkOp) rfl hlhs hrhs
  have hobligations : verifyObligations op .checkGemm = .ok () := by
    unfold verifyObligations
    simp [op, checkOp, literalAttr, textIs]
  change verifyCheckOp op s = _
  unfold verifyCheckOp
  rw [hoperands, ok_bind, hobligations, ok_bind, require_bind]
  · rw [Op.attrsAre, require_bind hattributes]
    rfl
  · simp [op, checkOp, literalAttr, textIs]

theorem verify_gemmOp {lhsShape rhsShape : Shape}
    (hpending : ∃ path' epoch' order', s.pendingCheck =
      some (checkOp source path' epoch' order' lhs rhs)) (hlhs : lhs ∈ s.state.values)
    (hrhs : rhs ∈ s.state.values) (hlhsType : s.scope.type lhs = some (tensor lhsShape))
    (hrhsType : s.scope.type rhs = some (tensor rhsShape))
    (hcontraction : lhsShape.2.isNone || rhsShape.1.isNone || lhsShape.2 == rhsShape.1)
    (hresult : 0 < source.result) (hnew : source.result ∉ s.ids)
    (hproduct : extentProduct (lhsShape.1, rhsShape.2) = .ok ()) :
    verifyGemmOp (gemmOp source path epoch order lhs rhs (lhsShape.1, rhsShape.2)) s = .ok { s with
      ids := source.result :: s.ids
      pendingCheck := none
      state := { s.state with values := s.scope.length :: s.state.values } } := by
  obtain ⟨path', epoch', order', hpending⟩ := hpending
  let op := gemmOp source path epoch order lhs rhs (lhsShape.1, rhsShape.2)
  have hattributes : attrsAre op.attributes
      (sourceAttributes ++ numericAttributes ++ ["value_id", "semantics"]) = true := by
    refine attrsAre_addSource (by simp) (attrsAre_set (by simp) (attrsAre_set (by simp)
      (attrsAre_addNumerics ?_ attrsAre_nil)))
    exact fun x hx => List.mem_append_left _ (List.mem_append_right _ hx)
  have hoperands := verify_gemmOperands op (numericsValid_of numeric_gemmOp) rfl hlhs hrhs
  have hvalue := verify_value (s := s) op 1 (by simp [op, gemmOp, addSource]) hresult hnew rfl rfl
  have hprofile : (checkOp source path' epoch' order' lhs rhs).attributes.get "numerical_profile" =
      op.attributes.get "numerical_profile" := by
    rw [numeric_checkOp "numerical_profile" (by simp [numericAttributes]),
      numeric_gemmOp "numerical_profile" (by simp [numericAttributes])]
  have hshape : verifyGemmShape op s.scope = .ok () := by
    unfold verifyGemmShape
    have htypes : (op.operands.drop 1).map s.scope.type =
        [some (tensor lhsShape), some (tensor rhsShape)] := by
      rw [← hlhsType, ← hrhsType]
      rfl
    rw [htypes]
    show (require _ _ >>= fun _ => extentProduct (lhsShape.1, rhsShape.2)) = .ok ()
    rw [require_bind, hproduct]
    simpa using hcontraction
  change verifyGemmOp op s = _
  unfold verifyGemmOp
  rw [hoperands, ok_bind, hvalue, ok_bind, require_bind, hshape, ok_bind]
  · rw [Op.attrsAre, require_bind hattributes]
    rfl
  · simp only [hpending, hprofile]
    simp [op, gemmOp, checkOp, addSource, literalAttr, textIs]

theorem verify_publishOp {value : Value} (hpos : 0 < source.resource)
    (hresource : s.state.resources source.resource = some resource)
    (hdescriptor : s.scope.type resource = some .descriptor) (hvalue : value ∈ s.state.values)
    (hepoch : epoch = s.state.epoch) :
    verifyPublishOp (publishOp source path epoch order resource value) path s = .ok { s with
      state := { s.state with epoch := path, order := some s.scope.length } } := by
  let op := publishOp source path epoch order resource value
  have hattributes : attrsAre op.attributes
      (sourceAttributes ++ ["resource_id", "storage_view", "obligations", "evidence", "failure",
        "input_epoch", "output_epoch"]) = true := by
    dsimp only [op, publishOp]
    refine attrsAre_addResource (by simp) (.inr (by simp)) (attrsAre_addSource (by simp) ?_)
    exact attrsAre_set (by simp) (attrsAre_set (by simp) (attrsAre_set (by simp) attrsAre_nil))
  obtain ⟨hres, hobligations⟩ := verify_resource op .publish rfl rfl (by simp [op, publishOp]) hpos
    hresource hdescriptor
  change verifyPublishOp op path s = _
  unfold verifyPublishOp
  rw [hres, ok_bind, hobligations, ok_bind, require_bind, require_bind]
  · rw [Op.attrsAre, require_bind hattributes]
    rfl
  · simp [op, publishOp, hvalue, hepoch, addResource, addSource, textIs, literalAttr]
  · simp [op, publishOp]

theorem verify_observeOp (hpos : 0 < source.resource)
    (hresource : s.state.resources source.resource = some resource)
    (hdescriptor : s.scope.type resource = some .descriptor) :
    verifyObserveOp (observeOp source path epoch order resource) s = .ok { s with
      state := { s.state with order := some s.scope.length } } := by
  have hattributes : attrsAre (observeOp source path epoch order resource).attributes
      (sourceAttributes ++ ["resource_id", "obligations", "evidence", "failure", "semantics"]) =
        true := by
    refine attrsAre_addResource (by simp) (.inl rfl) (attrsAre_addSource (by simp) ?_)
    exact attrsAre_set (by simp) (attrsAre_set (by simp) attrsAre_nil)
  obtain ⟨hres, hobligations⟩ := verify_resource (observeOp source path epoch order
    resource) .observe rfl rfl (by simp [observeOp]) hpos hresource hdescriptor
  unfold verifyObserveOp
  rw [hres, ok_bind, hobligations, ok_bind, require_bind, require_bind]
  · rw [Op.attrsAre, require_bind hattributes]
    rfl
  · simp [observeOp, addResource, addSource, textIs, literalAttr]
  · simp [observeOp]

variable {state : BuildState} {condition : Value} {thenEpoch elseEpoch : Text}

theorem framed_shapeIfOp :
    Framed (shapeIfOp source path state condition thenEpoch elseEpoch) source path
      (path ++ ascii ".join") := framed_addSource

theorem verify_shapeIfCondition (hcondition : s.scope.type condition = some (.integer 1))
    (hepoch : state.epoch = s.state.epoch) :
    verifyCondition (shapeIfOp source path state condition thenEpoch elseEpoch) s = .ok () := by
  unfold verifyCondition
  rw [require_eq_ok]
  simp [shapeIfOp, hcondition, hepoch, addSource, textIs]

variable {branch : BlockState}

theorem joinBranch_then (hepoch : branch.state.epoch = thenEpoch) :
    joinBranch (shapeIfOp source path state condition thenEpoch elseEpoch) "then_epoch" s branch =
      .ok { s with ids := branch.ids, frontiers := branch.frontiers } := by
  unfold joinBranch
  rw [require_bind]
  · rfl
  · simp [shapeIfOp, hepoch, addSource, textIs]

theorem joinBranch_else (hepoch : branch.state.epoch = elseEpoch) :
    joinBranch (shapeIfOp source path state condition thenEpoch elseEpoch) "else_epoch" s branch =
      .ok { s with ids := branch.ids, frontiers := branch.frontiers } := by
  unfold joinBranch
  rw [require_bind]
  · rfl
  · simp [shapeIfOp, hepoch, addSource, textIs]

theorem verify_join (hnew : path ++ ascii ".join" ∉ s.frontiers) :
    verifyJoin (shapeIfOp source path state condition thenEpoch elseEpoch) path s = .ok { s with
      frontiers := (path ++ ascii ".join") :: s.frontiers
      state := { s.state with epoch := path ++ ascii ".join", order := some s.scope.length } } := by
  have hattributes : attrsAre
      (shapeIfOp source path state condition thenEpoch elseEpoch).attributes
      (sourceAttributes ++ ["input_epoch", "then_epoch", "else_epoch", "output_epoch"]) = true := by
    refine attrsAre_addSource (by simp) ?_
    exact attrsAre_set (by simp) (attrsAre_set (by simp) (attrsAre_set (by simp)
      (attrsAre_set (by simp) attrsAre_nil)))
  unfold verifyJoin
  rw [require_bind, require_bind]
  · rw [Op.attrsAre, require_bind hattributes]
    rfl
  · simpa using hnew
  · simp [shapeIfOp, addSource, textIs]

end Matcore.ClosedRegion
