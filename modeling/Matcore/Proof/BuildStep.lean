import Matcore.Proof.BuiltOps
import Matcore.Proof.FrontierPath

/-!
# The builder and the verifier of a block

`Tracks` relates what `verifyBody`, `buildBody` and `verifyBlock` know behind the same operations.
`Piece` says that operations pass both verifiers. The operations that `buildBody` creates for one
dimension and for one operation are pieces that keep `Tracks`.
-/

namespace Matcore.ClosedRegion

open Except (ok_bind)
open Mlir.Scope (type_append definition_append lt_length type_result)
open Mlir.Ops (ofList)
open List (append_nil append_assoc mem_cons)
open Mlir (Value ascii)
open Option (bind_eq_bind bind_some)

/-- The generic verification of operations that a block goes on behind. -/
def innerWellFormed (scope : Definitions) : Ops → Prop
  | .nil => True
  | .cons op regions rest =>
    op.name.isTerminator = false ∧ (∀ results, opWellFormed results scope op regions = true) ∧
      regionsWellFormed scope regions = true ∧ innerWellFormed (scope ++ op.definitions) rest

/-- Operations that take the block checks from one state to another. -/
structure Piece (files : List SourceFile) (branch : Bool) (depth : ℕ) (ops : Ops)
    (s s' : BlockState) : Prop where
  verified : verifyOps files branch depth ops s = .ok s'
  inner : innerWellFormed s.scope ops

variable {files : List SourceFile} {branch : Bool} {depth : ℕ} {ops ops' : Ops}
variable {s s' s'' : BlockState}

theorem scope_verifyOps (h : verifyOps files branch depth ops s = .ok s') :
    s'.scope = s.scope ++ ops.definitions := by
  induction ops using Mlir.Ops.induction generalizing s with
  | nil =>
    cases h
    exact (append_nil _).symm
  | cons op regions rest _ ih =>
    unfold verifyOps at h
    replace h := Except.then_eq_ok h
    obtain ⟨after, -, h⟩ := Except.bind_eq_ok h
    rw [ih h, Mlir.Ops.definitions, append_assoc]

theorem verifyOps_append (ops ops' : Ops) (s : BlockState) :
    verifyOps files branch depth (ops.append ops') s =
      verifyOps files branch depth ops s >>= verifyOps files branch depth ops' := by
  induction ops using Mlir.Ops.induction generalizing s with
  | nil => rfl
  | cons op regions rest _ ih =>
    rw [Mlir.Ops.append, verifyOps, verifyOps]
    simp only [ih, bind_assoc]

variable {scope : Definitions}

theorem innerWellFormed_append (h : innerWellFormed scope ops)
    (h' : innerWellFormed (scope ++ ops.definitions) ops') :
    innerWellFormed scope (ops.append ops') := by
  induction ops using Mlir.Ops.induction generalizing scope with
  | nil => simpa [Mlir.Ops.definitions, Mlir.Ops.append] using h'
  | cons op regions rest _ ih =>
    obtain ⟨hname, hop, hregions, hrest⟩ := h
    refine ⟨hname, hop, hregions, ih hrest ?_⟩
    rwa [Mlir.Ops.definitions, ← append_assoc] at h'

theorem Piece.append (h : Piece files branch depth ops s s')
    (h' : Piece files branch depth ops' s' s'') :
    Piece files branch depth (ops.append ops') s s'' where
  verified := by
    rw [verifyOps_append, h.verified]
    exact h'.verified
  inner := innerWellFormed_append h.inner (scope_verifyOps h.verified ▸ h'.inner)

theorem piece_nil : Piece files branch depth .nil s s := ⟨rfl, trivial⟩

variable {op : Op}

theorem opsWellFormed_append {results : Option (List Ty)} (h : innerWellFormed scope ops)
    (hop : opsWellFormed results (scope ++ ops.definitions) (.cons op .nil .nil) = true) :
    opsWellFormed results scope (ops.append (.cons op .nil .nil)) = true := by
  induction ops using Mlir.Ops.induction generalizing scope with
  | nil => simpa [Mlir.Ops.definitions, Mlir.Ops.append] using hop
  | cons op' regions rest _ ih =>
    obtain ⟨hname, hop', hregions, hrest⟩ := h
    have htail := ih hrest (by rwa [Mlir.Ops.definitions, ← append_assoc] at hop)
    rw [Mlir.Ops.append]
    cases hcase : rest.append (.cons op .nil .nil) with
    | nil => cases rest <;> simp [Mlir.Ops.append] at hcase
    | cons op'' regions'' rest'' =>
      rw [opsWellFormed, hname, hop' results, hregions, ← hcase, htail]
      · rfl
      · nofun

theorem piece_op (depth : ℕ) {after : BlockState} (hrunning : s.ended = false)
    (hname : op.name ≠ .shapeIf) (hterminator : op.name.isTerminator = false)
    (hwell : ∀ results, opWellFormed results s.scope op .nil = true)
    (h : verifyOp files branch op .nil s = .ok after) :
    Piece files branch depth (.ofList [op]) s { after with scope := s.scope ++ op.definitions } where
  verified := by
    rw [ofList, ofList, verifyOps, require_bind (by rw [hrunning]; rfl),
      if_neg hname, h, ok_bind]
    rfl
  inner := ⟨hterminator, hwell, rfl, trivial⟩

theorem ofList_append (l l' : List Op) :
    ofList (l ++ l') = (ofList l).append (.ofList l') := by
  induction l with
  | nil => rfl
  | cons op l ih => rw [List.cons_append, ofList, ih]; rfl

/-- The same values under the same names, and the same token and epoch. -/
structure Tracks (ctx : Context) (values : Values) (state : BuildState) (s : BlockState) :
    Prop where
  next : state.next = s.scope.length
  order : s.state.order = some state.order
  token : s.scope.type state.order = some .order
  epoch : state.epoch = s.state.epoch
  pending : s.pendingCheck = none
  running : s.ended = false
  resource : ∀ id ∈ ctx.resources, 0 < id ∧ ∃ v, state.resources id = some v ∧
    s.state.resources id = some v ∧ s.scope.type v = some .descriptor
  parameter : ∀ id ∈ ctx.parameters, ∃ v, state.parameters id = some v ∧
    s.scope[v]? = some ⟨.integer 64, none⟩
  value : ∀ id shape, values.scope id = some shape → ∃ v, state.values id = some (v, shape) ∧
    v ∈ s.state.values ∧ s.scope.type v = some (tensor shape)
  ids : ∀ id ∈ s.ids, id ∈ values.all

variable {ctx : Context} {values : Values} {state : BuildState} {source : Operation} {path : Text}

section

variable (ht : Tracks ctx values state s)

include ht

theorem Tracks.extend (more : Definitions) :
    Tracks ctx values (state.advance more.length) { s with scope := s.scope ++ more } where
  next := by simp [BuildState.advance, ht.next]
  order := ht.order
  token := type_append ht.token
  epoch := ht.epoch
  pending := ht.pending
  running := ht.running
  resource id hid := by
    obtain ⟨hpos, v, hbuild, hverify, htype⟩ := ht.resource id hid
    exact ⟨hpos, v, hbuild, hverify, type_append htype⟩
  parameter id hid := by
    obtain ⟨v, hbuild, hdefinition⟩ := ht.parameter id hid
    exact ⟨v, hbuild, definition_append hdefinition⟩
  value id shape hid := by
    obtain ⟨v, hbuild, hmem, htype⟩ := ht.value id shape hid
    exact ⟨v, hbuild, hmem, type_append htype⟩
  ids := ht.ids

/-- The scope grows behind an operation with a new token and a new frontier. -/
theorem Tracks.step (more : Definitions) (v : Value)
    (frontiers : List Text) (htoken : Mlir.Scope.type (s.scope ++ more) v = some .order) :
    Tracks ctx values { state.advance more.length with order := v }
      { s with
        scope := s.scope ++ more
        frontiers := frontiers
        state := { s.state with order := some v } } :=
  { ht.extend more with order := rfl, token := htoken }

theorem Tracks.setEpoch (epoch : Text) :
    Tracks ctx values { state with epoch := epoch }
      { s with state := { s.state with epoch := epoch } } :=
  { ht with epoch := rfl }

theorem Tracks.setFrontiers (frontiers : List Text) :
    Tracks ctx values state { s with frontiers := frontiers } := { ht with }

theorem Tracks.setChecked :
    Tracks ctx values state { s with pendingCheck := none } := { ht with pending := rfl }

variable {v : Value}

theorem Tracks.define (id : Id) {shape : Shape} (htype : s.scope.type v = some (tensor shape)) :
    Tracks ctx (values.define id shape)
      { state with values := Function.update state.values id (some (v, shape)) }
      { s with
        ids := id :: s.ids
        state := { s.state with values := v :: s.state.values } } where
  next := ht.next
  order := ht.order
  token := ht.token
  epoch := ht.epoch
  pending := ht.pending
  running := ht.running
  resource := ht.resource
  parameter := ht.parameter
  value id' shape' hid := by
    by_cases hne : id' = id
    · subst hne
      simp only [Values.define, Function.update_self, Option.some.injEq] at hid
      subst hid
      exact ⟨v, Function.update_self .., List.mem_cons_self, htype⟩
    · simp only [Values.define, Function.update_of_ne hne] at hid
      obtain ⟨v', hbuild, hmem, htype'⟩ := ht.value id' shape' hid
      exact ⟨v', by simpa [Function.update_of_ne hne] using hbuild, List.mem_cons_of_mem _ hmem, htype'⟩
  ids id' hid := by
    rcases mem_cons.1 hid with rfl | hid
    · exact List.mem_cons_self
    · exact List.mem_cons_of_mem _ (ht.ids id' hid)

end

/-- A value that holds an extent. -/
inductive Holds (scope : Definitions) (v : Value) : Extent → Prop where
  | literal {n : ℕ} (definition : scope[v]? = some ⟨.integer 64, some (constantOp n)⟩) :
      Holds scope v (some n)
  | parameter (definition : scope[v]? = some ⟨.integer 64, none⟩) : Holds scope v none
  | rows {value : Value} {shape : Shape}
      (definition : scope[v]? = some ⟨.integer 64, some (dimOp value 0)⟩)
      (type : scope.type value = some (tensor shape)) : Holds scope v shape.1
  | columns {value : Value} {shape : Shape}
      (definition : scope[v]? = some ⟨.integer 64, some (dimOp value 1)⟩)
      (type : scope.type value = some (tensor shape)) : Holds scope v shape.2

variable {extent : Extent}

theorem Holds.grow {more : Definitions} (h : Holds scope v extent) :
    Holds (scope ++ more) v extent := by
  cases h with
  | literal definition => exact .literal (definition_append definition)
  | parameter definition => exact .parameter (definition_append definition)
  | rows definition type =>
    exact .rows (definition_append definition) (type_append type)
  | columns definition type =>
    exact .columns (definition_append definition) (type_append type)

theorem Holds.type (h : Holds scope v extent) : scope.type v = some (.integer 64) := by
  unfold Mlir.Scope.type
  cases h with
  | literal definition | parameter definition | rows definition | columns definition =>
    rw [definition]
    rfl

theorem Holds.known (h : Holds scope v extent) : knownExtent scope v = extent.map (↑) := by
  unfold knownExtent Mlir.Scope.definingOp
  cases h with
  | @literal n definition =>
    have hne : ¬ (n : ℤ) = kDynamic := by unfold kDynamic; omega
    rw [definition]
    simp [constantOp, get_single, i64Attr, hne]
  | parameter definition =>
    rw [definition]
    rfl
  | rows definition type | columns definition type =>
    rw [definition]
    simp [dimOp, get_single, type, tensor]

/-- **The operations of a dimension** are a piece, behind which a value holds the extent. -/
theorem dimension_built (files : List SourceFile) (branch : Bool) (depth : ℕ)
    (ht : Tracks ctx values state s) {dim : Dimension}
    (h : dimension dim ctx.parameters values.scope = .ok extent) :
    ∃ (ops : List Op) (v : Value) (more : Definitions),
      buildDimension dim state = some (ops, v, state.advance more.length) ∧
      dimensionExtent dim state = some extent ∧
      Piece files branch depth (.ofList ops) s { s with scope := s.scope ++ more } ∧
      Holds (s.scope ++ more) v extent := by
  unfold dimension at h
  unfold buildDimension dimensionExtent
  have hvalue : ∀ (axis : ℕ) (shape : Shape), axis ≤ 1 → values.scope dim.reference = some shape →
      ∃ v, state.values dim.reference = some (v, shape) ∧ s.scope.type v = some (tensor shape) ∧
        Piece files branch depth (.ofList [dimOp v axis]) s
          { s with scope := s.scope ++ (dimOp v axis).definitions } := by
    intro axis shape haxis hshape
    obtain ⟨v, hbuild, hmem, htype⟩ := ht.value _ _ hshape
    refine ⟨v, hbuild, htype, piece_op depth ht.running (by simp [dimOp]) rfl (fun results => ?_)
      (verify_dim ht.pending hmem haxis)⟩
    have hlt := lt_length htype
    simp [opWellFormed, dimOp, hlt]
  cases hkind : dim.kind <;> simp only [hkind] at h ⊢
  · split at h
    · cases h
    · cases h
      refine ⟨_, _, (constantOp dim.literal).definitions, rfl, rfl,
        piece_op depth ht.running (by simp [constantOp]) rfl (fun results => ?_)
          (verify_constant ht.pending), ?_⟩
      · simp [opWellFormed, constantOp, get_single, i64Attr]
      · rw [ht.next]
        exact .literal (by simp [constantOp, Mlir.Op.definitions])
  · split at h
    · cases h
    · rename_i hmem
      cases h
      rw [not_or, not_not, not_not] at hmem
      obtain ⟨v, hbuild, hdefinition⟩ := ht.parameter _ hmem.2
      refine ⟨[], v, [], by rw [hbuild]; rfl, rfl, ?_, ?_⟩
      · rw [append_nil]
        exact piece_nil
      · rw [append_nil]
        exact .parameter hdefinition
  · split at h
    · rename_i shape _ hshape
      cases h
      obtain ⟨v, hbuild, htype, hpiece⟩ := hvalue 0 shape (by decide) hshape
      refine ⟨[dimOp v 0], _, _, by rw [hbuild]; rfl, by rw [hbuild]; rfl, hpiece, ?_⟩
      rw [ht.next]
      exact .rows (by simp [dimOp, Mlir.Op.definitions]) (type_append htype)
    · cases h
  · split at h
    · rename_i shape _ hshape
      cases h
      obtain ⟨v, hbuild, htype, hpiece⟩ := hvalue 1 shape (by decide) hshape
      refine ⟨[dimOp v 1], _, _, by rw [hbuild]; rfl, by rw [hbuild]; rfl, hpiece, ?_⟩
      rw [ht.next]
      exact .columns (by simp [dimOp, Mlir.Op.definitions]) (type_append htype)
    · cases h

/-- The operations built for one operation are a piece that keeps `Tracks`. -/
def Built (ctx : Context) (branch : Bool) (depth : ℕ) (after : Values) (path : Text)
    (s : BlockState) (built : Option (List Op × BuildState)) : Prop :=
  ∃ (ops : List Op) (state' : BuildState) (s' : BlockState), built = some (ops, state') ∧
    Piece ctx.files branch depth (.ofList ops) s s' ∧ Tracks ctx after state' s' ∧
    ∀ f ∈ s'.frontiers, f ∈ s.frontiers ∨ Under path f

theorem opWellFormed_effect (h : op.operands.Forall fun v => ∃ type, scope.type v = some type)
    (hname : op.name = .read ∨ op.name = .checkGemm ∨ op.name = .gemm ∨ op.name = .publish ∨
      op.name = .observe) (results : Option (List Ty)) :
    opWellFormed results scope op .nil = true := by
  unfold opWellFormed
  rw [Bool.and_eq_true, List.all_eq_true]
  refine ⟨fun v hv => ?_, ?_⟩
  · obtain ⟨type, htype⟩ := List.forall_iff_forall_mem.1 h v hv
    exact decide_eq_true (lt_length htype)
  · rcases hname with h | h | h | h | h <;> rw [h]

theorem piece_effect (depth : ℕ) {check : Text × BlockState → Except String BlockState}
    {after : BlockState} {order : Value} {epoch : Text} (hframed : Framed op source path epoch)
    (hsited : source.Sited files) (hoperand : ∃ rest, op.operands = order :: rest)
    (horder : s.state.order = some order) (hpending : s.pendingCheck = none ∨ op.name = .gemm)
    (hpath : path ≠ []) (hnew : path ∉ s.frontiers)
    (hepoch : op.name = .publish ∨ op.name = .shapeIf ∨ epoch = s.state.epoch)
    (hverify : verifyOp files branch op .nil s = verifyEffect files op .nil s >>= check)
    (hcheck : check (path, { s with frontiers := path :: s.frontiers }) = .ok after)
    (hrunning : s.ended = false)
    (hoperands : op.operands.Forall fun v => ∃ type, s.scope.type v = some type)
    (hname : op.name = .read ∨ op.name = .checkGemm ∨ op.name = .gemm ∨ op.name = .publish ∨
      op.name = .observe) :
    Piece files branch depth (.ofList [op]) s
      { after with scope := s.scope ++ op.definitions } := by
  have hop : verifyOp files branch op .nil s = .ok after := by
    rw [hverify, verify_effect hframed hsited hoperand horder hpending hpath hnew (.inr rfl) hepoch,
      ok_bind, hcheck]
  refine piece_op depth hrunning ?_ ?_ (opWellFormed_effect hoperands hname) hop
  all_goals rcases hname with h | h | h | h | h <;> rw [h] <;> decide

section

variable (ht : Tracks ctx values state s) (hsited : source.Sited ctx.files)

include ht hsited

theorem read_built {rows columns : Extent} (hresource : source.resource ∈ ctx.resources)
    (hrows : dimension source.rows ctx.parameters values.scope = .ok rows)
    (hcolumns : dimension source.columns ctx.parameters values.scope = .ok columns)
    (hfresh : Fresh source (rows, columns) values) (hpath : path ≠ []) (hnew : path ∉ s.frontiers) :
    Built ctx branch depth (values.define source.result (rows, columns)) path s
      (buildRead source path state) := by
  obtain ⟨rowOps, rowValue, rowScope, hbuildRow, hrowExtent, hrowPiece, hrowHolds⟩ :=
    dimension_built ctx.files branch depth ht hrows
  have hrow := ht.extend rowScope
  obtain ⟨columnOps, columnValue, columnScope, hbuildColumn, hcolumnExtent, hcolumnPiece,
    hcolumnHolds⟩ := dimension_built ctx.files branch depth hrow hcolumns
  have hcolumn := hrow.extend columnScope
  have hcolumnExtent : dimensionExtent source.columns state = some columns := hcolumnExtent
  obtain ⟨hpos, resource, hbuildResource, hverifyResource, hdescriptor⟩ :=
    hcolumn.resource _ hresource
  have hbuildResource : state.resources source.resource = some resource := hbuildResource
  -- the read itself
  set t : BlockState := { s with scope := s.scope ++ rowScope ++ columnScope }
  set op : Op := readOp source path state.epoch state.order resource rowValue columnValue
    (rows, columns)
  have hids : source.result ∉ t.ids := fun h => hfresh.unused (ht.ids _ h)
  have hpiece : Piece ctx.files branch depth (.ofList [op]) t _ := piece_effect depth
    framed_addResource hsited ⟨_, rfl⟩ ht.order (.inl ht.pending) hpath hnew (.inr (.inr ht.epoch)) rfl
    (verify_readOp hpos hverifyResource hdescriptor hrowHolds.grow.type hcolumnHolds.type
      hrowHolds.grow.known hcolumnHolds.known hfresh.pos hids hfresh.product) ht.running
    ⟨⟨_, hcolumn.token⟩, ⟨_, hdescriptor⟩, ⟨_, hrowHolds.grow.type⟩, _, hcolumnHolds.type⟩ (.inl rfl)
  have hscope : Mlir.Scope.type (t.scope ++ op.definitions) (t.scope.length + 0) =
      some (tensor (rows, columns)) := type_result _ _ rfl
  have htracks := (hcolumn.step op.definitions (t.scope.length + 1) (path :: t.frontiers)
    (type_result _ _ rfl)).define source.result hscope
  have hnext : ((state.advance rowScope.length).advance columnScope.length).next = t.scope.length :=
    hcolumn.next
  rw [← hnext] at htracks hpiece
  refine ⟨rowOps ++ (columnOps ++ [op]), _, _, ?_, ?_, htracks, ?_⟩
  · unfold buildRead
    rw [hbuildRow]
    simp only [bind_eq_bind, bind_some, hbuildColumn, hrowExtent, hcolumnExtent,
      hbuildResource]
    rfl
  · rw [ofList_append, ofList_append]
    exact hrowPiece.append (hcolumnPiece.append hpiece)
  · intro f hf
    exact mem_or_under hf

theorem gemm_built {lhs rhs : Shape} (hlhs : values.scope source.lhs = some lhs)
    (hrhs : values.scope source.rhs = some rhs)
    (hcontraction : lhs.2.isNone || rhs.1.isNone || lhs.2 == rhs.1)
    (hfresh : Fresh source (lhs.1, rhs.2) values) (hpath : path ≠ []) (hnew : path ∉ s.frontiers)
    (hcheckNew : path ++ ascii ".check" ∉ s.frontiers) :
    Built ctx branch depth (values.define source.result (lhs.1, rhs.2)) path s
      (buildGemm source path state) := by
  obtain ⟨lhsValue, hbuildLhs, hlhsMem, hlhsType⟩ := ht.value _ _ hlhs
  obtain ⟨rhsValue, hbuildRhs, hrhsMem, hrhsType⟩ := ht.value _ _ hrhs
  -- the check
  set check : Op := checkOp source path state.epoch state.order lhsValue rhsValue
  have hcheckPiece : Piece ctx.files branch depth (.ofList [check]) s _ := piece_effect depth
    framed_checkOp hsited ⟨_, rfl⟩ ht.order (.inl ht.pending) (by simp [hpath]) hcheckNew
    (.inr (.inr ht.epoch)) rfl (verify_checkOp hlhsMem hrhsMem) ht.running
    ⟨⟨_, ht.token⟩, ⟨_, hlhsType⟩, _, hrhsType⟩ (.inr (.inl rfl))
  have hchecked := ht.step check.definitions s.scope.length
    ((path ++ ascii ".check") :: s.frontiers) (type_result _ _ (i := 0) rfl)
  -- its GEMM, while the check is pending
  set t : BlockState := { s with
    scope := s.scope ++ check.definitions
    frontiers := (path ++ ascii ".check") :: s.frontiers
    state := { s.state with order := some s.scope.length }
    pendingCheck := some check }
  set op : Op := gemmOp source path state.epoch s.scope.length lhsValue rhsValue
    (lhs.1, rhs.2)
  have hpathNew : path ∉ t.frontiers := by
    intro h
    rcases mem_cons.1 h with h | h
    · have := congrArg List.length h
      simp [check_word] at this
    · exact hnew h
  have hids : source.result ∉ t.ids := fun h => hfresh.unused (ht.ids _ h)
  have hpiece : Piece ctx.files branch depth (.ofList [op]) t _ := piece_effect depth
    framed_addSource hsited ⟨_, rfl⟩ rfl (.inr rfl) hpath hpathNew (.inr (.inr ht.epoch)) rfl
    (verify_gemmOp ⟨_, _, _, rfl⟩ hlhsMem hrhsMem (type_append hlhsType)
      (type_append hrhsType) hcontraction hfresh.pos hids hfresh.product) ht.running
    ⟨⟨_, hchecked.token⟩, ⟨_, type_append hlhsType⟩, _, type_append hrhsType⟩
    (.inr (.inr (.inl rfl)))
  have hscope : Mlir.Scope.type (t.scope ++ op.definitions) (t.scope.length + 0) =
      some (tensor (lhs.1, rhs.2)) := type_result _ _ rfl
  have htracks := ((hchecked.extend op.definitions).setFrontiers
    (path :: t.frontiers)).setChecked.define source.result hscope
  have hnext : (state.advance 1).next = t.scope.length := hchecked.next
  have hnext' : state.next = s.scope.length := ht.next
  refine ⟨[check, op], _, _, ?_, hcheckPiece.append hpiece, htracks, ?_⟩
  · unfold buildGemm
    have hlength : t.scope.length + 0 = state.next + 1 := hnext.symm
    have hgemm : gemmOp source path state.epoch state.next lhsValue rhsValue (lhs.1, rhs.2) = op := by
      rw [hnext']
    simp only [bind_eq_bind, bind_some, hbuildLhs, hbuildRhs, hgemm]
    rw [hlength, ← hnext']
    rfl
  · intro f hf
    rcases mem_cons.1 hf with rfl | hf
    · exact .inr (under_refl _)
    · rcases mem_cons.1 hf with rfl | hf
      · exact .inr (check_word ▸ under_append path _)
      · exact .inl hf

theorem publish_built {value : Shape} (hresource : source.resource ∈ ctx.resources)
    (hvalue : values.scope source.lhs = some value) (hpath : path ≠ []) (hnew : path ∉ s.frontiers) :
    Built ctx branch depth values path s (buildPublish source path state) := by
  obtain ⟨v, hbuildValue, hmem, htype⟩ := ht.value _ _ hvalue
  obtain ⟨hpos, resource, hbuildResource, hverifyResource, hdescriptor⟩ := ht.resource _ hresource
  set op : Op := publishOp source path state.epoch state.order resource v
  have hpiece : Piece ctx.files branch depth (.ofList [op]) s _ := piece_effect depth
    framed_addResource hsited ⟨_, rfl⟩ ht.order (.inl ht.pending) hpath hnew (.inl rfl) rfl
    (verify_publishOp hpos hverifyResource hdescriptor hmem ht.epoch) ht.running
    ⟨⟨_, ht.token⟩, ⟨_, hdescriptor⟩, _, htype⟩ (.inr (.inr (.inr (.inl rfl))))
  have htracks := (ht.step op.definitions s.scope.length (path :: s.frontiers)
    (type_result _ _ (i := 0) rfl)).setEpoch path
  refine ⟨[op], _, _, ?_, hpiece, htracks, ?_⟩
  · unfold buildPublish
    simp only [bind_eq_bind, bind_some, hbuildResource, hbuildValue, ← ht.next]
    rfl
  · intro f hf
    exact mem_or_under hf

theorem observe_built (hresource : source.resource ∈ ctx.resources) (hpath : path ≠ [])
    (hnew : path ∉ s.frontiers) :
    Built ctx branch depth values path s (buildObserve source path state) := by
  obtain ⟨hpos, resource, hbuildResource, hverifyResource, hdescriptor⟩ := ht.resource _ hresource
  set op : Op := observeOp source path state.epoch state.order resource
  have hpiece : Piece ctx.files branch depth (.ofList [op]) s _ := piece_effect depth
    framed_addResource hsited ⟨_, rfl⟩ ht.order (.inl ht.pending) hpath hnew (.inr (.inr ht.epoch)) rfl
    (verify_observeOp hpos hverifyResource hdescriptor) ht.running
    ⟨⟨_, ht.token⟩, _, hdescriptor⟩ (.inr (.inr (.inr (.inr rfl))))
  have htracks := ht.step op.definitions s.scope.length (path :: s.frontiers)
    (type_result _ _ (i := 0) rfl)
  refine ⟨[op], _, _, ?_, hpiece, htracks, ?_⟩
  · unfold buildObserve
    simp only [bind_eq_bind, bind_some, hbuildResource, ← ht.next]
    rfl
  · intro f hf
    exact mem_or_under hf

end

end Matcore.ClosedRegion
