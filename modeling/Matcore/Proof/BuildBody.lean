import Matcore.Proof.BuildStep

/-!
# Built bodies pass their checks

The operations `buildBody` creates for an accepted body are a piece that keeps `Tracks`.
-/

namespace Matcore.ClosedRegion

open Except (ok_bind)
open Mlir.Scope (lt_length type type_result)
open Option (bind_eq_bind bind_some map_some)
open Mlir (Value ascii argumentScope)

variable {ctx : Context} {depth : ℕ} {values after : Values} {state state' : BuildState}
variable {s s' : BlockState} {source : Operation} {path : Text} {files : List SourceFile}

/-- A terminator of the kind of its block. -/
def terminator (branch : Bool) (order : Value) : Op := if branch then yieldOp order else returnOp order

theorem terminator_verified {branch : Bool} (ht : Tracks ctx values state s) :
    verifyOps files branch depth (.ofList [terminator branch state.order]) s =
      .ok { s with ended := true } := by
  have hop : verifyOp files branch (terminator branch state.order) .nil s =
      .ok { s with ended := true } := by
    cases branch
    all_goals
      show verifyTerminator _ _ _ s = _
      unfold verifyTerminator
      rw [require_bind]
      · rfl
      · simp [terminator, yieldOp, returnOp, ht.pending, ht.order]
  have hname : (terminator branch state.order).name ≠ .shapeIf := by
    cases branch <;> simp [terminator, yieldOp, returnOp]
  have hdefinitions : (terminator branch state.order).definitions = [] := by
    cases branch <;> rfl
  rw [Mlir.Ops.ofList, Mlir.Ops.ofList, verifyOps, require_bind (by rw [ht.running]; rfl),
    if_neg hname, hop, ok_bind, hdefinitions, List.append_nil]
  rfl

theorem terminator_wellFormed {branch : Bool} {results : Option (List Ty)}
    (ht : Tracks ctx values state s) (hresults : branch = false → results = some [.order]) :
    opsWellFormed results s.scope (.cons (terminator branch state.order) .nil .nil) = true := by
  have hlt := lt_length ht.token
  cases branch
  · simp [opsWellFormed, opWellFormed, terminator, returnOp, OpName.isTerminator, hlt, ht.token,
      hresults rfl, regionsWellFormed]
  · simp [opsWellFormed, opWellFormed, terminator, yieldOp, OpName.isTerminator, hlt,
      regionsWellFormed]

theorem block_built {branch : Bool} {ops : Ops} (results : Option (List Ty))
    (hpiece : Piece files branch depth ops s s') (ht : Tracks ctx after state' s')
    (hresults : branch = false → results = some [.order]) :
    verifyOps files branch depth (ops.append (.ofList [terminator branch state'.order])) s =
        .ok { s' with ended := true } ∧
      opsWellFormed results s.scope (ops.append (.ofList [terminator branch state'.order])) =
        true := by
  constructor
  · rw [verifyOps_append, hpiece.verified]
    exact terminator_verified ht
  · refine opsWellFormed_append hpiece.inner ?_
    rw [← scope_verifyOps hpiece.verified]
    exact terminator_wellFormed ht hresults

theorem Tracks.branch (ht : Tracks ctx values state s) : Tracks ctx values state.branch s.branch := by
  have htoken : type (s.scope ++ argumentScope [.order]) s.scope.length =
      some .order := by simp [type, argumentScope]
  have hstep := ht.step (argumentScope [.order]) s.scope.length s.frontiers htoken
  rw [← ht.next] at hstep
  unfold BuildState.branch BlockState.branch
  rw [← ht.next]
  exact { hstep with pending := rfl, running := rfl }

theorem Tracks.rebind (ht : Tracks ctx values state s) {ids all : List Id} (frontiers : List Text)
    (hids : ∀ id ∈ ids, id ∈ all) :
    Tracks ctx ⟨values.scope, all⟩ state { s with ids := ids, frontiers := frontiers } :=
  { ht with ids := hids }

theorem condition_built (branch : Bool) (depth : ℕ) (ht : Tracks ctx values state s)
    {lhs rhs : Extent} (hlhs : dimension source.conditionLhs ctx.parameters values.scope = .ok lhs)
    (hrhs : dimension source.conditionRhs ctx.parameters values.scope = .ok rhs) :
    ∃ (ops : List Op) (v : Value) (more : Definitions),
      buildCondition source state = some (ops, v, state.advance more.length) ∧
      Piece ctx.files branch depth (.ofList ops) s { s with scope := s.scope ++ more } ∧
      type (s.scope ++ more) v = some (.integer 1) := by
  obtain ⟨lhsOps, lhsValue, lhsScope, hbuildLhs, -, hlhsPiece, hlhsHolds⟩ :=
    dimension_built ctx.files branch depth ht hlhs
  have hl := ht.extend lhsScope
  obtain ⟨rhsOps, rhsValue, rhsScope, hbuildRhs, -, hrhsPiece, hrhsHolds⟩ :=
    dimension_built ctx.files branch depth hl hrhs
  have hr := hl.extend rhsScope
  set t : BlockState := { s with scope := s.scope ++ lhsScope ++ rhsScope } with ht'
  set op : Op := conditionOp source lhsValue rhsValue with hop
  have hlhsType : type t.scope lhsValue = some (.integer 64) := hlhsHolds.grow.type
  have hrhsType : type t.scope rhsValue = some (.integer 64) := hrhsHolds.type
  have hwell : ∀ results, opWellFormed results t.scope op .nil = true := by
    intro results
    have hlhsLt := lt_length hlhsType
    have hrhsLt := lt_length hrhsType
    unfold opWellFormed
    rw [Bool.and_eq_true, List.all_eq_true]
    refine ⟨fun v hv => ?_, ?_⟩
    · simp only [hop, conditionOp, List.mem_cons, List.not_mem_nil, or_false] at hv
      rcases hv with rfl | rfl
      · exact decide_eq_true hlhsLt
      · exact decide_eq_true hrhsLt
    · simp [hop, conditionOp, get_single, hlhsType, hrhsType]
  have hpiece : Piece ctx.files branch depth (.ofList [op]) t
      { t with scope := t.scope ++ op.definitions } :=
    piece_op depth hr.running (by simp [hop, conditionOp]) rfl hwell
      (verify_condition hr.pending hlhsType hrhsType)
  have hnext : ((state.advance lhsScope.length).advance rhsScope.length).next = t.scope.length :=
    hr.next
  refine ⟨lhsOps ++ (rhsOps ++ [op]), t.scope.length, lhsScope ++ rhsScope ++ op.definitions, ?_,
    ?_, ?_⟩
  · unfold buildCondition
    rw [hbuildLhs]
    simp only [bind_eq_bind, bind_some, hbuildRhs, hnext]
    simp only [BuildState.advance, List.length_append, Nat.add_assoc]
    rfl
  · rw [ofList_append, ofList_append, ← List.append_assoc, ← List.append_assoc]
    exact hlhsPiece.append (hrhsPiece.append hpiece)
  · rw [← List.append_assoc, ← List.append_assoc]
    exact type_result t.scope op (i := 0) rfl

theorem shapeIf_built (branch : Bool) {afterThen afterElse : Values} {base : Text} {index : ℕ}
    {condition : Value} {thenOps elseOps : Ops} {thenState elseState : BuildState}
    {thenEnd elseEnd : BlockState} (ht : Tracks ctx values state s)
    (hsited : source.Sited ctx.files) (hdepth : depth + 1 ≤ 16) (hu : Unused base index s.frontiers)
    (hcondition : type s.scope condition = some (.integer 1))
    (hthen : Piece ctx.files true (depth + 1) thenOps
      { s with frontiers := operationPath base index :: s.frontiers }.branch thenEnd)
    (hthenTracks : Tracks ctx afterThen thenState thenEnd)
    (hthenExtends : Extends (operationPath base index ++ ascii ".then") 0
      (operationPath base index :: s.frontiers) thenEnd.frontiers)
    (helse : Piece ctx.files true (depth + 1) elseOps
      { s with ids := thenEnd.ids, frontiers := thenEnd.frontiers }.branch elseEnd)
    (helseTracks : Tracks ctx afterElse elseState elseEnd)
    (helseExtends : Extends (operationPath base index ++ ascii ".else") 0 thenEnd.frontiers
      elseEnd.frontiers) :
    Piece ctx.files branch depth
      (.cons (shapeIfOp source (operationPath base index) state condition thenState.epoch
          elseState.epoch)
        (.cons (branchBlock thenOps thenState.order)
          (.cons (branchBlock elseOps elseState.order) .nil)) .nil) s
      { s with
        scope := s.scope ++ (shapeIfOp source (operationPath base index) state condition
          thenState.epoch elseState.epoch).definitions
        ids := elseEnd.ids
        frontiers := (operationPath base index ++ ascii ".join") :: elseEnd.frontiers
        state := { s.state with
          epoch := operationPath base index ++ ascii ".join"
          order := some s.scope.length } } := by
  set path := operationPath base index with hpath
  set op : Op := shapeIfOp source path state condition thenState.epoch elseState.epoch with hop
  have hnew : path ∉ s.frontiers := hu.not_mem (under_refl _)
  have hjoin : path ++ ascii ".join" ∉ elseEnd.frontiers := hu.join hthenExtends helseExtends
  obtain ⟨hthenRun, hthenWell⟩ :=
    block_built none hthen hthenTracks nofun
  -- the second block starts with the names and frontiers that the first one has left
  obtain ⟨helseRun, helseWell⟩ :=
    block_built none helse helseTracks nofun
  have heffect : verifyEffect ctx.files op (.cons (branchBlock thenOps thenState.order)
      (.cons (branchBlock elseOps elseState.order) .nil)) s =
      .ok (path, { s with frontiers := path :: s.frontiers }) :=
    verify_effect framed_shapeIfOp hsited ⟨_, rfl⟩ ht.order (.inl ht.pending)
      (by simp [hpath, operationPath_eq]) hnew (.inl rfl) (.inr (.inl rfl))
  have hdepthOk : verifyDepth (depth + 1) = .ok () := by
    rw [verifyDepth, require_eq_ok]
    exact decide_eq_true hdepth
  constructor
  · have hthenEnd : verifyBlockEnd { thenEnd with ended := true } =
        .ok { thenEnd with ended := true } := rfl
    have helseEnd : verifyBlockEnd { elseEnd with ended := true } =
        .ok { elseEnd with ended := true } := rfl
    rw [verifyOps, require_bind (by rw [ht.running]; rfl), if_pos (show op.name = .shapeIf from rfl),
      heffect, ok_bind]
    dsimp only [branchBlock]
    have hthenRun' : verifyOps ctx.files true (depth + 1)
        (thenOps.append (.ofList [yieldOp thenState.order]))
        { s with frontiers := path :: s.frontiers }.branch =
          .ok { thenEnd with ended := true } := hthenRun
    have helseRun' : verifyOps ctx.files true (depth + 1)
        (elseOps.append (.ofList [yieldOp elseState.order]))
        { s with ids := thenEnd.ids, frontiers := thenEnd.frontiers }.branch =
          .ok { elseEnd with ended := true } := helseRun
    have hconditionOk : verifyCondition op { s with frontiers := path :: s.frontiers } = .ok () :=
      verify_shapeIfCondition hcondition ht.epoch
    have hthenJoin : joinBranch op "then_epoch" { s with frontiers := path :: s.frontiers }
        { thenEnd with ended := true } =
          .ok { s with ids := thenEnd.ids, frontiers := thenEnd.frontiers } :=
      joinBranch_then hthenTracks.epoch.symm
    have helseJoin : joinBranch op "else_epoch"
        { s with ids := thenEnd.ids, frontiers := thenEnd.frontiers }
        { elseEnd with ended := true } =
          .ok { s with ids := elseEnd.ids, frontiers := elseEnd.frontiers } :=
      joinBranch_else helseTracks.epoch.symm
    have hjoinOk : verifyJoin op path
        { s with ids := elseEnd.ids, frontiers := elseEnd.frontiers } = .ok _ :=
      verify_join hjoin
    simp only [hconditionOk, ok_bind, hdepthOk, hthenRun', hthenEnd, hthenJoin, helseRun', helseEnd,
      helseJoin, hjoinOk]
    rfl
  · have hthenWell' : opsWellFormed none (s.scope ++ argumentScope [.order])
        (thenOps.append (.ofList [yieldOp thenState.order])) = true := hthenWell
    have helseWell' : opsWellFormed none (s.scope ++ argumentScope [.order])
        (elseOps.append (.ofList [yieldOp elseState.order])) = true := helseWell
    refine ⟨rfl, fun results => ?_, ?_, trivial⟩
    · have horder := lt_length ht.token
      have hlt := lt_length hcondition
      simp [opWellFormed, hop, shapeIfOp, horder, hlt]
    · simp only [regionsWellFormed, branchBlock, hthenWell', helseWell', Bool.and_true]

/-- **Built bodies pass their checks**, at any nesting. -/
theorem body_built {body : Body} {base : Text} {index : ℕ} (branch : Bool)
    (hv : verifyBody ctx depth body values = .ok after) (ht : Tracks ctx values state s)
    (hu : Unused base index s.frontiers) :
    ∃ ops state' s', buildBody base index body state = some (ops, state') ∧
      Piece ctx.files branch depth ops s s' ∧ Tracks ctx after state' s' ∧
      Extends base index s.frontiers s'.frontiers := by
  induction body generalizing depth values after state s base index branch with
  | nil =>
    cases hv
    exact ⟨_, _, _, rfl, piece_nil, ht, extends_refl⟩
  | cons source thenBody elseBody rest iht ihe ihr =>
    obtain ⟨hsited, mid, ha, hrest⟩ := accepted_cons hv
    have hpath : operationPath base index ≠ [] := by simp [operationPath_eq]
    have hnew : operationPath base index ∉ s.frontiers := hu.not_mem (under_refl _)
    -- an operation without branches, and those behind it
    have plain : ∀ {built : Option (List Op × BuildState)},
        Built ctx branch depth mid (operationPath base index) s built →
        (∀ {ops : List Op} {state' : BuildState}, built = some (ops, state') →
          buildBody base index (.cons source thenBody elseBody rest) state =
            (buildBody base (index + 1) rest state').bind fun r =>
              some ((Mlir.Ops.ofList ops).append r.1, r.2)) →
        ∃ ops state' s',
          buildBody base index (.cons source thenBody elseBody rest) state = some (ops, state') ∧
          Piece ctx.files branch depth ops s s' ∧ Tracks ctx after state' s' ∧
          Extends base index s.frontiers s'.frontiers := by
      rintro built ⟨ops, mid', t, hbuilt, hpiece, hmid, hfrontiers⟩ hbody
      obtain ⟨ops', state', s', hbuild, hpiece', htracks, hextends⟩ :=
        ihr branch hrest hmid (hu.behind hfrontiers)
      refine ⟨_, state', s', ?_, hpiece.append hpiece', htracks, hextends.behind hfrontiers⟩
      rw [hbody hbuilt, hbuild]
      rfl
    cases ha with
    | read kind hresource _ _ _ _ hrows hcolumns hfresh =>
      refine plain (read_built ht hsited hresource hrows hcolumns hfresh hpath hnew) ?_
      intro ops state' hbuilt
      simp only [buildBody, kind, hbuilt, map_some, bind_eq_bind, bind_some]
      rfl
    | gemm kind hlhs hrhs _ _ _ hcontraction hfresh =>
      have hcheckNew : operationPath base index ++ ascii ".check" ∉ s.frontiers :=
        hu.not_mem (check_word ▸ under_append _ _)
      refine plain (gemm_built ht hsited hlhs hrhs hcontraction hfresh hpath hnew hcheckNew) ?_
      intro ops state' hbuilt
      simp only [buildBody, kind, hbuilt, map_some, bind_eq_bind, bind_some]
      rfl
    | publish kind hresource hvalue =>
      refine plain (publish_built ht hsited hresource hvalue hpath hnew) ?_
      intro ops state' hbuilt
      simp only [buildBody, kind, hbuilt, map_some, bind_eq_bind, bind_some]
      rfl
    | observe kind hresource =>
      refine plain (observe_built ht hsited hresource hpath hnew) ?_
      intro ops state' hbuilt
      simp only [buildBody, kind, hbuilt, map_some, bind_eq_bind, bind_some]
      rfl
    | shapeIf kind _ _ _ _ _ _ hlhs hrhs hdepth thenOk elseOk =>
      obtain ⟨conditionOps, condition, more, hbuildCondition, hconditionPiece, hcondition⟩ :=
        condition_built branch depth ht hlhs hrhs
      have hc := ht.extend more
      -- the first branch
      have hthen := (hc.setFrontiers (operationPath base index :: s.frontiers)).branch
      obtain ⟨thenOps, thenState, thenEnd, hbuildThen, hthenPiece, hthenTracks, hthenExtends⟩ :=
        iht true thenOk hthen hu.first
      -- the second one, with what the first one added
      have helse := (hc.rebind thenEnd.frontiers hthenTracks.ids).branch
      obtain ⟨elseOps, elseState, elseEnd, hbuildElse, helsePiece, helseTracks, helseExtends⟩ :=
        ihe true elseOk helse (hu.second hthenExtends)
      let op := shapeIfOp source (operationPath base index) (state.advance more.length) condition
        thenState.epoch elseState.epoch
      let frontiers := (operationPath base index ++ ascii ".join") :: elseEnd.frontiers
      have hpiece := shapeIf_built branch hc hsited hdepth hu hcondition hthenPiece hthenTracks
        hthenExtends helsePiece helseTracks helseExtends
      have hframe := under_of_branches hthenExtends helseExtends
      have hmid : Tracks ctx ⟨values.scope, _⟩ _ _ :=
        ((hc.step op.definitions (s.scope ++ more).length frontiers
          (type_result _ op (i := 0) rfl)).setEpoch
          (operationPath base index ++ ascii ".join")).rebind frontiers helseTracks.ids
      obtain ⟨ops', state', s', hbuild, hpiece', htracks, hextends⟩ :=
        ihr branch hrest hmid (hu.behind hframe)
      refine ⟨_, state', s', ?_, (hconditionPiece.append hpiece).append hpiece', htracks,
        hextends.behind hframe⟩
      have hnext : (state.advance more.length).next = (s.scope ++ more).length := hc.next
      rw [← hnext] at hbuild
      have hrestBuild : buildBody base (index + 1) rest
          { (state.advance more.length).advance 1 with
            order := (state.advance more.length).next
            epoch := operationPath base index ++ ascii ".join" } = some (ops', state') := hbuild
      simp only [buildBody, kind, hbuildCondition, bind_eq_bind, bind_some,
        hbuildThen, hbuildElse, pure, hrestBuild]

end Matcore.ClosedRegion
