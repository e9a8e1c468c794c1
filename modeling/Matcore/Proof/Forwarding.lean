import Matcore.Proof.Frontiers

/-!
# Publication-read forwarding preserves meaning

With forwarding and without, the emitted statements do the same, and so do the emitted functions.
-/

namespace Matcore.ClosedHost

open Function (update)
open ClosedRegion FlatMemory Session

variable {F : Type} {ps : Parameters} {args : Arguments} {host : Host F}

/-- The value of the current publication is what a read of its resource would copy. -/
def CurrentOk (args : Arguments) (env : Env F) (mem : Mem F) (current : Option ForwardedRead) :
    Prop :=
  ∀ c ∈ current, env c.value = some (some ((args.view c.resource).copy mem))

theorem extent_of_validate {view : ResourceView} {write : Bool} {elements : ℕ}
    (h : validate view write = .ok elements) : extent view.rows view.columns = .ok elements := by
  unfold validate at h
  split at h
  · cases h
  · rename_i e he
    rw [he]
    repeat' split at h
    all_goals first
      | exact h
      | cases h

section

variable (halloc : ∀ f attempt, host.allocationAllowed f attempt = true)

include halloc

theorem allocate_of_extent {f attempt rows columns elements : ℕ}
    (h : extent rows columns = .ok elements) :
    host.allocate f attempt rows columns = .ok (.fill rows columns fun _ => host.zero) := by
  unfold Host.allocate
  rw [h]
  simp [halloc]

/-- With the published storage equal to a copy, a forwarded read passes the same guards. -/
theorem readStorage_eq (f : ℕ) (mem : Mem F) (view : ResourceView) (rows columns : ℕ) :
    host.readStorage f mem view rows columns =
      forwardedStorage view rows columns (some (view.copy mem)) := by
  unfold Host.readStorage forwardedStorage
  split
  · rfl
  split
  · rfl
  rename_i hshape
  unfold Host.snapshot
  cases hv : validate view false with
  | error code => rfl
  | ok elements =>
    rw [allocate_of_extent halloc (extent_of_validate hv)]
    exact (if_neg hshape).symm

/-- Under `CurrentOk` a forwarded read does what the read does. -/
theorem apply_readForwarded
    (f : UInt64) (view : ResourceView) (rows columns : ℕ) (result : Value F) (w : World F) :
    (Request.readForwarded f view rows columns (some (view.copy w.mem)) result).apply host w =
      (Request.read f view rows columns result).apply host w := by
  simp only [Request.apply, Session.read, Session.readForwarded, readStorage_eq halloc]

end

theorem copy_of_publish {s : Session F} {mem : Mem F} {f : ℕ} {value : Value F}
    {view : ResourceView} (hok : (s.publish host mem f value view).1.status.code = .ok) :
    value = some (view.copy (s.publish host mem f value view).2) := by
  rcases publish_cases s host mem f value view with ⟨h, -⟩ | ⟨-, storage, hv, h⟩
  · exact absurd hok h.code
  rw [h, publishStorage_ok hv]
  unfold publishStorage at hv
  split at hv
  · cases hv
  split at hv
  · cases hv
  split at hv
  · cases hv
  rename_i st _ _ _ hshape
  obtain rfl := Except.ok.inj hv
  simp only [not_or, not_not] at hshape
  obtain ⟨hrows, hcolumns⟩ := hshape
  have hlen : view.rows * view.columns = st.elements.length := by
    rw [st.length_eq, hrows, hcolumns]
  refine congrArg some (Storage.ext hrows hcolumns ?_)
  simp only [ResourceView.copy]
  rw [hlen, readCells_writeCells floatBytes_pos]

variable {env : Env F} {id : Id} {c : Call}

variable {o : Optimization} {uses uses' : UseCounts} {b : Body} {current : Option ForwardedRead}
  {reads reads' : Reads} {n : ℕ} {block block' : Block}

theorem currentOk_assign {mem : Mem F} {value : Value F} (hc : CurrentOk args env mem current)
    (hn : env id = none) : CurrentOk args (update env id (some value)) mem current :=
  fun c h => update_of_isSome _ hn (hc c h)

variable {w : World F} {rest' rest : Block}

theorem exec_call_congr (h : ∀ request, ps.request args env c = some (request, c.target) →
      (request.apply host w).1.status.code = .ok →
      rest.exec ps args host (env.assign c.target (request.apply host w).2)
          (request.apply host w).1 =
        rest'.exec ps args host (env.assign c.target (request.apply host w).2)
          (request.apply host w).1) :
    (Block.call c rest).exec ps args host env w = (Block.call c rest').exec ps args host env w := by
  unfold Block.exec
  split
  · rfl
  · rename_i request target hr
    obtain rfl := (request_target hr).1
    dsimp only
    split
    · exact h request hr ‹_›
    · rfl

theorem exec_readForwarded (halloc : ∀ f attempt, host.allocationAllowed f attempt = true)
    {resource value result : Id} {rows columns : Dimension}
    (hv : env value = some (some ((args.view resource).copy w.mem))) :
    (Block.call (.readForwarded n resource rows columns value result) rest).exec ps args host env w =
      (Block.call (.read n resource rows columns result) rest).exec ps args host env w := by
  have hview : ∀ view, ps.resource args resource = some view → view = args.view resource := by
    intro view h
    unfold Parameters.resource at h
    split at h
    · exact (Option.some.inj h).symm
    · cases h
  simp only [Block.exec, Parameters.request]
  cases hres : ps.resource args resource with
  | none => rfl
  | some view =>
    cases hrows : ps.dimension args env rows with
    | none => rfl
    | some rows =>
      cases hcolumns : ps.dimension args env columns with
      | none => rfl
      | some columns =>
        cases hold : env result with
        | none => simp [hv]
        | some old => simp [hv, hview view hres, apply_readForwarded halloc]

theorem exec_declare_congr
    (h : env id = none → rest.exec ps args host (update env id (some none)) w =
      rest'.exec ps args host (update env id (some none)) w) :
    (Block.declare id rest).exec ps args host env w =
      (Block.declare id rest').exec ps args host env w := by
  unfold Block.exec
  split
  · rfl
  · rename_i hn
    exact h (by simpa using hn)

theorem exec_define_congr (hc : CurrentOk args env w.mem current) (htarget : c.target = some id)
    (hn : env id = none) (ih : ∀ {env : Env F} {w : World F}, CurrentOk args env w.mem current →
      rest.exec ps args host env w = rest'.exec ps args host env w) :
    (Block.call c rest).exec ps args host (update env id (some none)) w =
      (Block.call c rest').exec ps args host (update env id (some none)) w := by
  refine exec_call_congr fun request hreq hok => ?_
  rw [htarget] at hreq ⊢
  simp only [Env.assign, Function.update_idem]
  exact ih ((request_target hreq).2 (by simp) host w ▸ currentOk_assign hc hn)

/-- The statements emitted with and without forwarding do the same. -/
theorem exec_forwarding (halloc : ∀ f attempt, host.allocationAllowed f attempt = true)
    (hb : Emits .publicationReadForwarding uses b current reads n block)
    {current' : Option ForwardedRead} (hb' : Emits .none uses' b current' reads' n block')
    (hc : CurrentOk args env w.mem current) :
    block.exec ps args host env w = block'.exec ps args host env w := by
  induction hb generalizing current' reads' block' env w with
  | nil => cases hb'; rfl
  | @read op rest current _ n block kind _ ih =>
    obtain ⟨block', rfl, behind'⟩ := hb'.read_inv kind
    have hplain : forwardedRead (Optimization.none == .publicationReadForwarding) current' op n =
        none := by cases current' <;> rfl
    rw [hplain]
    refine exec_declare_congr fun hn => ?_
    have hrest := exec_define_congr
      (c := .read n op.resource op.rows op.columns op.result) hc rfl hn fun hc => ih behind' hc
    cases hr : forwardedRead (Optimization.publicationReadForwarding ==
        .publicationReadForwarding) current op n with
    | none => exact hrest
    | some r =>
      -- the record is the current publication, of the very resource that is read
      obtain ⟨c, hcurrent, hr⟩ := Option.bind_eq_some_iff.1 hr
      split at hr
      · rename_i hres
        simp only [Bool.and_eq_true, beq_iff_eq] at hres
        cases hr
        refine (exec_readForwarded halloc ?_).trans hrest
        exact hres.2 ▸ currentOk_assign hc hn c hcurrent
      · cases hr
  | @gemm op rest current _ n block kind _ _ ih =>
    obtain ⟨block', rfl, behind'⟩ := hb'.gemm_inv kind (by simp)
    exact exec_declare_congr fun hn => exec_define_congr hc rfl hn fun hc => ih behind' hc
  | pair window => cases (kind_of_headWindow window).1
  | @publish op rest current _ n block kind _ ih =>
    obtain ⟨block', rfl, behind'⟩ := hb'.publish_inv kind
    refine exec_call_congr fun request hreq hok => ih behind' ?_
    obtain ⟨value, hvalue, rfl⟩ := request_publish hreq
    rintro c hc
    cases hc
    exact hvalue.trans (congrArg some (copy_of_publish hok))
  | @observe op rest current _ n block kind _ ih =>
    obtain ⟨block', rfl, behind'⟩ := hb'.observe_inv kind
    refine exec_call_congr fun request hreq hok => ih behind' ?_
    simp only [Parameters.request, Option.bind_eq_bind, Option.bind_eq_some_iff, Option.pure_def,
      Option.some.injEq, Prod.mk.injEq] at hreq
    obtain ⟨view, -, rfl, -⟩ := hreq
    exact hc
  | @shapeIf op t e rest current _ n thenBlock elseBlock block kind _ _ _ iht ihe ihr =>
    obtain ⟨thenBlock', elseBlock', block', rfl, ht', he', hr'⟩ := hb'.shapeIf_inv kind
    have hnone : ∀ {env : Env F} {w : World F}, CurrentOk args env w.mem none := by simp [CurrentOk]
    unfold Block.exec
    split
    · rw [iht ht' hnone, ihe he' hnone]
      congr 1
      funext inner w
      exact ihr hr' hnone
    · rfl

theorem reads_of_disabled (b : Body) (d : Derivation) :
    (Derivation.body false b d).reads = d.reads := by
  induction b generalizing d with
  | nil => rfl
  | cons op t e rest iht ihe ihr =>
    unfold Derivation.body
    rw [ihr]
    cases op.kind with
    | read => unfold Derivation.forward; cases (d.visit op).current <;> rfl
    | shapeIf =>
      simp only [Derivation.reset]
      rw [ihe, iht]
      rfl
    | _ => rfl

theorem derive_none (b : Body) : deriveClosedHostPlan b .none = .ok {} := by
  have h : deriveReads b .none = [] := reads_of_disabled b {}
  simp [deriveClosedHostPlan, derivePairs, h]

theorem call_congr {emission emission' : Emission}
    (hcompletion : emission.completionFrontier = emission'.completionFrontier)
    (hexec : emission.block.exec emission.parameters args host (fun _ => none) w =
      emission'.block.exec emission'.parameters args host (fun _ => none) w) :
    emission.call args host w = emission'.call args host w := by
  unfold Emission.call
  rw [hexec, hcompletion]

/-- **Publication-read forwarding preserves meaning.** The emitted function of an admitted
region does with its forwarding plan what it does with none: the same status, memory,
observations and publications, for every aliasing of its resources. -/
theorem forwarding_preserves {program : Program} (h : verifyProgram program = .ok ())
    {region : Region} (hregion : region ∈ program.regions)
    (halloc : ∀ f attempt, host.allocationAllowed f attempt = true) (args : Arguments)
    (candidate : Candidate) (mem : Mem F) :
    ∃ plan forwarded plain,
      deriveClosedHostPlan region.body .publicationReadForwarding = .ok plan ∧
      emitClosedHostV1 region plan = some forwarded ∧
      emitClosedHostV1 region {} = some plain ∧
      ∃ status w,
        plain.call args host ⟨{ candidate }, mem, []⟩ = some (status, w) ∧
        forwarded.call args host ⟨{ candidate }, mem, []⟩ = some (status, w) := by
  obtain ⟨ctx, after, -, -, hv⟩ := verifyBody_of_program h hregion
  have hnested := nested_of_verify hv
  have hp : deriveClosedHostPlan region.body .publicationReadForwarding =
      .ok ⟨deriveReads region.body .publicationReadForwarding, []⟩ := rfl
  obtain ⟨forwarded, he, hof⟩ := emission_of_plan hnested (plan_of_derive hp)
  obtain ⟨plain, he', hof'⟩ := emission_of_plan hnested (plan_of_derive (derive_none region.body))
  have heq : forwarded.call args host ⟨{ candidate }, mem, []⟩ =
      plain.call args host ⟨{ candidate }, mem, []⟩ := by
    refine call_congr (hof.completion.trans hof'.completion.symm) ?_
    rw [hof.parameters, hof'.parameters]
    exact exec_forwarding halloc hof.emits hof'.emits nofun
  obtain ⟨status, w, hcall, -⟩ := call_of_admitted h hregion hof' host args candidate mem
  exact ⟨_, forwarded, plain, hp, he, he', status, w, hcall, heq.trans hcall⟩

/-- The two-layer region forwards its read 6, here with every resource at the same cell. -/
theorem forwarding_preserves_twoLayer :
    let host : Host ℕ := .generatedCpu 0 (· + ·) (· * ·)
    let args : Arguments :=
      ⟨fun _ => { data := 64, rows := 1, columns := 1, capacityElements := 1, access := .readWrite },
        fun _ => 0⟩
    let run (plan : Plan) : Option (Status × World ℕ) :=
      (emitClosedHostV1 twoLayer plan).bind fun e => e.call args host ⟨{}, fun _ => 5, []⟩
    ∃ w, run ⟨[⟨6, 5, 3, 4⟩], []⟩ = some (⟨.ok, 0, 10, 9, 2, 1, true⟩, w) ∧
      run {} = some (⟨.ok, 0, 10, 9, 2, 1, true⟩, w) := by
  intro host args run
  obtain ⟨plan, forwarded, plain, hp, he, he', status, w, hcall, hcall'⟩ :=
    forwarding_preserves verify_twoLayer (List.mem_singleton.2 rfl)
      (show ∀ f attempt, host.allocationAllowed f attempt = true from fun _ _ => rfl) args
      .nativeStrict fun _ => 5
  obtain rfl : (⟨[⟨6, 5, 3, 4⟩], []⟩ : Plan) = plan := by
    have : deriveClosedHostPlan twoLayer.body .publicationReadForwarding =
        .ok ⟨[⟨6, 5, 3, 4⟩], []⟩ := by rfl
    exact Except.ok.inj (this.symm.trans hp)
  have hrun : run ⟨[⟨6, 5, 3, 4⟩], []⟩ = some (status, w) := by simp only [run, he]; exact hcall'
  have hrun' : run {} = some (status, w) := by simp only [run, he']; exact hcall
  have hstatus : (run {}).map (·.1) = some ⟨.ok, 0, 10, 9, 2, 1, true⟩ := by decide
  rw [hrun'] at hstatus
  obtain rfl := Option.some.inj hstatus
  exact ⟨w, hrun, hrun'⟩

end Matcore.ClosedHost
