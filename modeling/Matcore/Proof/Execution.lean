import Matcore.Proof.Scoping
import Matcore.Proof.SessionAtomic

/-!
# Running emitted statements

A block keeps the values it found, so leaving it restores the environment.
-/

namespace Matcore.ClosedHost

open Function (update_of_ne update)
open ClosedRegion
open List (cons_subset append_subset)

variable {F : Type}

variable {ps : Parameters} {args : Arguments} {host : Host F} {o : Optimization}
  {uses : UseCounts}

/-- The value a call assigns. -/
def Call.target : Call → Option Id
  | .read _ _ _ _ result | .readForwarded _ _ _ _ _ result | .gemm _ _ _ _ result
  | .gemmStrictFusedPair _ _ _ _ _ result => some result
  | .publish .. | .observe .. => none

variable {env : Env F} {c : Call}

/-- A request with a target leaves the memory. -/
theorem request_target {request : Request F} {target : Option Id}
    (h : ps.request args env c = some (request, target)) : target = c.target ∧
      (target ≠ none → ∀ host w, (request.apply host w).1.mem = w.mem) := by
  cases c <;> simp only [Parameters.request, Option.bind_eq_bind, Option.bind_eq_some_iff,
    Option.pure_def, Option.some.injEq, Prod.mk.injEq] at h
  · obtain ⟨_, -, _, -, _, -, _, -, rfl, rfl⟩ := h; exact ⟨rfl, fun _ _ _ => rfl⟩
  · obtain ⟨_, -, _, -, _, -, _, -, _, -, rfl, rfl⟩ := h; exact ⟨rfl, fun _ _ _ => rfl⟩
  · obtain ⟨_, -, _, -, _, -, rfl, rfl⟩ := h; exact ⟨rfl, fun _ _ _ => rfl⟩
  · obtain ⟨_, -, _, -, _, -, _, -, rfl, rfl⟩ := h; exact ⟨rfl, fun _ _ _ => rfl⟩
  · obtain ⟨_, -, _, -, -, rfl⟩ := h; exact ⟨rfl, fun h => absurd rfl h⟩
  · obtain ⟨_, -, -, rfl⟩ := h; exact ⟨rfl, fun h => absurd rfl h⟩

theorem request_publish {n : ℕ} {value resource : Id} {request : Request F} {target : Option Id}
    (h : ps.request args env (.publish n value resource) = some (request, target)) :
    ∃ v, env value = some v ∧ request = .publish (.ofNat n) v (args.view resource) := by
  simp only [Parameters.request, Option.bind_eq_bind, Option.bind_eq_some_iff, Option.pure_def,
    Option.some.injEq, Prod.mk.injEq] at h
  obtain ⟨v, hv, view, hview, rfl, -⟩ := h
  unfold Parameters.resource at hview
  split at hview <;> cases hview
  exact ⟨v, hv, rfl⟩

variable {flow : Flow F} {rest : Block} {w : World F} {id : Id}

theorem exec_declare (h : (Block.declare id rest).exec ps args host env w = some flow) :
    env id = none ∧ rest.exec ps args host (update env id (some none)) w = some flow := by
  unfold Block.exec at h
  split at h
  · cases h
  · rename_i hn
    exact ⟨by simpa using hn, h⟩

theorem exec_call (h : (Block.call c rest).exec ps args host env w = some flow) :
    ∃ request, ps.request args env c = some (request, c.target) ∧
      (((request.apply host w).1.status.code = .ok ∧
          rest.exec ps args host (env.assign c.target (request.apply host w).2)
            (request.apply host w).1 = some flow) ∨
        ((request.apply host w).1.status.code ≠ .ok ∧
          flow = .returned (request.apply host w).1)) := by
  unfold Block.exec at h
  split at h
  · cases h
  · rename_i request target hr
    obtain rfl := (request_target hr).1
    refine ⟨request, hr, ?_⟩
    dsimp only at h
    split at h
    · exact .inl ⟨‹_›, h⟩
    · exact .inr ⟨‹_›, (Option.some.inj h).symm⟩

variable {lhs rhs : Dimension} {comparison : Comparison}

theorem exec_branch {t e : Block}
    (h : (Block.branch lhs comparison rhs t e rest).exec ps args host env w = some flow) :
    ∃ x y inner, ps.dimension args env lhs = some x ∧ ps.dimension args env rhs = some y ∧
      (if Comparison.holds comparison x y then t.exec ps args host env w
        else e.exec ps args host env w) = some inner ∧
      ((∃ env' w', inner = .next env' w' ∧ rest.exec ps args host (env.leave env') w' = some flow) ∨
        ∃ w', inner = .returned w' ∧ flow = .returned w') := by
  unfold Block.exec at h
  split at h
  swap
  · cases h
  rename_i x y hx hy
  generalize hi : (if Comparison.holds comparison x y = true then t.exec ps args host env w
    else e.exec ps args host env w) = inner at h
  cases inner with
  | none => cases h
  | some inner =>
    refine ⟨x, y, inner, hx, hy, hi, ?_⟩
    cases inner with
    | next env' w' => exact .inl ⟨env', w', rfl, h⟩
    | returned w' => exact .inr ⟨w', rfl, (Option.some.inj h).symm⟩

theorem assign_declared {x : Id} (hc : c.target = some id) (value : Value F) (hx : x ≠ id) :
    Env.assign (update env id (some none)) c.target value x = env x := by
  rw [hc]
  simp [Env.assign, update_of_ne hx]

@[simp] theorem target_readCallOf (record : Option ForwardedRead) (op : Operation) (n : ℕ) :
    (readCallOf record op n).target = some op.result := by
  cases record <;> rfl

variable {w' : World F} {env' : Env F}

theorem frame_declare {result : Id} (hc : c.target = some result)
    (ih : ∀ {env : Env F} {w : World F}, rest.exec ps args host env w = some (.next env' w') →
      (env id).isSome → env' id = env id)
    (h : (Block.declare result (.call c rest)).exec ps args host env w = some (.next env' w'))
    (hid : (env id).isSome) : env' id = env id := by
  obtain ⟨hn, h⟩ := exec_declare h
  obtain ⟨request, -, ⟨-, h⟩ | ⟨-, h⟩⟩ := exec_call h
  · have hne : id ≠ result := by rintro rfl; simp [hn] at hid
    have ha : Env.assign (update env result (some none)) c.target
        (request.apply host w).2 id = env id := assign_declared hc _ hne
    rw [ih h (by rw [ha]; exact hid), ha]
  · cases h

variable {reads : Reads} {current : Option ForwardedRead} {b : Body} {block : Block} {n : ℕ}

section

variable (hb : Emits o uses b current reads n block)
  (h : block.exec ps args host env w = some (.next env' w'))

include hb h

theorem exec_frame (hid : (env id).isSome) : env' id = env id := by
  induction hb generalizing env w env' w' with
  | nil => cases h; rfl
  | read _ _ ih => exact frame_declare (target_readCallOf _ _ _) (fun h hid => ih h hid) h hid
  | gemm _ _ _ ih | pair _ _ ih => exact frame_declare rfl (fun h hid => ih h hid) h hid
  | publish _ _ ih | observe _ _ ih =>
    obtain ⟨request, -, ⟨-, h⟩ | ⟨-, h⟩⟩ := exec_call h
    · exact ih h hid
    · cases h
  | shapeIf _ _ _ _ iht ihe ihr =>
    obtain ⟨x, y, inner, -, -, hi, ⟨inner', w₁, rfl, h⟩ | ⟨w₁, -, h⟩⟩ := exec_branch h
    swap
    · cases h
    have hinner : inner' id = env id := by
      split at hi
      · exact iht hi hid
      · exact ihe hi hid
    have hleave : env.leave inner' id = env id := by
      unfold Env.leave
      rw [if_pos hid, hinner]
    rw [ihr h (by rw [hleave]; exact hid), hleave]

theorem leave_of_exec : env.leave env' = env := by
  funext id
  unfold Env.leave
  split
  · exact exec_frame hb h ‹_›
  · rename_i hn
    have hnone : env id = none := by simpa using hn
    exact hnone.symm

end

/-- A session that accepts every frontier from `n` on. -/
structure Ready (s : Session F) (n : ℕ) : Prop where
  ok : s.status.code = .ok
  isOpen : s.resultTaken = false
  idle : s.active = false
  notCompleted : s.status.completed = false
  lt : s.status.completedFrontier < n

/-- A call passes the frontiers from `n` up to `k`. -/
def Request.At (n k : ℕ) : Request F → Prop
  | .read f .. | .readForwarded f .. | .gemm f .. | .publish f .. | .observe f ..
  | .complete f => f.toNat = n ∧ k = n + 1
  | .gemmStrictFusedPair f₁ f₂ .. => f₁.toNat = n ∧ f₂.toNat = n + 1 ∧ k = n + 2

variable {k : ℕ} {r : Request F} {s : Session F}

theorem not_badFrontier (hr : Ready s n) (hat : r.At n k) : ¬ r.BadFrontier s := by
  have hlt := hr.lt
  cases r with
  | gemmStrictFusedPair f₁ f₂ a b d first second result =>
    obtain ⟨h₁, h₂, -⟩ := hat
    have := f₂.toNat_lt
    simp only [Request.BadFrontier, Session.BadFrontier, sizeMax]
    omega
  | _ =>
    obtain ⟨h, -⟩ := hat
    simp only [Request.BadFrontier, Session.BadFrontier]
    omega

theorem last_of_at (hat : r.At n k) : r.last + 1 = k := by
  cases r with
  | gemmStrictFusedPair f₁ f₂ a b d first second result =>
    obtain ⟨-, h₂, rfl⟩ := hat
    simp only [Request.last, h₂]
  | _ =>
    obtain ⟨h, rfl⟩ := hat
    simp only [Request.last, h]

theorem ready_failed (hr : Ready w.session n) (hat : r.At n k)
    (h : (r.apply host w).1.status.code ≠ .ok) :
    (r.apply host w).1.status.code ≠ .invalidFrontier := by
  intro hf
  have hfail := ((apply_cases host w r).resolve_right h).session.frontier hf
  rw [checkpoint_code, hr.ok] at hfail
  exact hfail.elim (by simp) (not_badFrontier hr hat)

theorem ready_ok (hat : r.At n k) (hne : ∀ f, r ≠ .complete f)
    (h : (r.apply host w).1.status.code = .ok) :
    Ready (r.apply host w).1.session k where
  ok := h
  isOpen := (apply_ok r h).isOpen
  idle := (apply_ok r h).idle
  notCompleted := by
    by_contra hc
    obtain ⟨f, hf⟩ := (apply_ok r h).completed (by simpa [World.status] using hc)
    exact hne f hf
  lt := by
    have := last_of_at hat
    have : (r.apply host w).1.session.status.completedFrontier = r.last := (apply_ok r h).frontier
    omega

/-- A run that ends ready for the frontier `m`, or returns without having called one invalid. -/
def Flow.Good (m : ℕ) : Flow F → Prop
  | .next _ w => Ready w.session m
  | .returned w => w.status.code ≠ .invalidFrontier

variable {m : ℕ}

/-- The names in scope are those of the parameters and of the declared values. -/
structure InScope (ps : Parameters) (env : Env F) (scope : List Name) : Prop where
  value : ∀ id, .value id ∈ scope ↔ (env id).isSome
  resource : ∀ id, .resource id ∈ scope → id ∈ ps.resources
  shape : ∀ id, .shape id ∈ scope → id ∈ ps.shapes

variable {scope : List Name} {dim : Dimension}

namespace InScope

variable (hs : InScope ps env scope)

include hs

theorem declare (value : Value F) : InScope ps (update env id (some value)) (.value id :: scope) where
  value id' := by
    by_cases h : id' = id
    · simp [h]
    · simp [h, hs.value]
  resource id' hid := hs.resource id' (by simpa using hid)
  shape id' hid := hs.shape id' (by simpa using hid)

theorem get (hid : .value id ∈ scope) : ∃ value, env id = some value :=
  Option.isSome_iff_exists.1 ((hs.value id).1 hid)

theorem view (args : Arguments) (hid : .resource id ∈ scope) :
    ps.resource args id = some (args.view id) :=
  if_pos (hs.resource id hid)

theorem dimension (args : Arguments) (hdim : dimensionNames dim ⊆ scope) :
    ∃ n, ps.dimension args env dim = some n := by
  unfold dimensionNames at hdim
  unfold Parameters.dimension
  cases hk : dim.kind <;> simp only [hk, cons_subset] at hdim ⊢
  · exact ⟨_, rfl⟩
  · exact ⟨_, if_pos (hs.shape _ hdim.1)⟩
  all_goals
    obtain ⟨value, hvalue⟩ := hs.get hdim.1
    exact ⟨_, by rw [hvalue]; rfl⟩

end InScope

theorem toNat_ofNat (h : n < 2 ^ 64) : (UInt64.ofNat n).toNat = n := by
  rw [UInt64.toNat_ofNat', Nat.mod_eq_of_lt h]

/-- A call of a statement passes the frontiers from `n` up to `k`. -/
def Call.At (n k : ℕ) : Call → Prop
  | .read f .. | .readForwarded f .. | .gemm f .. | .publish f .. | .observe f .. =>
    f = n ∧ k = n + 1
  | .gemmStrictFusedPair f₁ f₂ .. => f₁ = n ∧ f₂ = n + 1 ∧ k = n + 2

/-- A call whose names are in scope makes a request. -/
theorem request_of_names (args : Arguments) (hs : InScope ps env scope) (hc : c.names ⊆ scope)
    (hat : c.At n k) (hk : k ≤ 2 ^ 64) :
    ∃ request : Request F, ps.request args env c = some (request, c.target) ∧ request.At n k ∧
      ∀ f, request ≠ .complete f := by
  cases c with
  | read f resource rows columns result =>
    obtain ⟨rfl, rfl⟩ := hat
    simp only [Call.names, cons_subset, append_subset] at hc
    obtain ⟨hresource, hresult, hrows, hcolumns⟩ := hc
    obtain ⟨old, hold⟩ := hs.get hresult
    obtain ⟨x, hx⟩ := hs.dimension args hrows
    obtain ⟨y, hy⟩ := hs.dimension args hcolumns
    exact ⟨.read (.ofNat f) (args.view resource) x y old,
      by simp [Parameters.request, hs.view args hresource, hx, hy, hold, Call.target],
      ⟨toNat_ofNat (by omega), rfl⟩, by simp⟩
  | readForwarded f resource rows columns published result =>
    obtain ⟨rfl, rfl⟩ := hat
    simp only [Call.names, cons_subset, append_subset] at hc
    obtain ⟨hresource, hresult, hpublished, hrows, hcolumns⟩ := hc
    obtain ⟨old, hold⟩ := hs.get hresult
    obtain ⟨p, hp⟩ := hs.get hpublished
    obtain ⟨x, hx⟩ := hs.dimension args hrows
    obtain ⟨y, hy⟩ := hs.dimension args hcolumns
    exact ⟨.readForwarded (.ofNat f) (args.view resource) x y p old,
      by simp [Parameters.request, hs.view args hresource, hx, hy, hp, hold, Call.target],
      ⟨toNat_ofNat (by omega), rfl⟩, by simp⟩
  | gemm f lhs rhs numeric result =>
    obtain ⟨rfl, rfl⟩ := hat
    simp only [Call.names, cons_subset] at hc
    obtain ⟨x, hx⟩ := hs.get hc.1
    obtain ⟨y, hy⟩ := hs.get hc.2.1
    obtain ⟨old, hold⟩ := hs.get hc.2.2.1
    exact ⟨.gemm (.ofNat f) x y numeric old,
      by simp [Parameters.request, hx, hy, hold, Call.target], ⟨toNat_ofNat (by omega), rfl⟩, by simp⟩
  | gemmStrictFusedPair f₁ f₂ a b d result =>
    obtain ⟨rfl, rfl, rfl⟩ := hat
    simp only [Call.names, cons_subset] at hc
    obtain ⟨x, hx⟩ := hs.get hc.1
    obtain ⟨y, hy⟩ := hs.get hc.2.1
    obtain ⟨z, hz⟩ := hs.get hc.2.2.1
    obtain ⟨old, hold⟩ := hs.get hc.2.2.2.1
    exact ⟨.gemmStrictFusedPair (.ofNat f₁) (.ofNat (f₁ + 1)) x y z .strictF32 .strictF32 old,
      by simp [Parameters.request, hx, hy, hz, hold, Call.target],
      ⟨toNat_ofNat (by omega), toNat_ofNat (by omega), rfl⟩, by simp⟩
  | publish f value resource =>
    obtain ⟨rfl, rfl⟩ := hat
    simp only [Call.names, cons_subset] at hc
    obtain ⟨x, hx⟩ := hs.get hc.1
    exact ⟨.publish (.ofNat f) x (args.view resource),
      by simp [Parameters.request, hx, hs.view args hc.2.1, Call.target],
      ⟨toNat_ofNat (by omega), rfl⟩, by simp⟩
  | observe f resource =>
    obtain ⟨rfl, rfl⟩ := hat
    simp only [Call.names, cons_subset] at hc
    exact ⟨.observe (.ofNat f) (args.view resource),
      by simp [Parameters.request, hs.view args hc.1, Call.target],
      ⟨toNat_ofNat (by omega), rfl⟩, by simp⟩

theorem exec_call_good (hs : InScope ps env scope) (hc : c.names ⊆ scope) (hat : c.At n k)
    (hk : k ≤ 2 ^ 64) (hr : Ready w.session n)
    (ih : ∀ value (w' : World F), Ready w'.session k →
      ∃ flow, rest.exec ps args host (env.assign c.target value) w' = some flow ∧ flow.Good m) :
    ∃ flow, (Block.call c rest).exec ps args host env w = some flow ∧ flow.Good m := by
  obtain ⟨request, hreq, hat, hne⟩ := request_of_names args hs hc hat hk
  unfold Block.exec
  rw [hreq]
  dsimp only
  split
  · exact ih _ _ (ready_ok hat hne ‹_›)
  · exact ⟨_, rfl, ready_failed hr hat ‹_›⟩

theorem exec_declare_good (hs : InScope ps env scope)
    (hscoped : (Block.declare id (.call c rest)).Scoped scope) (hc : c.target = some id)
    (hat : c.At n k) (hk : k ≤ 2 ^ 64) (hr : Ready w.session n)
    (ih : ∀ {env : Env F} {w' : World F}, InScope ps env (.value id :: scope) →
      Ready w'.session k →
      ∃ flow, rest.exec ps args host env w' = some flow ∧ flow.Good m) :
    ∃ flow, (Block.declare id (.call c rest)).exec ps args host env w = some flow ∧
      flow.Good m := by
  obtain ⟨hfresh, hnames, -⟩ := hscoped
  unfold Block.exec
  rw [if_neg fun h => hfresh ((hs.value id).2 h)]
  refine exec_call_good (hs.declare none) hnames hat hk hr fun value w' hw' => ih ?_ hw'
  rw [hc]
  unfold Env.assign
  dsimp only
  rw [Function.update_idem]
  exact hs.declare value

theorem Flow.Good.mono {m' : ℕ} (h : flow.Good m) (hm : m ≤ m') : flow.Good m' := by
  cases flow with
  | next env w => exact ⟨h.ok, h.isOpen, h.idle, h.notCompleted, h.lt.trans_le hm⟩
  | returned w => exact h

theorem Ready.mono (h : Ready s n) (hm : n ≤ m) : Ready s m :=
  ⟨h.ok, h.isOpen, h.idle, h.notCompleted, h.lt.trans_le hm⟩

variable {t e : Body}

theorem exec_branch_good {thenBlock elseBlock : Block} {reads' : Reads} {n' : ℕ}
    {current' : Option ForwardedRead} (ht : Emits o uses t current reads n thenBlock)
    (he : Emits o uses e current' reads' n' elseBlock)
    (hx : ∃ x, ps.dimension args env lhs = some x) (hy : ∃ y, ps.dimension args env rhs = some y)
    (hthen : ∃ flow, thenBlock.exec ps args host env w = some flow ∧ flow.Good k)
    (helse : ∃ flow, elseBlock.exec ps args host env w = some flow ∧ flow.Good k)
    (ih : ∀ w' : World F, Ready w'.session k →
      ∃ flow, rest.exec ps args host env w' = some flow ∧ flow.Good m) :
    ∃ flow, (Block.branch lhs comparison rhs thenBlock elseBlock rest).exec ps args host env w =
      some flow ∧ flow.Good m := by
  obtain ⟨x, hx⟩ := hx
  obtain ⟨y, hy⟩ := hy
  have goOn : ∀ {b : Body} {block : Block} {reads : Reads} {n : ℕ}
      {current : Option ForwardedRead}, Emits o uses b current reads n block →
      (∃ flow, block.exec ps args host env w = some flow ∧ flow.Good k) →
      ∃ flow, (Flow.andThen (block.exec ps args host env w) fun inner w =>
        rest.exec ps args host (env.leave inner) w) = some flow ∧ flow.Good m := by
    rintro b block reads n current hb ⟨flow, hflow, hgood⟩
    rw [hflow]
    cases flow with
    | next env' w' =>
      simp only [Flow.andThen, leave_of_exec hb hflow]
      exact ih w' hgood
    | returned w' => exact ⟨_, rfl, hgood⟩
  unfold Block.exec
  rw [hx, hy]
  dsimp only
  split
  · exact goOn ht hthen
  · exact goOn he helse

theorem update_of_isSome {id' : Id} {value : Value F} (declared : Value F) (hn : env id = none)
    (h : env id' = some value) : update env id (some declared) id' = some value := by
  have hne : id' ≠ id := by rintro rfl; rw [hn] at h; cases h
  rw [update_of_ne hne, h]

theorem at_readCallOf (record : Option ForwardedRead) (op : Operation) (n : ℕ) :
    (readCallOf record op n).At n (n + 1) := by
  cases record <;> exact ⟨rfl, rfl⟩

/-- **Scoped statements run.** They are well-formed, and no call of a ready session fails for its
frontier. -/
theorem exec_ready (hb : Emits o uses b current reads n block) (hscoped : block.Scoped scope)
    (hs : InScope ps env scope) (hr : Ready w.session n) (hn : n + b.count < 2 ^ 64) :
    ∃ flow, block.exec ps args host env w = some flow ∧ flow.Good (n + b.count) := by
  induction hb generalizing scope env w with
  | nil => exact ⟨_, rfl, hr⟩
  | @read op rest current _ n block _ _ ih =>
    simp only [Body.count_cons, Body.count_nil] at hn ⊢
    rw [show n + (1 + 0 + 0 + rest.count) = n + 1 + rest.count by omega]
    exact exec_declare_good hs hscoped (target_readCallOf _ _ _) (at_readCallOf _ _ _) (by omega) hr
      fun hs hw' => ih hscoped.2.2 hs hw' (by omega)
  | @gemm op rest _ _ n block _ _ _ ih =>
    simp only [Body.count_cons, Body.count_nil] at hn ⊢
    rw [show n + (1 + 0 + 0 + rest.count) = n + 1 + rest.count by omega]
    exact exec_declare_good hs hscoped rfl ⟨rfl, rfl⟩ (by omega) hr
      fun hs hw' => ih hscoped.2.2 hs hw' (by omega)
  | @pair op consumer beyond _ reads n block p window _ ih =>
    obtain ⟨-, consumer', t', e', beyond', _, hw⟩ := headWindow_eq_some window
    obtain ⟨-, -, -, -, -, -, ra, rb, rd, -, -, -, rfl⟩ := PairDerivation.window_eq_some hw
    simp only [Body.count_cons, Body.count_nil] at hn ⊢
    rw [show n + (1 + 0 + 0 + (1 + 0 + 0 + beyond.count)) = n + 2 + beyond.count by omega]
    exact exec_declare_good hs hscoped rfl ⟨rfl, rfl, rfl⟩ (by omega) hr
      fun hs hw' => ih hscoped.2.2 hs hw' (by omega)
  | @publish op rest _ _ n block _ _ ih
  | @observe op rest _ _ n block _ _ ih =>
    simp only [Body.count_cons, Body.count_nil] at hn ⊢
    rw [show n + (1 + 0 + 0 + rest.count) = n + 1 + rest.count by omega]
    exact exec_call_good hs hscoped.1 ⟨rfl, rfl⟩ (by omega) hr
      fun _ w' hw' => ih hscoped.2 hs hw' (by omega)
  | @shapeIf op t e rest _ reads n thenBlock elseBlock block _ thenArm elseArm _
      iht ihe ihr =>
    simp only [Body.count_cons] at hn ⊢
    obtain ⟨hdims, ht, he, hrest⟩ := hscoped
    obtain ⟨hlhs, hrhs⟩ := append_subset.1 hdims
    refine exec_branch_good (k := n + 1 + t.count + e.count) thenArm elseArm
      (hs.dimension args hlhs) (hs.dimension args hrhs) ?_ ?_ fun w' hw' => ?_
    · obtain ⟨flow, h₁, h₂⟩ := iht ht hs (hr.mono (by omega)) (by omega)
      exact ⟨flow, h₁, h₂.mono (by omega)⟩
    · exact ihe he hs (hr.mono (by omega)) (by omega)
    · rw [show n + (1 + t.count + e.count + rest.count) =
        n + 1 + t.count + e.count + rest.count by omega]
      exact ihr hrest hs hw' (by omega)

end Matcore.ClosedHost
