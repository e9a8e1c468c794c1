import Matcore.Proof.Checked

/-!
# Accepted modules have linear effect chains

The path of a checked block is a chain from the token that is live before it, by induction over the
operations and those nested in them.
-/

namespace Matcore.ClosedRegion

open Except (bind_eq_ok then_eq_ok)
open List (mem_cons mem_append nil_sublist append_nil flatMap_cons)
open Mlir (Value Regions Blocks argumentScope)

variable {files : List SourceFile} {branch : Bool} {depth : ℕ} {op : Op} {ops : Ops}
variable {regions : Regions OpName Ty} {s s' after : BlockState} {f : Frame} {t : ℕ}
variable {events events' : List Event} {pending : Option Event}

/-- Every check is followed by its GEMM, and no other GEMM is there. -/
def Guarded : Option Event → List Event → Prop
  | none, [] => True
  | some _, [] => False
  | none, e :: rest => e.op.name ≠ .gemm ∧
    Guarded (if e.op.name = .checkGemm then some e else none) rest
  | some check, e :: rest => e.op.name = .gemm ∧ check.Checks e ∧ Guarded none rest

theorem Guarded.append (h : Guarded pending events) (h' : Guarded none events') :
    Guarded pending (events ++ events') := by
  induction events generalizing pending with
  | nil =>
    cases pending with
    | none => exact h'
    | some => exact h.elim
  | cons e rest ih =>
    cases pending with
    | none => exact ⟨h.1, ih h.2⟩
    | some => exact ⟨h.1, h.2.1, ih h.2.2⟩

theorem Guarded.checked {before after : List Event} {gemm : Event}
    (h : Guarded pending (before ++ gemm :: after)) (hname : gemm.op.name = .gemm) :
    (∃ check, pending = some check ∧ before = [] ∧ check.Checks gemm) ∨
      ∃ before' check, before = before' ++ [check] ∧ check.Checks gemm := by
  induction before generalizing pending with
  | nil =>
    cases pending with
    | none => exact absurd hname h.1
    | some check => exact .inl ⟨check, rfl, rfl, h.2.1⟩
  | cons e rest ih =>
    refine .inr ?_
    have hrest : ∃ pending, Guarded pending (rest ++ gemm :: after) ∧
        ∀ check, pending = some check → check = e := by
      cases pending with
      | none =>
        refine ⟨_, h.2, fun check hcheck => ?_⟩
        split_ifs at hcheck
        exact (Option.some.inj hcheck).symm
      | some => exact ⟨none, h.2.2, nofun⟩
    obtain ⟨pending', hguarded, hlast⟩ := hrest
    rcases ih hguarded with ⟨check, rfl, rfl, hchecks⟩ | ⟨before', check, rfl, hchecks⟩
    · obtain rfl := hlast check rfl
      exact ⟨[], check, rfl, hchecks⟩
    · exact ⟨e :: before', check, rfl, hchecks⟩

/-- The token `t` is live, and the cells of the frame are the values in scope. -/
structure Live (s : BlockState) (f : Frame) (t : ℕ) : Prop where
  typed : Typed s.scope f
  tensors : TensorValues s
  token : ∃ order, s.state.order = some order ∧ f.cells[order]? = some ⟨.order, t⟩

/-- The check that the next operation must be the GEMM of. -/
def Awaits (s : BlockState) (f : Frame) (t : ℕ) : Option Event → Prop
  | none => s.pendingCheck = none
  | some check => s.pendingCheck = some check.op ∧ check.op.name = .checkGemm ∧
    check.op.operands.length = 3 ∧ check.operands.tail = f.read (check.op.operands.drop 1) ∧
    check.produced = [t]

/-- The path of a block behind the token `t`. A branch yields the token that is left, a function
returns it. -/
structure Segment (branch : Bool) (t : ℕ) (pending : Option Event) (r : Outcome) : Prop where
  chain : ∃ last, Token.Chain Event.consumed Event.produced t (effects r.events) last ∧
    r.yielded = last.toList.map (⟨.order, ·⟩) ∧ last.isSome = branch
  returns : ∀ e ∈ effects r.events, e.produced = [] → e.op.name = .funcReturn
  others : ∀ e ∈ r.events, e.isEffect = false →
    e.produced = [] ∧ (e.op.name ≠ .gemm → e.consumed = [])
  guarded : Guarded pending r.events

theorem effects_cons {e : Event} :
    effects (e :: events) = if e.isEffect then e :: effects events else effects events := by
  unfold effects
  rw [List.filter_cons]

theorem effects_append : effects (events ++ events') = effects events ++ effects events' :=
  List.filter_append ..

variable {e : Event} {t' : ℕ} {r r' : Outcome}

/-- The path of an operation and of those behind it. -/
def Outcome.behind (e : Event) (r : Outcome) : Outcome := ⟨e :: r.events, r.frame, r.yielded⟩

theorem Segment.effect (h : Segment branch t' pending r) (heffect : e.isEffect = true)
    (hconsumed : e.consumed = [t]) (hproduced : e.produced = [t'])
    (hpending : pending = if e.op.name = .checkGemm then some e else none) :
    Segment branch t none (.behind e r) := by
  obtain ⟨last, hchain, hyielded, hlast⟩ := h.chain
  have heffects : effects (e :: r.events) = e :: effects r.events := by
    rw [effects_cons, if_pos heffect]
  refine ⟨⟨last, ?_, hyielded, hlast⟩, ?_, ?_, ?_⟩
  · exact heffects ▸ .step hconsumed hproduced hchain
  · intro x hx hnone
    rw [Outcome.behind, heffects] at hx
    rcases mem_cons.1 hx with rfl | hx
    · rw [hproduced] at hnone
      cases hnone
    · exact h.returns x hx hnone
  · intro x hx hother
    rcases mem_cons.1 hx with rfl | hx
    · rw [heffect] at hother
      cases hother
    · exact h.others x hx hother
  · refine ⟨?_, hpending ▸ h.guarded⟩
    intro hname
    simp [Event.isEffect, hname] at heffect

theorem Segment.other (h : Segment branch t none r) (heffect : e.isEffect = false)
    (hproduced : e.produced = [])
    (hconsumed : (e.op.name ≠ .gemm ∧ pending = none ∧ e.consumed = []) ∨
      ∃ check, e.op.name = .gemm ∧ pending = some check ∧ check.Checks e) :
    Segment branch t pending (.behind e r) := by
  have heffects : effects (e :: r.events) = effects r.events := by
    rw [effects_cons, if_neg (by simp [heffect])]
  refine ⟨?_, ?_, ?_, ?_⟩
  · obtain ⟨last, hchain, hyielded, hlast⟩ := h.chain
    exact ⟨last, heffects ▸ hchain, hyielded, hlast⟩
  · intro x hx hnone
    rw [Outcome.behind, heffects] at hx
    exact h.returns x hx hnone
  · intro x hx hother
    rcases mem_cons.1 hx with rfl | hx
    · refine ⟨hproduced, fun hname => ?_⟩
      rcases hconsumed with ⟨-, -, hnone⟩ | ⟨check, hgemm, -, -⟩
      · exact hnone
      · exact absurd hgemm hname
    · exact h.others x hx hother
  · rcases hconsumed with ⟨hname, rfl, -⟩ | ⟨check, hgemm, rfl, hchecks⟩
    · refine ⟨hname, ?_⟩
      rw [if_neg]
      · exact h.guarded
      · intro hcheck
        simp [Event.isEffect, hcheck] at heffect
    · exact ⟨hgemm, hchecks, h.guarded⟩

theorem Segment.append (h : Segment true t none r)
    (h' : ∀ t', r.yielded = [⟨.order, t'⟩] → Segment branch t' none r') :
    Segment branch t none ⟨r.events ++ r'.events, r'.frame, r'.yielded⟩ := by
  obtain ⟨last, hchain, hyielded, hlast⟩ := h.chain
  obtain ⟨t', rfl⟩ := Option.isSome_iff_exists.1 hlast
  have hbehind := h' t' hyielded
  obtain ⟨last', hchain', hyielded', hlast'⟩ := hbehind.chain
  refine ⟨⟨last', ?_, hyielded', hlast'⟩, ?_, ?_, h.guarded.append hbehind.guarded⟩
  · rw [effects_append]
    exact hchain.append hchain'
  · intro x hx hnone
    rw [effects_append] at hx
    exact (mem_append.1 hx).elim (h.returns x · hnone) (hbehind.returns x · hnone)
  · intro x hx hother
    exact (mem_append.1 hx).elim (h.others x · hother) (hbehind.others x · hother)

variable {scope : Definitions}

theorem Typed.length (h : Typed scope f) : f.cells.length = scope.length := by
  have hlength := congrArg List.length h
  simpa using hlength

variable {next : ℕ} {decisions : List Bool}

theorem read_grow {vs : List Value} {more : List Cell} (h : ∀ v ∈ vs, v < f.cells.length) :
    Frame.read ⟨f.cells ++ more, next, decisions⟩ vs = f.read vs := by
  unfold Frame.read
  refine List.filterMap_congr fun v hv => ?_
  exact List.getElem?_append_left (h v hv)

theorem run_cons {rest : Ops} (hyield : op.name ≠ .yield) (hshapeIf : op.name ≠ .shapeIf) :
    run (.cons op regions rest) f = .behind (f.event op) (run rest (f.step op)) := by
  conv_lhs => unfold run
  rw [if_neg hyield, if_neg hshapeIf]
  rfl

theorem tensors_grow {values : List Value} (h : TensorValues s)
    (hvalues : ∀ v ∈ values, v ∈ s.state.values ∨
      v = s.scope.length ∧ isTensor op.results.head? = true) :
    ∀ v ∈ values, isTensor (Mlir.Scope.type (s.scope ++ op.definitions) v) = true := by
  intro v hv
  rcases hvalues v hv with hold | ⟨rfl, htensor⟩
  · have htype := h v hold
    cases htypeEq : s.scope.type v with
    | none =>
      rw [htypeEq] at htype
      cases htype
    | some type =>
      rw [Mlir.Scope.type_append htypeEq, ← htypeEq]
      exact htype
  · cases hhead : op.results.head? with
    | none =>
      rw [hhead] at htensor
      cases htensor
    | some type =>
      rw [List.head?_eq_getElem?] at hhead
      have hresult := Mlir.Scope.type_result s.scope op hhead
      rw [Nat.add_zero] at hresult
      rw [hresult, ← hhead, ← List.head?_eq_getElem?]
      exact htensor

variable {results : Option (List Ty)}

theorem operands_lt (h : opWellFormed results scope op regions = true) :
    ∀ v ∈ op.operands, v < scope.length := by
  unfold opWellFormed at h
  rw [Bool.and_eq_true, List.all_eq_true] at h
  exact fun v hv => of_decide_eq_true (h.1 v hv)

variable {types : List Ty}

theorem live_step (hl : Live s f t) (hresults : op.results = types ++ [.order])
    (htoken : after.state.order = some (s.scope.length + types.length))
    (hvalues : ∀ v ∈ after.state.values, v ∈ s.state.values ∨
      v = s.scope.length ∧ isTensor op.results.head? = true) :
    Live { after with scope := s.scope ++ op.definitions } (f.step op) (f.next + types.length) where
  typed := hl.typed.define op
  tensors := tensors_grow hl.tensors hvalues
  token := by
    refine ⟨_, htoken, ?_⟩
    have hlength := length_newCells f.next types
    unfold Frame.step
    rw [hresults, newCells_append, ← hl.typed.length,
      List.getElem?_append_right (Nat.le_add_right _ _), Nat.add_sub_cancel_left,
      List.getElem?_append_right hlength.le, hlength, Nat.sub_self]
    rfl

theorem produced_effect (hresults : op.results = types ++ [.order]) (hplain : Ty.order ∉ types) :
    (f.event op).produced = [f.next + types.length] := by
  unfold Event.produced Frame.event
  rw [hresults, newCells_append, tokens_append, tokens_newCells_other hplain]
  rfl

/-- The path of the operations behind `op` makes a segment. -/
def Behind (branch : Bool) (scope : Definitions) (after : BlockState) (op : Op) (f : Frame)
    (rest : Ops) : Prop :=
  ∀ {t : ℕ} (pending : Option Event),
    Live { after with scope := scope ++ op.definitions } (f.step op) t →
    Awaits { after with scope := scope ++ op.definitions } (f.step op) t pending →
    Segment branch t pending (run rest (f.step op))

theorem Awaits.eq_none (hp : Awaits s f t pending) (h : s.pendingCheck = none) : pending = none := by
  cases pending with
  | none => rfl
  | some check =>
    obtain ⟨hcheck, -⟩ := hp
    rw [h] at hcheck
    cases hcheck

variable {rest : Ops}

section

variable (hl : Live s f t) (hp : Awaits s f t pending)

include hl hp

theorem segment_extent (hname : op.name.isExtent = true) (hpending : s.pendingCheck = none)
    (hoperands : ∀ v ∈ op.operands, s.scope.type v ≠ some .order) (hresults : Ty.order ∉ op.results)
    (ih : Behind branch s.scope s op f rest) :
    Segment branch t pending (run (.cons op regions rest) f) := by
  obtain ⟨order, horder, hcell⟩ := hl.token
  obtain rfl := hp.eq_none hpending
  have hnames : op.name ≠ .yield ∧ op.name ≠ .shapeIf ∧ op.name ≠ .gemm := by
    refine ⟨?_, ?_, ?_⟩
    all_goals
      intro h
      rw [h] at hname
      cases hname
  have hother : (f.event op).isEffect = false := by
    unfold OpName.isExtent at hname
    simp only [Bool.or_eq_true, beq_iff_eq] at hname
    rcases hname with (hname | hname) | hname
    all_goals simp [Event.isEffect, Frame.event, hname]
  have hlt : order < f.cells.length := (List.getElem?_eq_some_iff.1 hcell).1
  have hlive : Live { s with scope := s.scope ++ op.definitions } (f.step op) t :=
    ⟨hl.typed.define op, tensors_grow hl.tensors fun v hv => .inl hv,
      order, horder, by rw [Frame.step, List.getElem?_append_left hlt, hcell]⟩
  rw [run_cons hnames.1 hnames.2.1]
  exact (ih none hlive hpending).other hother (tokens_newCells_other hresults _)
    (.inl ⟨hnames.2.2, rfl, tokens_other hl.typed hoperands⟩)

section

variable {order : Value} {others : List Value} (horder : s.state.order = some order)
  (hoperands : op.operands = order :: others)
  (hothers : ∀ v ∈ others, s.scope.type v ≠ some .order)
  (hvalues : ∀ v ∈ after.state.values, v ∈ s.state.values ∨
    v = s.scope.length ∧ isTensor op.results.head? = true)
  (ih : Behind branch s.scope after op f rest)

include horder hoperands hothers hvalues ih

theorem segment_effect (hrange : ∀ v ∈ op.operands, v < f.cells.length)
    (hname : op.name ∈ [OpName.read, .checkGemm, .publish, .observe])
    (hpending : s.pendingCheck = none) (hresults : op.results = types ++ [.order])
    (hplain : Ty.order ∉ types) (htoken : after.state.order = some (s.scope.length + types.length))
    (hchecks : after.pendingCheck = if op.name = .checkGemm then some op else none)
    (htriple : op.name = .checkGemm → op.operands.length = 3) :
    Segment branch t pending (run (.cons op regions rest) f) := by
  obtain ⟨order', horder', hcell⟩ := hl.token
  cases horder.symm.trans horder'
  obtain rfl := hp.eq_none hpending
  have hnames : op.name ≠ .yield ∧ op.name ≠ .shapeIf := by
    refine ⟨?_, ?_⟩
    all_goals
      intro h
      simp [h] at hname
  have heffect : (f.event op).isEffect = true := by
    simp only [mem_cons, List.not_mem_nil, or_false] at hname
    rcases hname with hname | hname | hname | hname
    all_goals simp [Event.isEffect, Frame.event, hname]
  have hconsumed : (f.event op).consumed = [t] := by
    unfold Event.consumed Frame.event
    rw [hoperands]
    exact tokens_live hl.typed hcell hothers
  have hproduced := produced_effect (f := f) hresults hplain
  have hlive := live_step hl hresults htoken hvalues
  rw [run_cons hnames.1 hnames.2]
  by_cases hcheck : op.name = .checkGemm
  · rw [if_pos hcheck] at hchecks
    refine (ih (some (f.event op)) hlive ?_).effect heffect hconsumed hproduced
      (if_pos hcheck).symm
    refine ⟨hchecks, hcheck, htriple hcheck, ?_, hproduced⟩
    have htail : (f.event op).operands.tail = f.read others := by
      unfold Frame.event
      rw [hoperands, read_cons]
      simp [Frame.read, hcell]
    rw [hoperands] at hrange
    show _ = (f.step op).read (op.operands.drop 1)
    rw [htail, hoperands]
    exact (read_grow fun v hv => hrange v (List.mem_cons_of_mem _ hv)).symm
  · rw [if_neg hcheck] at hchecks
    exact (ih none hlive hchecks).effect heffect hconsumed hproduced
      (if_neg hcheck).symm

theorem segment_gemm {check : Op} (hname : op.name = .gemm)
    (hpending : s.pendingCheck = some check) (hpair : others.length = 2)
    (hresults : Ty.order ∉ op.results) (htoken : after.state.order = s.state.order)
    (hchecks : after.pendingCheck = none)
    (hsame : check.operands[1]? = op.operands[1]? ∧ check.operands[2]? = op.operands[2]?)
    (hprofile : check.attributes.get "numerical_profile" = op.attributes.get "numerical_profile") :
    Segment branch t pending (run (.cons op regions rest) f) := by
  obtain ⟨order', horder', hcell⟩ := hl.token
  cases horder.symm.trans horder'
  have hlt : order < f.cells.length := (List.getElem?_eq_some_iff.1 hcell).1
  have hlive : Live { after with scope := s.scope ++ op.definitions } (f.step op) t :=
    ⟨hl.typed.define op, tensors_grow hl.tensors hvalues,
      order, htoken.trans horder, by rw [Frame.step, List.getElem?_append_left hlt, hcell]⟩
  have hconsumed : (f.event op).consumed = [t] := by
    unfold Event.consumed Frame.event
    rw [hoperands]
    exact tokens_live hl.typed hcell hothers
  rw [run_cons (by simp [hname]) (by simp [hname])]
  refine (ih none hlive hchecks).other (by simp [Event.isEffect, Frame.event, hname])
    (tokens_newCells_other hresults _) (.inr ?_)
  cases pending with
  | none =>
    rw [show s.pendingCheck = none from hp] at hpending
    cases hpending
  | some e =>
    obtain ⟨hcheck, hcheckName, hlength, htail, hproduced⟩ := hp
    cases hcheck.symm.trans hpending
    refine ⟨e, hname, rfl, hcheckName, ?_, hprofile, hproduced.trans hconsumed.symm⟩
    -- the operands behind the token are the same values
    obtain ⟨a, b, c, hcheckOperands⟩ := List.length_eq_three.1 hlength
    obtain ⟨lhs, rhs, rfl⟩ := List.length_eq_two.1 hpair
    rw [hcheckOperands, hoperands] at hsame
    cases hsame.1
    cases hsame.2
    rw [htail, hcheckOperands]
    unfold Frame.event
    rw [hoperands, read_cons order]
    simp [Frame.read, hcell]

end

theorem segment_terminator
    (hname : op.name = if branch then .yield else .funcReturn) (horder : s.state.order = some order)
    (hoperands : op.operands = [order]) (hresults : op.results = [])
    (hpending : s.pendingCheck = none) :
    Segment branch t pending (run (.cons op regions .nil) f) := by
  obtain ⟨order', horder', hcell⟩ := hl.token
  cases horder.symm.trans horder'
  obtain rfl := hp.eq_none hpending
  cases branch with
  | true =>
    have hrun : run (.cons op regions .nil) f = ⟨[], f, [⟨.order, t⟩]⟩ := by
      have hyield : op.name = .yield := hname
      unfold run
      rw [if_pos hyield, hoperands]
      simp [Frame.read, hcell]
    rw [hrun]
    exact ⟨⟨some t, .nil t, rfl, rfl⟩, by simp [effects], by simp, trivial⟩
  | false =>
    have hreturn : op.name = .funcReturn := hname
    have hconsumed : (f.event op).consumed = [t] := by
      unfold Event.consumed Frame.event
      rw [hoperands]
      exact tokens_live hl.typed hcell (by simp)
    have hproduced : (f.event op).produced = [] := by
      unfold Event.produced Frame.event
      rw [hresults]
      rfl
    have heffect : (f.event op).isEffect = true := by simp [Event.isEffect, Frame.event, hreturn]
    have hrun : run (.cons op regions .nil) f = ⟨[f.event op], f.step op, []⟩ := by
      rw [run_cons (by simp [hreturn]) (by simp [hreturn])]
      rfl
    have heffects : effects [f.event op] = [f.event op] := by
      rw [effects_cons, if_pos heffect]
      rfl
    rw [hrun]
    refine ⟨⟨none, ?_, rfl, rfl⟩, ?_, ?_, ?_⟩
    · show Token.Chain _ _ t (effects [f.event op]) none
      rw [heffects]
      exact .last hconsumed hproduced
    · intro e he _
      rw [heffects, List.mem_singleton] at he
      exact he ▸ hreturn
    · intro e he hother
      rw [List.mem_singleton.1 he, heffect] at hother
      cases hother
    · refine ⟨by simp [Frame.event, hreturn], ?_⟩
      rw [if_neg (by simp [Frame.event, hreturn])]
      trivial

end

/-- The frame in which a branch begins, and the one behind it. -/
def Frame.enter (f : Frame) (t : ℕ) : Frame := ⟨f.cells ++ [⟨.order, t⟩], f.next, f.decisions.tail⟩

def Frame.leave (f branch : Frame) (t : ℕ) : Frame :=
  ⟨f.cells ++ [⟨.order, t⟩], branch.next, branch.decisions⟩

theorem live_token {token : Mlir.Definition OpName Ty} (hl : Live s f t)
    (htype : token.type = .order) (horder : after.state.order = some s.scope.length)
    (hvalues : after.state.values = s.state.values) (hscope : scope = s.scope ++ [token]) :
    Live { after with scope := scope } ⟨f.cells ++ [⟨.order, t'⟩], next, decisions⟩ t' := by
  subst hscope
  refine ⟨?_, ?_, _, horder, ?_⟩
  · have htyped := hl.typed
    unfold Typed at htyped ⊢
    simp [htyped, htype]
  · intro v hv
    rw [hvalues] at hv
    have htensor := hl.tensors v hv
    cases htypeEq : s.scope.type v with
    | none =>
      rw [htypeEq] at htensor
      cases htensor
    | some type =>
      rw [Mlir.Scope.type_append htypeEq, ← htypeEq]
      exact htensor
  · rw [← hl.typed.length]
    simp

theorem segment_shapeIf {thenOps elseOps : Ops} {condition : Value} (hl : Live s f t)
    (hp : Awaits s f t pending) (hname : op.name = .shapeIf)
    (hb : Branches files depth s op thenOps elseOps order condition after)
    (hthen : Segment true t none (run thenOps (f.enter t)))
    (helse : Segment true t none (run elseOps (f.enter t))) (ih : ∀ {t' : ℕ} {g : Frame},
      Live { after with scope := s.scope ++ op.definitions } (f.leave g t') t' →
      Segment branch t' none (run rest (f.leave g t'))) :
    Segment branch t pending (run (.cons op (.cons (.cons [.order] thenOps .nil)
      (.cons (.cons [.order] elseOps .nil) .nil)) rest) f) := by
  obtain ⟨order', horder', hcell⟩ := hl.token
  cases hb.live.symm.trans horder'
  obtain rfl := hp.eq_none hb.pending
  have hbranch : f.branch op = f.enter t := by
    unfold Frame.branch
    rw [hb.operands, read_cons]
    simp [Frame.read, hcell, Frame.enter]
  set taken := if f.decisions.headD true then run thenOps (f.enter t) else run elseOps (f.enter t)
    with htaken
  have hrun : run (.cons op (.cons (.cons [.order] thenOps .nil)
      (.cons (.cons [.order] elseOps .nil) .nil)) rest) f =
      ⟨taken.events ++ (run rest (f.join taken)).events, (run rest (f.join taken)).frame,
        (run rest (f.join taken)).yielded⟩ := by
    conv_lhs => unfold run
    rw [if_neg (by simp [hname]), if_pos hname]
    rw [hbranch]
  have hsegment : Segment true t none taken := by
    rw [htaken]
    split_ifs
    · exact hthen
    · exact helse
  rw [hrun]
  refine hsegment.append fun t' hyielded => ?_
  unfold Frame.join
  rw [hyielded]
  have htoken : Mlir.Op.definitions op = [⟨.order, some op⟩] := by
    simp [Mlir.Op.definitions, hb.results]
  exact ih (live_token hl rfl hb.token hb.values (by rw [htoken]))

theorem live_branch {entry : BlockState} (hl : Live s f t) (hscope : entry.scope = s.scope)
    (hstate : entry.state = s.state) : Live entry.branch (f.enter t) t := by
  have horder : entry.branch.state.order = some s.scope.length := by
    rw [← hscope]
    rfl
  have hvalues : entry.branch.state.values = s.state.values := by
    rw [← hstate]
    rfl
  have hgrown : s.scope ++ argumentScope [.order] = s.scope ++ [⟨.order, none⟩] := rfl
  have hlive : Live { entry.branch with scope := s.scope ++ argumentScope [.order] } (f.enter t) t :=
    live_token hl rfl horder hvalues hgrown
  rw [← hscope] at hlive
  exact hlive

theorem run_chain (hwell : opsWellFormed results s.scope ops = true)
    (h : verifyOps files branch depth ops s = .ok s') (hend : s'.ended = true)
    (hrunning : s.ended = false) (hl : Live s f t) (hp : Awaits s f t pending) :
    Segment branch t pending (run ops f) := by
  induction ops using Mlir.Ops.induction generalizing results branch depth s s' f t pending with
  | nil =>
    rw [opsWellFormed] at hwell
    cases hwell
  | cons op regions rest nested ih =>
    obtain ⟨hop, hregions, hrest⟩ := opsWellFormed_cons hwell
    obtain ⟨-, after, hbehind, hcases⟩ := verifyOps_cons h
    have behind : op.name.isTerminator = false → after.ended = s.ended →
        Behind branch s.scope after op f rest :=
      fun hname hended _ _ hlive hawaits =>
        ih (hrest hname) hbehind hend (hended.trans hrunning) hlive hawaits
    rcases hcases with ⟨-, hchecked⟩ | ⟨hname, thenOps, elseOps, order, condition, rfl, hb⟩
    · have hrange : ∀ v ∈ op.operands, v < f.cells.length := hl.typed.length ▸ operands_lt hop
      cases checked_of_verifyOp hl.tensors hop hchecked with
      | terminator name live operands results pending =>
        -- nothing follows a terminator
        cases rest with
        | nil => exact segment_terminator hl hp name live operands results pending
        | cons => cases (verifyOps_cons hbehind).1
      | begin _ _ live =>
        obtain ⟨order, horder, -⟩ := hl.token
        rw [live] at horder
        cases horder
      | extent name pending operands results =>
        refine segment_extent hl hp name pending operands results (behind ?_ rfl)
        cases hn : op.name <;> simp [OpName.isExtent, hn] at name <;> rfl
      | effect name live pending operands others results plain _ token checks triple values running =>
        refine segment_effect hl hp live operands others values (behind ?_ running) hrange name
          pending results plain token checks triple
        cases hn : op.name <;> simp [hn] at name <;> rfl
      | gemm name live pending operands others pair results _ token checks same profile values
          running =>
        refine segment_gemm hl hp live operands others values (behind ?_ running) name pending pair
          results token checks same profile
        rw [name]
        rfl
    · simp only [regionsWellFormed, Bool.and_eq_true, and_true] at hregions
      have taken : ∀ {ops : Ops}, ops ∈ [thenOps, elseOps] →
          opsWellFormed none (s.scope ++ argumentScope [.order]) ops = true →
          BranchChecked files (depth + 1) s ops → Segment true t none (run ops (f.enter t)) := by
        rintro ops hmem hops ⟨entry, last, hscope, hstate, hverified, hended⟩
        rw [← hscope] at hops
        exact nested ops (by simpa [Regions.bodies, Blocks.bodies] using hmem) hops hverified
          hended rfl (live_branch hl hscope hstate) rfl
      refine segment_shapeIf hl hp hname hb (taken (by simp) hregions.1 hb.thenChecked)
        (taken (by simp) hregions.2 hb.elseChecked) fun hlive => ?_
      exact ih (hrest (by rw [hname]; rfl)) hbehind hend (hb.running.trans hrunning) hlive hb.checks

/-- The path of a function, from before its first token. -/
structure Entry (events : List Event) : Prop where
  chain : ∃ (first : Event) (t : ℕ) (rest : List Event), effects events = first :: rest ∧
    first.op.name = .begin ∧ first.consumed = [] ∧ first.produced = [t] ∧
    Token.Chain Event.consumed Event.produced t rest none ∧
    ∀ e ∈ rest, e.produced = [] → e.op.name = .funcReturn
  others : ∀ e ∈ events, e.isEffect = false →
    e.produced = [] ∧ (e.op.name ≠ .gemm → e.consumed = [])
  guarded : Guarded none events

theorem Entry.other (h : Entry events) (heffect : e.isEffect = false) (hname : e.op.name ≠ .gemm)
    (hproduced : e.produced = []) (hconsumed : e.consumed = []) : Entry (e :: events) where
  chain := by
    rw [effects_cons, if_neg (by simp [heffect])]
    exact h.chain
  others := by
    intro x hx hother
    rcases mem_cons.1 hx with rfl | hx
    · exact ⟨hproduced, fun _ => hconsumed⟩
    · exact h.others x hx hother
  guarded := by
    refine ⟨hname, ?_⟩
    rw [if_neg]
    · exact h.guarded
    · intro hcheck
      simp [Event.isEffect, hcheck] at heffect

theorem Segment.entry (h : Segment false t none r) (hname : e.op.name = .begin)
    (hconsumed : e.consumed = []) (hproduced : e.produced = [t]) : Entry (e :: r.events) where
  chain := by
    obtain ⟨last, hchain, -, hlast⟩ := h.chain
    have heffect : e.isEffect = true := by simp [Event.isEffect, hname]
    rw [effects_cons, if_pos heffect]
    cases last with
    | none => exact ⟨e, t, _, rfl, hname, hconsumed, hproduced, hchain, h.returns⟩
    | some => cases hlast
  others := by
    intro x hx hother
    rcases mem_cons.1 hx with rfl | hx
    · simp [Event.isEffect, hname] at hother
    · exact h.others x hx hother
  guarded := by
    refine ⟨by simp [hname], ?_⟩
    rw [if_neg (by simp [hname])]
    exact h.guarded

/-- **The path of a checked function block** starts the chain at its `begin`. -/
theorem run_entry (hwell : opsWellFormed results s.scope ops = true)
    (h : verifyOps files false depth ops s = .ok s') (hend : s'.ended = true)
    (hrunning : s.ended = false) (htyped : Typed s.scope f) (htensors : TensorValues s)
    (horder : s.state.order = none) (hpending : s.pendingCheck = none) :
    Entry (run ops f).events := by
  induction ops using Mlir.Ops.induction generalizing s f with
  | nil =>
    rw [opsWellFormed] at hwell
    cases hwell
  | cons op regions rest _ ih =>
    obtain ⟨hop, -, hrest⟩ := opsWellFormed_cons hwell
    obtain ⟨-, after, hbehind, hcases⟩ := verifyOps_cons h
    rcases hcases with ⟨-, hchecked⟩ | ⟨-, _, _, _, _, -, hb⟩
    · cases checked_of_verifyOp htensors hop hchecked with
      | extent name _ operands results =>
        -- an extent has no token, so the chain starts in the rest of the block
        have hnames : op.name ≠ .yield ∧ op.name ≠ .shapeIf ∧ op.name.isTerminator = false ∧
            op.name ≠ .gemm ∧ (f.event op).isEffect = false := by
          cases hn : op.name
          all_goals simp [OpName.isExtent, hn] at name
          all_goals simp [OpName.isTerminator, Event.isEffect, Frame.event, hn]
        have hgrow : TensorValues { s with scope := s.scope ++ op.definitions } :=
          tensors_grow htensors fun v hv => .inl hv
        rw [run_cons hnames.1 hnames.2.1]
        exact (ih (hrest hnames.2.2.1) hbehind hrunning (htyped.define op) hgrow horder
          hpending).other hnames.2.2.2.2 hnames.2.2.2.1 (tokens_newCells_other results _)
          (tokens_other htyped operands)
      | begin name _ _ operands results =>
        have hlength := htyped.length
        have hlive : Live { s with
              scope := s.scope ++ op.definitions
              state := { s.state with order := some s.scope.length } } (f.step op) f.next := by
          refine ⟨htyped.define op, tensors_grow htensors fun v hv => .inl hv, _, rfl, ?_⟩
          rw [← hlength]
          simp [Frame.step, results, newCells]
        have hsegment : Segment false f.next none (run rest (f.step op)) :=
          run_chain (hrest (by rw [name]; rfl)) hbehind hend hrunning hlive hpending
        rw [run_cons (by simp [name]) (by simp [name])]
        refine hsegment.entry name ?_ ?_
        · unfold Event.consumed Frame.event
          rw [operands]
          rfl
        · unfold Event.produced Frame.event
          rw [results]
          rfl
      | terminator _ live | effect _ live | gemm _ live =>
        rw [horder] at live
        cases live
    · have hlive := hb.live
      rw [horder] at hlive
      cases hlive

theorem tokens_newCells_cons (next : ℕ) (type : Ty) (rest : List Ty) :
    tokens (newCells next (type :: rest)) =
      tokens [⟨type, next⟩] ++ tokens (newCells (next + 1) rest) :=
  tokens_append [⟨type, next⟩] _

theorem eq_of_mem_tokens {x : ℕ} {type : Ty} (h : x ∈ tokens [⟨type, next⟩]) : x = next := by
  unfold tokens at h
  simp at h
  exact h.2.symm

theorem mem_newCells {x : ℕ} (h : x ∈ tokens (newCells next types)) :
    next ≤ x ∧ x < next + types.length := by
  induction types generalizing next with
  | nil => cases h
  | cons type rest ih =>
    rw [tokens_newCells_cons, mem_append] at h
    rw [List.length_cons]
    rcases h with h | h
    · have heq := eq_of_mem_tokens h
      omega
    · have hbounds := ih h
      omega

theorem nodup_newCells (next : ℕ) (types : List Ty) : (tokens (newCells next types)).Nodup := by
  induction types generalizing next with
  | nil => exact List.nodup_nil
  | cons type rest ih =>
    rw [tokens_newCells_cons]
    refine List.nodup_append.2 ⟨?_, ih (next + 1), ?_⟩
    · by_cases htype : type = .order <;> simp [tokens, htype]
    · intro x hx y hy heq
      have hbounds := mem_newCells hy
      have hnext := eq_of_mem_tokens hx
      omega

/-- The tokens that a stretch of a path produces are new. -/
structure Stretch (low high : ℕ) (events : List Event) : Prop where
  le : low ≤ high
  bounds : ∀ x ∈ events.flatMap (·.produced), low ≤ x ∧ x < high
  nodup : (events.flatMap (·.produced)).Nodup

theorem Stretch.nil (n : ℕ) : Stretch n n [] := ⟨le_rfl, by simp, by simp⟩

variable {low high : ℕ}

theorem Stretch.append {mid : ℕ} (h : Stretch low mid events) (h' : Stretch mid high events') :
    Stretch low high (events ++ events') where
  le := h.le.trans h'.le
  bounds := by
    intro x hx
    rw [List.flatMap_append, mem_append] at hx
    rcases hx with hx | hx
    · exact ⟨(h.bounds x hx).1, (h.bounds x hx).2.trans_le h'.le⟩
    · exact ⟨h.le.trans (h'.bounds x hx).1, (h'.bounds x hx).2⟩
  nodup := by
    rw [List.flatMap_append]
    refine List.nodup_append.2 ⟨h.nodup, h'.nodup, ?_⟩
    intro x hx y hy heq
    have hlow := (h.bounds x hx).2
    have hhigh := (h'.bounds y hy).1
    omega

theorem stretch_event (f : Frame) (op : Op) :
    Stretch f.next (f.step op).next [f.event op] := by
  have hflat : [f.event op].flatMap (·.produced) = tokens (newCells f.next op.results) := by
    simp [Frame.event, Event.produced]
  refine ⟨Nat.le_add_right _ _, ?_, ?_⟩
  · rw [hflat]
    exact fun x hx => mem_newCells hx
  · rw [hflat]
    exact nodup_newCells _ _

theorem stretch_run (ops : Ops) (f : Frame) :
    Stretch f.next (run ops f).frame.next (run ops f).events := by
  induction ops using Mlir.Ops.induction generalizing f with
  | nil => exact .nil _
  | cons op regions rest nested ih =>
    by_cases hyield : op.name = .yield
    · unfold run
      rw [if_pos hyield]
      exact .nil _
    by_cases hshapeIf : op.name = .shapeIf
    · unfold run
      rw [if_neg hyield, if_pos hshapeIf]
      split
      · rename_i _ thenOps _ elseOps
        have hthen := nested thenOps (by simp [Regions.bodies, Blocks.bodies])
        have helse := nested elseOps (by simp [Regions.bodies, Blocks.bodies])
        split_ifs
        · exact (hthen (f.branch op)).append (ih (f.join (run thenOps (f.branch op))))
        · exact (helse (f.branch op)).append (ih (f.join (run elseOps (f.branch op))))
      · exact .nil _
    rw [run_cons hyield hshapeIf]
    exact (stretch_event f op).append (ih (f.step op))

theorem textual_run (ops : Ops) (f : Frame) :
    ((run ops f).events.map (·.op)).Sublist (opsText ops) := by
  induction ops using Mlir.Ops.induction generalizing f with
  | nil => exact nil_sublist _
  | cons op regions rest nested ih =>
    rw [opsText]
    by_cases hyield : op.name = .yield
    · unfold run
      rw [if_pos hyield]
      exact nil_sublist _
    by_cases hshapeIf : op.name = .shapeIf
    · unfold run
      rw [if_neg hyield, if_pos hshapeIf]
      split
      · rename_i _ thenOps _ elseOps
        have hthen := nested thenOps (by simp [Regions.bodies, Blocks.bodies])
        have helse := nested elseOps (by simp [Regions.bodies, Blocks.bodies])
        simp only [regionsText, blocksText, append_nil, List.map_append]
        split_ifs
        · exact .cons _ (((hthen _).trans (List.sublist_append_left _ _)).append (ih _))
        · exact .cons _ (((helse _).trans (List.sublist_append_right _ _)).append (ih _))
      · exact nil_sublist _
    rw [run_cons hyield hshapeIf]
    exact .cons_cons _ ((ih (f.step op)).trans (List.sublist_append_right _ _))

theorem producers_effects (h : ∀ e ∈ events, e.isEffect = false → e.produced = []) :
    (effects events).flatMap (·.produced) = events.flatMap (·.produced) := by
  induction events with
  | nil => rfl
  | cons e rest ih =>
    have hrest := ih fun x hx => h x (List.mem_cons_of_mem _ hx)
    rw [effects_cons, flatMap_cons]
    by_cases heffect : e.isEffect = true
    · rw [if_pos heffect, flatMap_cons, hrest]
    · rw [if_neg heffect, hrest, h e List.mem_cons_self (by simpa using heffect)]
      rfl

theorem Entry.linear {text : List Op} (h : Entry events) (hs : Stretch low high events)
    (ht : (events.map (·.op)).Sublist text) : Linear text events := by
  obtain ⟨first, t, rest, heffects, hname, hconsumed, hproduced, hchain, hreturns⟩ := h.chain
  have hproducers := producers_effects fun e he hother => (h.others e he hother).1
  have hnodup : ((first :: rest).flatMap Event.produced).Nodup := by
    rw [← heffects]
    exact hproducers ▸ hs.nodup
  refine ⟨⟨first, t, rest, heffects, hname, hconsumed, hproduced, hchain, hreturns⟩,
    ⟨hs.nodup, ?_⟩, h.others, ?_, ht, ?_⟩
  · intro e he x hx
    -- the chain consumes what it produces
    have hbalance := hchain.balance
    rw [Option.toList_none, append_nil] at hbalance
    have hconsumes : (effects events).flatMap Event.consumed =
        (effects events).flatMap Event.produced := by
      rw [heffects, flatMap_cons, flatMap_cons, hconsumed, hproduced, hbalance]
      rfl
    show ((effects events).flatMap Event.consumed).count x = 1
    rw [hconsumes, hproducers]
    exact List.count_eq_one_of_mem hs.nodup (List.mem_flatMap.2 ⟨e, he, hx⟩)
  · intro before gemm after hsplit hgemm
    have hguarded := h.guarded
    rw [hsplit] at hguarded
    rcases hguarded.checked hgemm with ⟨check, hnone, -⟩ | hchecked
    · cases hnone
    · exact hchecked
  · intro order hperm hrespects
    rw [heffects] at hperm ⊢
    exact hchain.unique_schedule hproduced hnodup hperm hrespects

variable {function : Function}

theorem verifyFunctions_inv {body : List TopLevel} (h : verifyFunctions files body = .ok ())
    (hf : .function function ∈ body) : verifyFunction files function = .ok () := by
  induction body with
  | nil => cases hf
  | cons first rest ih =>
    cases first with
    | other => cases h
    | function f =>
      obtain ⟨_, hfirst, hrest⟩ := bind_eq_ok h
      rcases mem_cons.1 hf with heq | hf
      · cases heq
        exact hfirst
      · exact ih hrest hf

/-- Every path of a checked function is linear. -/
theorem function_linear (hwell : function.wellFormed = true)
    (h : verifyFunction files function = .ok ()) (decisions : List Bool) :
    Linear function.text (pathOf function decisions) := by
  unfold verifyFunction at h
  unfold Function.wellFormed at hwell
  unfold pathOf Function.text
  split at h
  · rename_i arguments ops hbody
    rw [hbody] at hwell
    simp only [Bool.and_eq_true] at hwell
    replace h := then_eq_ok (then_eq_ok h)
    obtain ⟨bindings, -, h⟩ := bind_eq_ok h
    obtain ⟨last, hblock, -⟩ := bind_eq_ok h
    unfold verifyBlock at hblock
    replace hblock := then_eq_ok hblock
    obtain ⟨s, hops, hblock⟩ := bind_eq_ok hblock
    obtain ⟨_, hended, -⟩ := bind_eq_ok hblock
    have htyped : Typed (argumentScope arguments)
        ⟨newCells 0 arguments, arguments.length, decisions⟩ := by
      unfold Typed
      simp [types_newCells, argumentScope, Function.comp_def]
    have hentry := run_entry hwell.2 hops (require_eq_ok.1 hended) rfl htyped
      (fun _ h => by cases h) rfl rfl
    simp only [hbody, blocksText, append_nil]
    exact hentry.linear (stretch_run ops _) (textual_run ops _)
  · cases h

/-- **Accepted modules have linear effect chains.** On every path of every function, at any nesting,
each token is consumed once, by the next effect, in the one order that respects the tokens, and
each GEMM stands right behind its own check. `verify`, the generic verifier of MLIR, accepts only
the well-formed ones of the modules that pass the other checks. -/
theorem effects_linear {verify : Module → Bool}
    (hverify : ∀ module : Module, module.Admitted → verify module = true → module.wellFormed = true)
    {module : Module} (h : verifyModule verify module = .ok ()) :
    ∀ function, .function function ∈ module.body → ∀ decisions,
      Linear function.text (pathOf function decisions) := by
  intro function hf decisions
  obtain ⟨_, hgeneric, hadmitted⟩ := bind_eq_ok h
  have hmodule := hverify module hadmitted (require_eq_ok.1 hgeneric)
  replace h := then_eq_ok h
  iterate 5 obtain ⟨_, -, h⟩ := bind_eq_ok h
  obtain ⟨files, -, h⟩ := bind_eq_ok h
  replace h := then_eq_ok (then_eq_ok h)
  unfold Module.wellFormed at hmodule
  rw [Bool.and_eq_true, List.all_eq_true] at hmodule
  exact function_linear (hmodule.1 _ hf) (verifyFunctions_inv h hf) decisions

theorem effects_linear_twoLayer :
    ∃ module, emitModule twoLayerProgram = some module ∧
      ∀ function, .function function ∈ module.body → ∀ decisions,
        Linear function.text (pathOf function decisions) := by
  obtain ⟨module, hemit, haccept⟩ :=
    emitModule_verified Module.wellFormed (fun _ _ h => h) verify_twoLayer
  exact ⟨module, hemit, effects_linear (fun _ _ h => h) haccept⟩

end Matcore.ClosedRegion
