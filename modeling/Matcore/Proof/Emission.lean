import Matcore.Proof.Numbering

/-!
# What the emitter emits

The emitter counts the operations in source order, and its statements are those of `Emits`, if its
plan selects what the derivations of the body derive.
-/

namespace Matcore.ClosedHost

open Option (or_none none_or bind_some mem_toList map_some)
open ClosedRegion

/-- The records of the plan name reads and pairs of the range. -/
structure Plan.Within (p : Plan) (lo hi : ℕ) : Prop where
  reads : ∀ r ∈ p.reads, lo ≤ r.readFrontier ∧ r.readFrontier < hi
  pairs : ∀ q ∈ p.pairs, lo ≤ q.firstFrontier ∧ q.firstFrontier < hi

/-- Two plans select the same at every frontier of the range. -/
def Plan.Agrees (p q : Plan) (lo hi : ℕ) : Prop :=
  ∀ f, lo ≤ f → f < hi → p.forwarding f = q.forwarding f ∧ p.pair f = q.pair f

namespace Plan

variable {p q r : Plan} {lo mid hi : ℕ}

theorem Within.mono (h : p.Within lo hi) {lo' hi' : ℕ} (hl : lo' ≤ lo) (hh : hi ≤ hi') :
    p.Within lo' hi' :=
  ⟨fun x hx => ⟨hl.trans (h.reads x hx).1, (h.reads x hx).2.trans_le hh⟩,
    fun x hx => ⟨hl.trans (h.pairs x hx).1, (h.pairs x hx).2.trans_le hh⟩⟩

theorem within_nil : Within {} lo hi := ⟨by simp, by simp⟩

theorem Within.append (hp : p.Within lo hi) (hq : q.Within lo hi) : (p.append q).Within lo hi :=
  ⟨fun x hx => (List.mem_append.1 hx).elim (hp.reads x) (hq.reads x),
    fun x hx => (List.mem_append.1 hx).elim (hp.pairs x) (hq.pairs x)⟩

theorem select_of_within (h : p.Within lo hi) {f : ℕ} (hf : f < lo ∨ hi ≤ f) :
    p.forwarding f = none ∧ p.pair f = none := by
  unfold forwarding pair
  constructor
  · rw [Option.map_eq_none_iff, List.find?_eq_none]
    intro x hx
    have := h.reads x hx
    simp only [beq_iff_eq]
    omega
  · rw [List.find?_eq_none]
    intro x hx
    have := h.pairs x hx
    simp only [beq_iff_eq]
    omega

theorem select_append (f : ℕ) :
    (p.append q).forwarding f = (p.forwarding f).or (q.forwarding f) ∧
      (p.append q).pair f = (p.pair f).or (q.pair f) := by
  unfold append forwarding pair
  constructor
  · rw [List.find?_append]
    cases List.find? (fun read => read.readFrontier == f) p.reads <;> rfl
  · rw [List.find?_append]

theorem Agrees.split (h : r.Agrees (p.append q) lo hi) (hp : p.Within lo mid)
    (hq : q.Within mid hi) (hl : lo ≤ mid) (hh : mid ≤ hi) :
    r.Agrees p lo mid ∧ r.Agrees q mid hi := by
  constructor
  · intro f h₁ h₂
    obtain ⟨hr, hs⟩ := h f h₁ (h₂.trans_le hh)
    obtain ⟨ha, hb⟩ := select_append (p := p) (q := q) f
    obtain ⟨hc, hd⟩ := select_of_within hq (.inl h₂)
    rw [hr, hs, ha, hb, hc, hd, or_none, or_none]
    exact ⟨rfl, rfl⟩
  · intro f h₁ h₂
    obtain ⟨hr, hs⟩ := h f (hl.trans h₁) h₂
    obtain ⟨ha, hb⟩ := select_append (p := p) (q := q) f
    obtain ⟨hc, hd⟩ := select_of_within hp (.inr h₁)
    rw [hr, hs, ha, hb, hc, hd, none_or, none_or]
    exact ⟨rfl, rfl⟩

theorem Agrees.mono (h : p.Agrees q lo hi) {lo' hi' : ℕ} (hl : lo ≤ lo') (hh : hi' ≤ hi) :
    p.Agrees q lo' hi' :=
  fun f h₁ h₂ => h f (hl.trans h₁) (h₂.trans_le hh)

theorem agrees_refl (p : Plan) (lo hi : ℕ) : p.Agrees p lo hi := fun _ _ _ => ⟨rfl, rfl⟩

end Plan

variable {o : Optimization} {uses : UseCounts} {op consumer : Operation} {t e rest beyond : Body}
  {current : Option ForwardedRead} {reads : Reads} {n : ℕ}

theorem forwardedRead_frontier {enabled : Bool} {r : ForwardedRead}
    (h : forwardedRead enabled current op n = some r) : r.readFrontier = n := by
  unfold forwardedRead at h
  cases current with
  | none => cases h
  | some c =>
    simp only [bind_some] at h
    split at h <;> cases h
    rfl

theorem headWindow_eq_some {pair : StrictFusedPair}
    (h : headWindow o uses reads n op rest = some pair) :
    o = .strictFusedPair ∧ ∃ consumer t e beyond, rest = .cons consumer t e beyond ∧
      PairDerivation.window uses reads op consumer n (n + 1) = some pair := by
  cases rest with
  | nil => cases h
  | cons consumer t e beyond =>
    simp only [headWindow] at h
    split at h
    · exact ⟨‹_›, _, _, _, _, rfl, h⟩
    · cases h

variable {b : Body}

/-- The frontiers of a body's records lie in the body's range. -/
theorem planFrom_within (o : Optimization) (uses : UseCounts) (hb : b.Nested)
    (current : Option ForwardedRead) (reads : Reads) (n : ℕ) :
    (planFrom o uses b current reads n).Within n (n + b.count) := by
  induction hc : b.count using Nat.strong_induction_on generalizing b current reads n with
  | _ count ih =>
  subst hc
  cases b with
  | nil => rw [planFrom_nil]; exact Plan.within_nil
  | cons op t e rest =>
    obtain ⟨_, ht, he, hr⟩ := hb
    simp only [Body.count_cons] at ih ⊢
    cases hk : op.kind with
    | read =>
      rw [planFrom_read o uses current reads n hk hr]
      refine .append ⟨fun r hr => ?_, by simp⟩
        ((ih _ (by omega) hr _ _ _ rfl).mono (by omega) (by omega))
      have := forwardedRead_frontier (mem_toList.1 hr)
      omega
    | publish =>
      rw [planFrom_publish o uses current reads n hk hr]
      exact (ih _ (by omega) hr _ _ _ rfl).mono (by omega) (by omega)
    | observe =>
      rw [planFrom_observe o uses current reads n hk hr]
      exact (ih _ (by omega) hr _ _ _ rfl).mono (by omega) (by omega)
    | shapeIf =>
      rw [planFrom_shapeIf o uses current reads n hk ht he hr]
      exact ((ih _ (by omega) ht _ _ _ rfl).mono (by omega) (by omega)).append
        (((ih _ (by omega) he _ _ _ rfl).mono (by omega) (by omega)).append
          ((ih _ (by omega) hr _ _ _ rfl).mono (by omega) (by omega)))
    | gemm =>
      cases hw : headWindow o uses reads n op rest with
      | none =>
        rw [planFrom_gemm o uses current reads n hk hr hw]
        exact (ih _ (by omega) hr _ _ _ rfl).mono (by omega) (by omega)
      | some pair =>
        obtain ⟨-, consumer, t', e', beyond, rfl, hp⟩ := headWindow_eq_some hw
        obtain ⟨-, -, -, -, -, -, a, b, d, -, -, -, rfl⟩ := PairDerivation.window_eq_some hp
        rw [planFrom_pair o uses current reads n hr.2.2.2 hw]
        simp only [Body.count_cons] at ih ⊢
        refine .append ⟨by simp, fun q hq => ?_⟩
          ((ih _ (by omega) hr.2.2.2 _ _ _ rfl).mono (by omega) (by omega))
        rw [List.mem_singleton.1 hq]
        exact ⟨le_rfl, by dsimp only; omega⟩

/-- The call of a read at `n`, forwarding the value of a record. -/
def readCallOf (record : Option ForwardedRead) (op : Operation) (n : ℕ) : Call :=
  match record with
  | some r => .readForwarded n op.resource op.rows op.columns r.value op.result
  | none => .read n op.resource op.rows op.columns op.result

/-- The statements of a body under the plan that an optimization derives, from the frontier
`n`, the current publication and the reads in scope. -/
inductive Emits (o : Optimization) (uses : UseCounts) :
    Body → Option ForwardedRead → Reads → ℕ → Block → Prop where
  | nil {current : Option ForwardedRead} {reads : Reads} {n : ℕ} :
      Emits o uses .nil current reads n .nil
  | read {op : Operation} {rest : Body} {current : Option ForwardedRead} {reads : Reads} {n : ℕ}
      {block : Block} (kind : op.kind = .read)
      (behind : Emits o uses rest current (reads.emplace op.result n) (n + 1) block) :
      Emits o uses (.cons op .nil .nil rest) current reads n
        (.declare op.result (.call (readCallOf
          (forwardedRead (o == .publicationReadForwarding) current op n) op n) block))
  | gemm {op : Operation} {rest : Body} {current : Option ForwardedRead} {reads : Reads} {n : ℕ}
      {block : Block} (kind : op.kind = .gemm)
      (window : headWindow o uses reads n op rest = none)
      (behind : Emits o uses rest current reads (n + 1) block) :
      Emits o uses (.cons op .nil .nil rest) current reads n
        (.declare op.result
          (.call (.gemm n op.lhs op.rhs (numeric op.numericalProfile) op.result) block))
  | pair {op consumer : Operation} {beyond : Body} {current : Option ForwardedRead}
      {reads : Reads} {n : ℕ} {block : Block} {p : StrictFusedPair}
      (window : headWindow o uses reads n op (.cons consumer .nil .nil beyond) = some p)
      (behind : Emits o uses beyond current reads (n + 2) block) :
      Emits o uses (.cons op .nil .nil (.cons consumer .nil .nil beyond)) current reads n
        (.declare p.result
          (.call (.gemmStrictFusedPair n p.secondFrontier p.a p.b p.d p.result) block))
  | publish {op : Operation} {rest : Body} {current : Option ForwardedRead} {reads : Reads}
      {n : ℕ} {block : Block} (kind : op.kind = .publish)
      (behind : Emits o uses rest (some ⟨0, n, op.resource, op.lhs⟩) reads (n + 1) block) :
      Emits o uses (.cons op .nil .nil rest) current reads n
        (.call (.publish n op.lhs op.resource) block)
  | observe {op : Operation} {rest : Body} {current : Option ForwardedRead} {reads : Reads}
      {n : ℕ} {block : Block} (kind : op.kind = .observe)
      (behind : Emits o uses rest current reads (n + 1) block) :
      Emits o uses (.cons op .nil .nil rest) current reads n
        (.call (.observe n op.resource) block)
  | shapeIf {op : Operation} {t e rest : Body} {current : Option ForwardedRead} {reads : Reads}
      {n : ℕ} {thenBlock elseBlock block : Block} (kind : op.kind = .shapeIf)
      (thenArm : Emits o uses t none reads (n + 1) thenBlock)
      (elseArm : Emits o uses e none reads (n + 1 + t.count) elseBlock)
      (behind : Emits o uses rest none reads (n + 1 + t.count + e.count) block) :
      Emits o uses (.cons op t e rest) current reads n
        (.branch op.conditionLhs op.comparison op.conditionRhs thenBlock elseBlock block)

theorem kind_of_headWindow {pair : StrictFusedPair}
    (h : headWindow o uses reads n op rest = some pair) : o = .strictFusedPair ∧ op.kind = .gemm := by
  obtain ⟨ho, _, _, _, _, -, hw⟩ := headWindow_eq_some h
  exact ⟨ho, (PairDerivation.window_eq_some hw).1⟩

namespace Emits

variable {block : Block}

section

variable (h : Emits o uses (.cons op t e rest) current reads n block)

include h

theorem read_inv (hk : op.kind = .read) :
    ∃ behind, block = .declare op.result (.call (readCallOf
        (forwardedRead (o == .publicationReadForwarding) current op n) op n) behind) ∧
      Emits o uses rest current (reads.emplace op.result n) (n + 1) behind := by
  cases h with
  | read _ h => exact ⟨_, rfl, h⟩
  | pair hw => have := (kind_of_headWindow hw).2; simp_all
  | _ => simp_all

theorem gemm_inv (hk : op.kind = .gemm) (ho : o ≠ .strictFusedPair) :
    ∃ behind, block = .declare op.result
        (.call (.gemm n op.lhs op.rhs (numeric op.numericalProfile) op.result) behind) ∧
      Emits o uses rest current reads (n + 1) behind := by
  cases h with
  | gemm _ _ h => exact ⟨_, rfl, h⟩
  | pair hw => exact absurd (kind_of_headWindow hw).1 ho
  | _ => simp_all

theorem publish_inv (hk : op.kind = .publish) :
    ∃ behind, block = .call (.publish n op.lhs op.resource) behind ∧
      Emits o uses rest (some ⟨0, n, op.resource, op.lhs⟩) reads (n + 1) behind := by
  cases h with
  | publish _ h => exact ⟨_, rfl, h⟩
  | pair hw => have := (kind_of_headWindow hw).2; simp_all
  | _ => simp_all

theorem observe_inv (hk : op.kind = .observe) :
    ∃ behind, block = .call (.observe n op.resource) behind ∧
      Emits o uses rest current reads (n + 1) behind := by
  cases h with
  | observe _ h => exact ⟨_, rfl, h⟩
  | pair hw => have := (kind_of_headWindow hw).2; simp_all
  | _ => simp_all

theorem shapeIf_inv (hk : op.kind = .shapeIf) :
    ∃ thenBlock elseBlock behind,
      block = .branch op.conditionLhs op.comparison op.conditionRhs thenBlock elseBlock behind ∧
      Emits o uses t none reads (n + 1) thenBlock ∧
      Emits o uses e none reads (n + 1 + t.count) elseBlock ∧
      Emits o uses rest none reads (n + 1 + t.count + e.count) behind := by
  cases h with
  | shapeIf _ ht he h => exact ⟨_, _, _, rfl, ht, he, h⟩
  | pair hw => have := (kind_of_headWindow hw).2; simp_all
  | _ => simp_all

end

end Emits

/-- The ledger entry of a numbered operation. -/
def ledger (entry : Operation × ℕ) : Frontier :=
  ⟨entry.2, entry.1.kind, entry.1.site, entry.1.helperCalls⟩

/-- The emitter behind a body, which it counts in source order. -/
def Emitter.after (em : Emitter) (b : Body) : Emitter :=
  ⟨em.nextFrontier + b.count, em.frontiers ++ (numbered b em.nextFrontier).map ledger,
    em.visited ++ numbered b em.nextFrontier⟩

theorem Emitter.after_visit (em : Emitter) (op : Operation) (rest : Body) :
    (em.visit op).after rest = em.after (.cons op .nil .nil rest) := by
  simp [Emitter.after, Emitter.visit, numbered_cons, ledger, Nat.add_assoc]

variable {plan : Plan}

theorem readCall_of_agrees {record : Option ForwardedRead} {q : Plan} {hi : ℕ}
    (h : plan.Agrees (Plan.append ⟨record.toList, []⟩ q) n hi) (hq : q.Within (n + 1) hi)
    (hn : n < hi) (hr : ∀ r ∈ record, r.readFrontier = n) :
    Emitter.readCall plan op n = readCallOf record op n := by
  have hf : plan.forwarding n = record.map (·.value) := by
    rw [(h n le_rfl hn).1, (Plan.select_append n).1, (Plan.select_of_within hq (by omega)).1,
      or_none]
    cases record with
    | none => rfl
    | some r => simp [Plan.forwarding, hr r rfl]
  unfold Emitter.readCall readCallOf
  rw [hf]
  cases record <;> rfl

theorem emits_of_agrees (hb : b.Nested) (em : Emitter)
    (h : plan.Agrees (planFrom o uses b current reads em.nextFrontier) em.nextFrontier
      (em.nextFrontier + b.count)) :
    ∃ block, Emitter.body plan b em = some (block, em.after b) ∧
      Emits o uses b current reads em.nextFrontier block := by
  induction hc : b.count using Nat.strong_induction_on generalizing b current reads em with
  | _ count ih =>
  subst hc
  cases b with
  | nil =>
    exact ⟨.nil, by simp [Emitter.body, Emitter.after], .nil⟩
  | cons op t e rest =>
    obtain ⟨hflat, ht, he, hr⟩ := hb
    have hvisit : (em.visit op).nextFrontier = em.nextFrontier + 1 := rfl
    simp only [Body.count_cons] at ih h
    cases hk : op.kind with
    | read =>
      obtain ⟨rfl, rfl⟩ := hflat (by simp [hk])
      rw [planFrom_read o uses current reads _ hk hr] at h
      have hw := (planFrom_within o uses hr current (reads.emplace op.result em.nextFrontier)
        (em.nextFrontier + 1)).mono le_rfl
        (show _ ≤ em.nextFrontier + (1 + 0 + 0 + rest.count) by omega)
      have hs := h.split
        ⟨fun r hr => by have := forwardedRead_frontier (mem_toList.1 hr); omega, by simp⟩
        hw (by omega) (by omega)
      obtain ⟨block, hbody, hemits⟩ :=
        ih _ (by omega) hr (em.visit op) (hs.2.mono le_rfl (by rw [hvisit]; omega)) rfl
      refine ⟨_, ?_, .read hk hemits⟩
      simp only [Emitter.body, hk, hbody, map_some, Emitter.after_visit]
      rw [readCall_of_agrees h hw (by omega) fun r hr => forwardedRead_frontier hr]
    | publish =>
      obtain ⟨rfl, rfl⟩ := hflat (by simp [hk])
      rw [planFrom_publish o uses current reads _ hk hr] at h
      obtain ⟨block, hbody, hemits⟩ := ih _ (by omega) hr (em.visit op)
        (h.mono (by rw [hvisit]; omega) (by rw [hvisit]; omega)) rfl
      refine ⟨_, ?_, .publish hk hemits⟩
      simp only [Emitter.body, hk, hbody, map_some, Emitter.after_visit]
    | observe =>
      obtain ⟨rfl, rfl⟩ := hflat (by simp [hk])
      rw [planFrom_observe o uses current reads _ hk hr] at h
      obtain ⟨block, hbody, hemits⟩ := ih _ (by omega) hr (em.visit op)
        (h.mono (by rw [hvisit]; omega) (by rw [hvisit]; omega)) rfl
      refine ⟨_, ?_, .observe hk hemits⟩
      simp only [Emitter.body, hk, hbody, map_some, Emitter.after_visit]
    | shapeIf =>
      rw [planFrom_shapeIf o uses current reads _ hk ht he hr] at h
      have hwt := planFrom_within o uses ht none reads (em.nextFrontier + 1)
      have hwe := planFrom_within o uses he none reads (em.nextFrontier + 1 + t.count)
      have hwr := planFrom_within o uses hr none reads (em.nextFrontier + 1 + t.count + e.count)
      obtain ⟨hst, hs⟩ := (h.mono (show _ ≤ em.nextFrontier + 1 by omega) le_rfl).split hwt
        ((hwe.mono le_rfl (by omega)).append (hwr.mono (by omega) (by omega))) (by omega) (by omega)
      obtain ⟨hse, hsr⟩ := hs.split hwe (hwr.mono le_rfl (by omega)) (by omega) (by omega)
      obtain ⟨thenBlock, hbt, het⟩ := ih _ (by omega) ht (em.visit op) hst rfl
      obtain ⟨elseBlock, hbe, hee⟩ := ih _ (by omega) he ((em.visit op).after t) hse rfl
      obtain ⟨block, hbr, her⟩ := ih _ (by omega) hr (((em.visit op).after t).after e)
        (hsr.mono le_rfl (by simp only [Emitter.after, hvisit]; omega)) rfl
      refine ⟨_, ?_, .shapeIf hk het hee her⟩
      simp only [Emitter.body, hk, hbt, hbe, hbr, bind_some, map_some]
      simp [Emitter.after, Emitter.visit, numbered_cons, ledger, Nat.add_assoc]
    | gemm =>
      obtain ⟨rfl, rfl⟩ := hflat (by simp [hk])
      cases hw : headWindow o uses reads em.nextFrontier op rest with
      | none =>
        rw [planFrom_gemm o uses current reads _ hk hr hw] at h
        -- no window of the rest of the body begins here
        have hpair : plan.pair em.nextFrontier = none :=
          (h _ le_rfl (by omega)).2.trans
            (Plan.select_of_within (planFrom_within o uses hr current reads _)
              (.inl (Nat.lt_succ_self _))).2
        obtain ⟨block, hbody, hemits⟩ := ih _ (by omega) hr (em.visit op)
          (h.mono (by rw [hvisit]; omega) (by rw [hvisit]; omega)) rfl
        refine ⟨_, ?_, .gemm hk hw hemits⟩
        simp only [Emitter.body, hk, hpair, hbody, map_some, Emitter.after_visit]
      | some pair =>
        obtain ⟨-, consumer, t', e', beyond, rfl, hp⟩ := headWindow_eq_some hw
        obtain ⟨-, -, hkc, -, -, -, a, b, d, -, -, -, hpe⟩ := PairDerivation.window_eq_some hp
        obtain ⟨rfl, rfl⟩ := hr.1 (by simp [hkc])
        rw [planFrom_pair o uses current reads _ hr.2.2.2 hw] at h
        simp only [Body.count_cons, Body.count_nil] at ih h
        have hwb := planFrom_within o uses hr.2.2.2 current reads (em.nextFrontier + 2)
        have hfirst : pair.firstFrontier = em.nextFrontier := by rw [hpe]
        have hpair : plan.pair em.nextFrontier = some pair := by
          rw [(h _ le_rfl (by omega)).2, (Plan.select_append _).2,
            (Plan.select_of_within hwb (by omega)).2, or_none]
          simp [Plan.pair, hfirst]
        have hs := h.split
          ⟨by simp, fun q hq => by rw [List.mem_singleton.1 hq, hfirst]; omega⟩
          (hwb.mono le_rfl (show _ ≤ em.nextFrontier + (1 + 0 + 0 + (1 + 0 + 0 + beyond.count)) by
            omega)) (by omega) (by omega)
        obtain ⟨block, hbody, hemits⟩ := ih _ (by omega) hr.2.2.2 ((em.visit op).visit consumer)
          (hs.2.mono le_rfl (by simp only [Emitter.visit]; omega)) rfl
        refine ⟨_, ?_, .pair hw hemits⟩
        simp only [Emitter.body, hk, hpair, hbody, map_some, Emitter.after_visit]

theorem plan_of_derive (h : deriveClosedHostPlan b o = .ok plan) :
    plan = planFrom o (countUses b fun _ => 0) b none (fun _ => none) 1 := by
  unfold deriveClosedHostPlan at h
  dsimp only at h
  split at h
  · cases h
  · exact (Except.ok.inj h).symm

variable {region : Region}

/-- **The emission of a region** under the plan its derivations make. -/
theorem emit_of_plan (hb : region.body.Nested)
    (hp : plan = planFrom o (countUses region.body fun _ => 0) region.body none (fun _ => none) 1) :
    ∃ block, Emitter.body plan region.body {} = some (block, Emitter.after {} region.body) ∧
      Emits o (countUses region.body fun _ => 0) region.body none (fun _ => none) 1 block :=
  emits_of_agrees hb {} (hp ▸ Plan.agrees_refl _ _ _)

/-- What the emission of an admitted region consists of. -/
structure Emission.Of (emission : Emission) (region : Region) (o : Optimization) : Prop where
  parameters : emission.parameters = .ofRegion region
  emits : Emits o (countUses region.body fun _ => 0) region.body none (fun _ => none) 1
    emission.block
  completion : emission.completionFrontier = 1 + region.body.count
  frontiers : emission.frontiers = (numbered region.body 1).map ledger

theorem emission_of_plan (hb : region.body.Nested) {plan : Plan}
    (hp : plan = planFrom o (countUses region.body fun _ => 0) region.body none (fun _ => none) 1) :
    ∃ emission, emitClosedHostV1 region plan = some emission ∧ emission.Of region o := by
  obtain ⟨block, hbody, hemits⟩ := emit_of_plan hb hp
  unfold emitClosedHostV1
  rw [hbody]
  exact ⟨_, rfl, rfl, hemits, rfl, by simp [Emitter.after]⟩

end Matcore.ClosedHost
