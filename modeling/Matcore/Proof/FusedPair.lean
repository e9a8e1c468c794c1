import Matcore.Proof.Forwarding
import Matcore.Proof.Report

/-!
# Strict fused pairs preserve meaning

With fused pairs and without, the emitted statements do the same, and so do the emitted functions.
-/

namespace Matcore.ClosedHost

open Function (update_self update_of_ne update_idem update)
open ClosedRegion FlatMemory Session

variable {F : Type} {host : Host F}

/-- What a strict product of two values comes to. -/
def productOutcome (host : Host F) (f : ℕ) : Value F → Value F → Except Code (Storage F)
  | some lhs, some rhs =>
    if lhs.columns ≠ rhs.rows then .error .shapeMismatch
    else
      match extent lhs.rows rhs.columns with
      | .error code => .error code
      | .ok _ =>
        if ¬ host.fpValid f then .error .unsupportedFpEnvironment
        else if ¬ host.fpControlsUnchanged f then .error .candidateFailure
        else .ok (strictProduct host lhs rhs)
  | _, _ => .error .invalidValue

variable {lhs : Storage F}

theorem strictSum_of_empty (h : lhs.columns = 0) (rhs : Storage F) (i j : ℕ) :
    strictSum host lhs rhs i j = host.zero := by
  simp [strictSum, h]

theorem fill_strictProduct {rhs : Storage F} {out : ℕ → F} (h : ∀ e < lhs.rows * rhs.columns,
      out e = strictSum host lhs rhs (e / rhs.columns) (e % rhs.columns)) :
    .fill lhs.rows rhs.columns out = strictProduct host lhs rhs :=
  Storage.fill_congr h

theorem selectedCandidate_strict (build : Build) :
    selectedCandidate build .generatedStrict = .generatedStrict := rfl

section

variable (hs : StrictLeaves host)

include hs

theorem candidateLegality_strict (numeric : Numeric) (f : ℕ) :
    host.candidateLegality .generatedStrict numeric f = .ok := by
  simp [Host.candidateLegality, selectedCandidate_strict, hs.generated]

theorem runCandidate_strict (f : ℕ) (lhs rhs : Storage F) (report : CandidateReport) :
    let run := host.runCandidate .generatedStrict f lhs rhs report
    run.code = .ok ∧ .fill lhs.rows rhs.columns run.out = strictProduct host lhs rhs := by
  unfold Host.runCandidate
  split
  · rename_i hempty
    exact ⟨rfl, fill_strictProduct fun e he => by omega⟩
  split
  · rename_i hzero
    exact ⟨rfl, fill_strictProduct fun e _ => (strictSum_of_empty hzero rhs _ _).symm⟩
  · rw [selectedCandidate_strict]
    simp only [hs.generated, if_true]
    exact ⟨trivial, fill_strictProduct (hs.leaf lhs rhs)⟩

theorem gemmStorage_strict (f : ℕ) (lhs rhs : Value F) (report : CandidateReport) :
    (host.gemmStorage .generatedStrict f lhs rhs .strictF32 report).2 =
      productOutcome host f lhs rhs := by
  rcases lhs with - | lhs
  · rfl
  rcases rhs with - | rhs
  · rfl
  unfold Host.gemmStorage productOutcome
  dsimp only
  split
  · rfl
  have hlegal : host.gemmLegality .generatedStrict .strictF32 f lhs rhs = .ok := by
    simp [Host.gemmLegality, candidateLegality_strict hs]
  rw [if_neg (not_not.2 hlegal)]
  cases he : extent lhs.rows rhs.columns with
  | error code => simp [Host.allocate, he]
  | ok elements =>
    obtain ⟨hcode, hout⟩ := runCandidate_strict hs f lhs rhs report
    have hprovider : host.providerGuard .generatedStrict f report = (report, .ok) := by
      simp [Host.providerGuard]
    rw [allocate_of_extent hs.allocations he, hprovider, hcode, hout]
    split_ifs <;> simp_all

theorem pairLegality_strict (f : ℕ) :
    host.pairLegality .generatedStrict .strictF32 f = .ok := by
  simp [Host.pairLegality, candidateLegality_strict hs, hs.fused]

end

variable {f₂ f₁ : ℕ}

theorem pairFirst_strict (hs : StrictLeaves host) (hf : f₁ < sizeMax) (hf₂ : f₂ = f₁ + 1)
    (a b : Value F) :
    (∃ code, host.pairFirst .generatedStrict f₁ f₂ a b .strictF32 = .error code ∧
        productOutcome host f₁ a b = .error code) ∨
      ∃ a' b' elements, a = some a' ∧ b = some b' ∧
        host.pairFirst .generatedStrict f₁ f₂ a b .strictF32 = .ok (a', b') ∧
        extent a'.rows b'.columns = .ok elements ∧
        productOutcome host f₁ a b = .ok (strictProduct host a' b') := by
  unfold Host.pairFirst
  rw [if_neg (by omega)]
  rcases a with - | a
  · exact .inl ⟨_, rfl, rfl⟩
  rcases b with - | b
  · exact .inl ⟨_, rfl, rfl⟩
  dsimp only [productOutcome]
  split
  · exact .inl ⟨_, rfl, rfl⟩
  rw [if_neg (not_not.2 (pairLegality_strict hs f₁))]
  cases he : extent a.rows b.columns with
  | error code => exact .inl ⟨code, rfl, rfl⟩
  | ok elements =>
    by_cases hvalid : host.fpValid f₁
    swap
    · exact .inl ⟨.unsupportedFpEnvironment, by simp [Candidate.gpu, hvalid], by simp [hvalid]⟩
    by_cases hunchanged : host.fpControlsUnchanged f₁
    swap
    · exact .inl ⟨.candidateFailure, by simp [Candidate.gpu, hvalid, hunchanged],
        by simp [hvalid, hunchanged]⟩
    exact .inr ⟨a, b, elements, rfl, rfl, by simp [Candidate.gpu, hvalid, hunchanged], he,
      by simp [hvalid, hunchanged]⟩

variable {elements : ℕ}

theorem extent_mono {rows rows' columns : ℕ} (h : extent rows columns = .ok elements)
    (hrows : rows' ≤ rows) : extent rows' columns = .ok (rows' * columns) := by
  unfold extent at h ⊢
  split at h
  · cases h
  split at h
  · cases h
  have hmul : rows' * columns ≤ rows * columns := Nat.mul_le_mul_right _ hrows
  rw [if_neg, if_neg (by omega)]
  rintro (hr | hc | ⟨hne, hc⟩)
  · omega
  · omega
  · have hdiv : int64Max / rows ≤ int64Max / rows' :=
      Nat.div_le_div_left hrows (Nat.pos_of_ne_zero hne)
    omega

theorem runPair_strict (hs : StrictLeaves host) (f : ℕ) (a b d : Storage F)
    (report : CandidateReport) :
    let run := host.runPair .generatedStrict f a b d report
    run.code = .ok ∧
      .fill a.rows d.columns run.out = strictProduct host (strictProduct host a b) d := by
  have hrows : (strictProduct host a b).rows = a.rows := rfl
  unfold Host.runPair
  rw [← hrows]
  split
  · rename_i hempty
    exact ⟨rfl, fill_strictProduct fun e he => by omega⟩
  split
  · rename_i hzero
    have hcolumns : (strictProduct host a b).columns = 0 := hzero
    exact ⟨rfl, fill_strictProduct fun e _ => (strictSum_of_empty hcolumns d _ _).symm⟩
  · simp only [hs.fused, reduceCtorEq, if_false, if_true]
    exact ⟨trivial, fill_strictProduct (hs.fusedLeaf a b d)⟩

theorem pairStorage_strict (hs : StrictLeaves host) (f : ℕ) (a b : Storage F) (d : Value F)
    (report : CandidateReport) (he : extent a.rows b.columns = .ok elements) :
    (host.pairStorage .generatedStrict f a b d .strictF32 report).2 =
      productOutcome host f (some (strictProduct host a b)) d := by
  rcases d with - | d
  · rfl
  have hrows : (strictProduct host a b).rows = a.rows := rfl
  have hcolumns : (strictProduct host a b).columns = b.columns := rfl
  unfold Host.pairStorage productOutcome
  dsimp only
  rw [hrows, hcolumns]
  split
  · rfl
  rw [if_neg (not_not.2 (pairLegality_strict hs f)),
    if_neg (show ¬ pairGpuGuard .generatedStrict a b d ≠ .ok by simp [pairGpuGuard, Candidate.gpu])]
  have hworkspace : host.pairWorkspace .generatedStrict f a b d = .ok := by
    unfold Host.pairWorkspace
    rw [allocate_of_extent hs.allocations (extent_mono he (Nat.min_le_right 4 a.rows))]
    split <;> rfl
  cases hd : extent a.rows d.columns with
  | error code => simp [Host.allocate, hd]
  | ok count =>
    obtain ⟨hcode, hout⟩ := runPair_strict hs f a b d report
    rw [allocate_of_extent hs.allocations hd, hworkspace, hcode, hout]
    split_ifs <;> simp_all

variable {s s' : Session F}

theorem pairTail_eq (hs : StrictLeaves host) (h : s.erase = s'.erase)
    (hc : s.candidate = .generatedStrict) (f : ℕ) (a b : Storage F) (d result : Value F)
    (he : extent a.rows b.columns = .ok elements) :
    (s.pairTail host f a b d .strictF32 result).1.erase =
        (s'.gemm host f (some (strictProduct host a b)) d .strictF32 result).1.erase ∧
      (s.pairTail host f a b d .strictF32 result).2 =
        (s'.gemm host f (some (strictProduct host a b)) d .strictF32 result).2 :=
  guarded_congr h host f result
    (fun s => s.retire f result
      (host.pairStorage s.candidate f a b d .strictF32 (s.freshReport f .strictF32)))
    (fun s => s.retire f result
      (host.gemmStorage s.candidate f (some (strictProduct host a b)) d .strictF32
        (s.freshReport f .strictF32)))
    fun t t' ht htc => retire_congr ht f result (by
      rw [← candidate_of_erase ht, htc, hc, pairStorage_strict hs f a b d _ he,
        gemmStorage_strict hs])

theorem code_fail (h : s.status.code = .ok) {code : Code} (hc : code ≠ .ok) (f : ℕ) :
    (s.fail code f).leave.status.code ≠ .ok := by
  rw [fail_of_ok h]; exact hc

theorem code_succeed (h : s.status.code = .ok) (f : ℕ) : (s.succeed f).leave.status.code = .ok := by
  rw [leave_succeed s f h]; exact h

/-- A pair whose first product fails leaves what that product leaves, and any other pair what
the second product leaves. -/
theorem pair_eq (hs : StrictLeaves host) (h : s.erase = s'.erase)
    (hc : s.candidate = .generatedStrict) (hf : f₁ < sizeMax) (hf₂ : f₂ = f₁ + 1) (a b d c e : Value F) :
    let pair := s.gemmStrictFusedPair host f₁ f₂ a b d .strictF32 .strictF32 e
    let first := s'.gemm host f₁ a b .strictF32 c
    let second := first.1.gemm host f₂ first.2 d .strictF32 e
    (first.1.status.code ≠ .ok ∧ pair.1.erase = first.1.erase ∧ pair.2 = e) ∨
      (first.1.status.code = .ok ∧ pair.1.erase = second.1.erase ∧ pair.2 = second.2) := by
  intro pair first second
  obtain ⟨h₁, h₂⟩ := begin_congr h host f₁
  rcases ht' : s'.begin host f₁ with ⟨t', ok'⟩
  rw [ht'] at h₁ h₂
  rcases begin_cases host s f₁ with ⟨t, ht, hfail⟩ | ⟨hb, ht⟩
  · rw [ht] at h₁ h₂
    obtain rfl := h₂
    have hpair : pair = (t, e) := by simp only [pair, gemmStrictFusedPair, ht]
    have hfirst : first = (t', c) := by simp only [first, Session.gemm, ht']
    have hcode : t.status.code = t'.status.code := by
      have := congrArg (fun s : Session F => s.status.code) h₁
      exact this
    rw [hpair, hfirst]
    exact .inl ⟨hcode ▸ hfail.code, h₁, rfl⟩
  obtain ⟨t, ht, hok, htc⟩ : ∃ t, s.begin host f₁ = (t, true) ∧ t.status.code = .ok ∧
      t.candidate = .generatedStrict := ⟨_, ht, hb.ok, hc⟩
  rw [ht] at h₁ h₂
  obtain rfl := h₂
  have hok' : t'.status.code = .ok := by
    have := congrArg (fun s : Session F => s.status.code) h₁
    exact this.symm.trans hok
  -- the first product, up to its report
  obtain ⟨report, hrun⟩ : ∃ report, host.gemmStorage t'.candidate f₁ a b .strictF32
      (t'.freshReport f₁ .strictF32) = (report, productOutcome host f₁ a b) := by
    rw [← candidate_of_erase h₁, htc]
    exact ⟨_, Prod.ext rfl (gemmStorage_strict hs f₁ a b _)⟩
  have hfirst : first = t'.retire f₁ c (report, productOutcome host f₁ a b) := by
    simp only [first, Session.gemm, ht', hrun]
  rcases pairFirst_strict hs hf hf₂ a b with
    ⟨code, hp, ho⟩ | ⟨a', b', elements, rfl, rfl, hp, he, ho⟩
  · have hne : code ≠ .ok := (guard_pairFirst hp).1
    rw [← htc] at hp
    rw [ho] at hfirst
    simp only [pair, gemmStrictFusedPair, ht, hp, hfirst, retire]
    have herase : { t with candidateReport := { t.freshReport f₁ .strictF32 with code } }.erase =
        { t' with candidateReport := { report with code } }.erase := h₁
    exact .inl ⟨code_fail (by exact hok') hne f₁, fail_congr herase code f₁, trivial⟩
  · rw [← htc] at hp
    rw [ho] at hfirst
    simp only [pair, second, gemmStrictFusedPair, ht, hp, hfirst, retire]
    have herase : { t with candidateReport := t.freshReport f₁ .strictF32 }.erase =
        { t' with candidateReport := { report with valueIssued := true } }.erase := h₁
    refine .inr ⟨code_succeed (by exact hok') f₁, pairTail_eq hs (succeed_congr herase f₁) ?_ f₂ a' b'
      d e he⟩
    rw [leave_succeed _ f₁ (by exact hok)]
    exact htc

/-- **The fused call is the two calls**, from every session: it leaves the same session, but for
the candidate report, and the same value. -/
theorem fused_call_eq (hs : StrictLeaves host) (s : Session F) (hc : s.candidate = .generatedStrict)
    {f₁ f₂ : UInt64} (hf : f₂.toNat = f₁.toNat + 1) (a b d c e : Value F) :
    let fused := s.gemmStrictFusedPair host f₁.toNat f₂.toNat a b d .strictF32 .strictF32 e
    let first := s.gemm host f₁.toNat a b .strictF32 c
    let both := if first.1.status.code = .ok then
        first.1.gemm host f₂.toNat first.2 d .strictF32 e
      else (first.1, e)
    fused.1.status = both.1.status ∧ fused.1.erase = both.1.erase ∧ fused.2 = both.2 := by
  intro fused first both
  have := f₂.toNat_lt
  have status {t t' : Session F} (h : t.erase = t'.erase) : t.status = t'.status := by
    rw [← t.erase_status, h, t'.erase_status]
  rcases pair_eq hs (Eq.refl s.erase) hc (show f₁.toNat < sizeMax by unfold sizeMax; omega) hf
    a b d c e with ⟨hcode, herase, hvalue⟩ | ⟨hcode, herase, hvalue⟩
  · have hboth : both = (first.1, e) := if_neg hcode
    rw [hboth]
    exact ⟨status herase, herase, hvalue⟩
  · have hboth : both = first.1.gemm host f₂.toNat first.2 d .strictF32 e := if_pos hcode
    rw [hboth]
    exact ⟨status herase, herase, hvalue⟩

/-- A product of 2 by 3 by 0 and a second one that does not fit it. -/
theorem fused_call_eq_mismatch :
    let a : Storage ℕ := .fill 2 3 fun e => e
    let b : Storage ℕ := .fill 3 0 fun e => e
    (Session.gemmStrictFusedPair { candidate := .generatedStrict } (.generatedCpu 0 (· + ·) (· * ·))
      1 2 (some a) (some b) (some a) .strictF32 .strictF32 none).1.status =
      { code := .shapeMismatch, failedFrontier := 2, completedFrontier := 1 } :=
  (fused_call_eq (strictHost_generatedCpu 0 _ _).toStrictLeaves _ rfl
    (show (2 : UInt64).toNat = (1 : UInt64).toNat + 1 from rfl) _ _ _ none none).1.trans rfl

variable {w w' : World F}

/-- The fused call does what the two products do, whichever guard fails. -/
theorem apply_pair (hs : StrictLeaves host) (hw : SameButReport w w')
    (hc : w.session.candidate = .generatedStrict) {f₁ f₂ : UInt64} (hf : f₂.toNat = f₁.toNat + 1)
    (a b d : Value F) :
    let pair := (Request.gemmStrictFusedPair f₁ f₂ a b d .strictF32 .strictF32 none).apply host w
    let first := (Request.gemm f₁ a b .strictF32 none).apply host w'
    let second := (Request.gemm f₂ first.2 d .strictF32 none).apply host first.1
    (first.1.status.code ≠ .ok ∧ SameButReport pair.1 first.1) ∨
      (first.1.status.code = .ok ∧ SameButReport pair.1 second.1 ∧ pair.2 = second.2) := by
  have := f₂.toNat_lt
  rcases pair_eq hs hw.session hc (show f₁.toNat < sizeMax by unfold sizeMax; omega) hf a b d
    none none with ⟨h₁, h₂, -⟩ | ⟨h₁, h₂, h₃⟩
  · exact .inl ⟨h₁, h₂, hw.mem, hw.publications⟩
  · exact .inr ⟨h₁, ⟨h₂, hw.mem, hw.publications⟩, h₃⟩

variable {ps : Parameters} {args : Arguments} {uses uses' : UseCounts} {b : Body}
  {current current' : Option ForwardedRead} {reads reads' : Reads} {n : ℕ} {block block' : Block}

/-- Two runs that end alike, up to the report. -/
def Flow.Same : Flow F → Flow F → Prop
  | .next _ w, .next _ w' | .returned w, .returned w' => SameButReport w w'
  | _, _ => False

/-- The environments agree on the values a body uses. -/
def AgreeOn (b : Body) (env env' : Env F) : Prop := ∀ id, usesOf b id ≠ 0 → env' id = env id

variable {env env' : Env F}

theorem dimension_congr {dim : Dimension} (h : ∀ id, dimensionUses dim id ≠ 0 → env' id = env id) :
    ps.dimension args env' dim = ps.dimension args env dim := by
  unfold Parameters.dimension
  cases hk : dim.kind <;> try rfl
  all_goals
    rw [h dim.reference (by simp [dimensionUses, hk])]

variable {flow' flow : Flow F} {c : Call}

theorem same_call {rest rest' : Block} (hw : SameButReport w w')
    (hreq : ps.request args env' c = ps.request args env c)
    (h : (Block.call c rest).exec ps args host env w = some flow)
    (h' : (Block.call c rest').exec ps args host env' w' = some flow')
    (ih : ∀ value (w₁ w₁' : World F), SameButReport w₁ w₁' →
      w₁.session.candidate = w.session.candidate →
      rest.exec ps args host (env.assign c.target value) w₁ = some flow →
      rest'.exec ps args host (env'.assign c.target value) w₁' = some flow' → flow.Same flow') :
    flow.Same flow' := by
  obtain ⟨request, hr, hrun⟩ := exec_call h
  obtain ⟨request', hr', hrun'⟩ := exec_call h'
  rw [hreq, hr] at hr'
  obtain rfl : request = request' := congrArg Prod.fst (Option.some.inj hr')
  obtain ⟨hsame, hvalue⟩ := apply_congr host hw request
  rcases hrun with ⟨hok, hrun⟩ | ⟨hfail, rfl⟩ <;> rcases hrun' with ⟨hok', hrun'⟩ | ⟨hfail', rfl⟩
  · exact ih _ _ _ hsame (apply_candidate host w request) hrun (hvalue ▸ hrun')
  · exact absurd (hsame.status ▸ hok) hfail'
  · exact absurd (hsame.status ▸ hok') hfail
  · exact hsame

variable {op : Operation} {t e : Body}

theorem AgreeOn.rest {rest : Body} (h : AgreeOn (.cons op t e rest) env env') :
    AgreeOn rest env env' :=
  fun id hid => h id (by simp only [usesOf]; omega)

theorem AgreeOn.update (h : AgreeOn b env env') (id : Id) (value : Value F) :
    AgreeOn b (update env id (some value)) (update env' id (some value)) := by
  intro id' hid
  by_cases he : id' = id
  · rw [he, update_self, update_self]
  · rw [update_of_ne he, update_of_ne he, h id' hid]

theorem same_define {rest : Body} {id : Id} (hc : c.target = some id) (hw : SameButReport w w')
    (henv : AgreeOn (.cons op t e rest) env env')
    (hreq : ps.request args (update env' id (some none)) c =
      ps.request args (update env id (some none)) c)
    (h : (Block.declare id (.call c block)).exec ps args host env w = some flow)
    (h' : (Block.declare id (.call c block')).exec ps args host env' w' = some flow')
    (ih : ∀ {env env' : Env F} {w₁ w₁' : World F}, AgreeOn rest env env' → SameButReport w₁ w₁' →
      w₁.session.candidate = w.session.candidate → block.exec ps args host env w₁ = some flow →
      block'.exec ps args host env' w₁' = some flow' → flow.Same flow') : flow.Same flow' := by
  obtain ⟨-, h⟩ := exec_declare h
  obtain ⟨-, h'⟩ := exec_declare h'
  refine same_call hw hreq h h' fun value w₁ w₁' hw₁ hc₁ hrun hrun' => ?_
  rw [hc] at hrun hrun'
  simp only [Env.assign, update_idem] at hrun hrun'
  exact ih (henv.rest.update id value) hw₁ hc₁ hrun hrun'

variable {result : Id} {request : Request F}

theorem request_gemm {f : ℕ} {lhs rhs : Id} {numeric : Numeric}
    (h : ps.request args env (.gemm f lhs rhs numeric result) = some (request, some result)) :
    ∃ a b old, env lhs = some a ∧ env rhs = some b ∧ env result = some old ∧
      request = .gemm (.ofNat f) a b numeric old := by
  simp only [Parameters.request, Option.bind_eq_bind, Option.bind_eq_some_iff, Option.pure_def,
    Option.some.injEq, Prod.mk.injEq] at h
  obtain ⟨a, ha, b, hb, old, hold, rfl, -⟩ := h
  exact ⟨a, b, old, ha, hb, hold, rfl⟩

theorem request_pair {a b d : Id}
    (h : ps.request args env (.gemmStrictFusedPair f₁ f₂ a b d result) =
      some (request, some result)) :
    ∃ x y z old, env a = some x ∧ env b = some y ∧ env d = some z ∧ env result = some old ∧
      request = .gemmStrictFusedPair (.ofNat f₁) (.ofNat f₂) x y z .strictF32 .strictF32 old := by
  simp only [Parameters.request, Option.bind_eq_bind, Option.bind_eq_some_iff, Option.pure_def,
    Option.some.injEq, Prod.mk.injEq] at h
  obtain ⟨x, hx, y, hy, z, hz, old, hold, rfl, -⟩ := h
  exact ⟨x, y, z, old, hx, hy, hz, hold, rfl⟩

variable {beyond : Body} {consumer : Operation} {p : StrictFusedPair}

theorem window_private {m : ℕ} (hp : PairDerivation.window uses reads op consumer n m = some p)
    (huses : ∀ id, usesOf (.cons op .nil .nil (.cons consumer .nil .nil beyond)) id ≤ uses id) :
    op.lhs ≠ op.result ∧ op.rhs ≠ op.result ∧ consumer.rhs ≠ op.result ∧
      usesOf beyond op.result = 0 := by
  obtain ⟨hk, -, hk', -, hl, h₁, -⟩ := PairDerivation.window_eq_some hp
  have := huses op.result
  simp only [usesOf, operationUses, hk, hk', hl, if_true] at this
  refine ⟨fun h => ?_, fun h => ?_, fun h => ?_, ?_⟩
  · rw [if_pos h] at this; omega
  · rw [if_pos h] at this; omega
  · rw [if_pos h] at this; omega
  · omega

theorem same_pair (hs : StrictLeaves host)
    (hp : PairDerivation.window uses reads op consumer n (n + 1) = some p)
    (huses : ∀ id, usesOf (.cons op .nil .nil (.cons consumer .nil .nil beyond)) id ≤ uses id)
    (hw : SameButReport w w') (hc : w.session.candidate = .generatedStrict)
    (henv : AgreeOn (.cons op .nil .nil (.cons consumer .nil .nil beyond)) env env')
    (hn : n + 1 < 2 ^ 64)
    (h : (Block.declare p.result (.call (.gemmStrictFusedPair n p.secondFrontier p.a p.b p.d
      p.result) block)).exec ps args host env w = some flow)
    (h' : (Block.declare op.result (.call (.gemm n op.lhs op.rhs (numeric op.numericalProfile)
      op.result) (.declare consumer.result (.call (.gemm (n + 1) consumer.lhs consumer.rhs
        (numeric consumer.numericalProfile) consumer.result) block')))).exec ps args host env' w' =
      some flow') (ih : ∀ {env env' : Env F} {w₁ w₁' : World F}, AgreeOn beyond env env' →
      SameButReport w₁ w₁' → w₁.session.candidate = w.session.candidate →
      block.exec ps args host env w₁ = some flow → block'.exec ps args host env' w₁' = some flow' →
      flow.Same flow') : flow.Same flow' := by
  obtain ⟨hlhs, hrhs, hd, hbeyond⟩ := window_private hp huses
  obtain ⟨hk, hprofile, hk', hprofile', hl, -, ra, rb, rd, -, -, -, rfl⟩ :=
    PairDerivation.window_eq_some hp
  obtain ⟨hfresh, h⟩ := exec_declare h
  obtain ⟨request, hr, hrun⟩ := exec_call h
  obtain ⟨-, h'⟩ := exec_declare h'
  obtain ⟨first, hr₁, hrun₁⟩ := exec_call h'
  have hstrict : numeric op.numericalProfile = .strictF32 := by simp [numeric, hprofile]
  have hstrict' : numeric consumer.numericalProfile = .strictF32 := by simp [numeric, hprofile']
  obtain ⟨a', b', old', ha', hb', hold', rfl⟩ := request_gemm hr₁
  obtain ⟨a, b, d, old, ha, hb, hd', hold, rfl⟩ := request_pair hr
  rw [update_self] at hold hold'
  obtain rfl := Option.some.inj hold
  obtain rfl := Option.some.inj hold'
  rw [update_of_ne hlhs] at ha'
  rw [update_of_ne hrhs] at hb'
  rw [hstrict] at hrun₁
  have hf : (UInt64.ofNat (n + 1)).toNat = (UInt64.ofNat n).toNat + 1 := by
    rw [toNat_ofNat hn, toNat_ofNat (by omega)]
  have used : ∀ id, operationUses op id ≠ 0 → env' id = env id := fun id hid =>
    henv id (by simp only [usesOf]; omega)
  have hea := update_of_isSome none hfresh
    ((used op.lhs (by simp [operationUses, hk])).symm.trans ha')
  have heb := update_of_isSome none hfresh
    ((used op.rhs (by simp [operationUses, hk])).symm.trans hb')
  obtain rfl : a = a' := Option.some.inj (ha.symm.trans hea)
  obtain rfl : b = b' := Option.some.inj (hb.symm.trans heb)
  rcases apply_pair hs hw hc hf a b d with ⟨hfail, hsame⟩ | ⟨hok, hsame, hvalue⟩
  · -- the first product fails in both
    rcases hrun₁ with ⟨hok, -⟩ | ⟨-, rfl⟩
    · exact absurd hok hfail
    rcases hrun with ⟨hok, -⟩ | ⟨-, rfl⟩
    · exact absurd (hsame.status ▸ hok) hfail
    · exact hsame
  replace hrun₁ := (hrun₁.resolve_right fun h => h.1 hok).2
  simp only [Call.target, Env.assign, update_idem] at hrun₁
  obtain ⟨hfresh', h'⟩ := exec_declare hrun₁
  obtain ⟨second, hr₂, hrun₂⟩ := exec_call h'
  have hne : consumer.result ≠ op.result := by
    intro he
    rw [he, update_self] at hfresh'
    cases hfresh'
  obtain ⟨c, d', old, hcl, hcd, hold, rfl⟩ := request_gemm hr₂
  rw [update_self] at hold
  obtain rfl := Option.some.inj hold
  rw [hl, update_of_ne hne.symm, update_self] at hcl
  obtain rfl := Option.some.inj hcl
  obtain rfl : d = d' := by
    by_cases he : consumer.rhs = consumer.result
    · rw [he, update_self] at hd' hcd
      exact Option.some.inj (hd'.symm.trans hcd)
    · rw [update_of_ne he] at hd' hcd
      rw [update_of_ne hd, henv _ (by simp [usesOf, operationUses, hk'])] at hcd
      exact Option.some.inj (hd'.symm.trans hcd)
  rw [hstrict'] at hrun₂
  rcases hrun with ⟨hok₂, hrun⟩ | ⟨hfail, rfl⟩ <;> rcases hrun₂ with ⟨hok₂', hrun₂⟩ | ⟨hfail', rfl⟩
  · refine ih ?_ hsame (apply_candidate host w _) hrun hrun₂
    simp only [Call.target, Env.assign, update_idem, hvalue]
    refine AgreeOn.update (fun id hid => ?_) _ _
    have hid' : id ≠ op.result := fun he => hid (he ▸ hbeyond)
    rw [update_of_ne hid', henv.rest.rest id hid]
  · exact absurd (hsame.status ▸ hok₂) hfail'
  · exact absurd (hsame.status ▸ hok₂') hfail
  · exact hsame

theorem exec_candidate (h : block.exec ps args host env w = some (.next env' w')) :
    w'.session.candidate = w.session.candidate := by
  exact exec_keeps (P := fun w' => w'.session.candidate = w.session.candidate)
    (fun _ _ _ w' r _ hw => (apply_candidate host w' r).trans hw) h rfl

/-- The statements emitted with and without fused pairs do the same. -/
theorem exec_pairs (hs : StrictLeaves host) (hb : Emits .strictFusedPair uses b current reads n block)
    (hb' : Emits .none uses' b current' reads' n block') (huses : ∀ id, usesOf b id ≤ uses id)
    (henv : AgreeOn b env env') (hw : SameButReport w w')
    (hc : w.session.candidate = .generatedStrict) (hn : n + b.count < 2 ^ 64)
    (h : block.exec ps args host env w = some flow)
    (h' : block'.exec ps args host env' w' = some flow') : flow.Same flow' := by
  have hplain : ∀ (o : Optimization) (current : Option ForwardedRead) (op : Operation) (n : ℕ),
      (o == .publicationReadForwarding) = false →
      forwardedRead (o == .publicationReadForwarding) current op n = none := by
    intro o current op n ho
    cases current <;> simp [forwardedRead, ho]
  have hrest : ∀ {op : Operation} {t e rest : Body},
      (∀ id, usesOf (.cons op t e rest) id ≤ uses id) → ∀ id, usesOf rest id ≤ uses id :=
    fun h id => le_trans (by simp only [usesOf]; omega) (h id)
  induction hb generalizing current' reads' block' env env' w w' flow flow' with
  | nil =>
    cases hb'
    cases h
    cases h'
    exact hw
  | @read op rest current _ n block kind _ ih =>
    obtain ⟨block', rfl, behind'⟩ := hb'.read_inv kind
    simp only [Body.count_cons, Body.count_nil] at hn
    rw [hplain _ _ _ _ rfl] at h h'
    have hdim : ∀ dim : Dimension, (∀ id, dimensionUses dim id ≠ 0 → operationUses op id ≠ 0) →
        ps.dimension args (update env' op.result (some none)) dim =
          ps.dimension args (update env op.result (some none)) dim := fun dim hdim =>
      dimension_congr fun id hid => henv.update _ _ id (by simp only [usesOf]; have := hdim id hid; omega)
    refine same_define rfl hw henv ?_ h h' fun henv hw hc' => ih behind' (hrest huses) henv hw
      (hc'.trans hc) (by omega)
    simp only [readCallOf, Parameters.request, update_self]
    rw [hdim op.rows fun id hid => by simp only [operationUses, kind]; omega,
      hdim op.columns fun id hid => by simp only [operationUses, kind]; omega]
  | @gemm op rest _ _ n block kind _ _ ih =>
    obtain ⟨block', rfl, behind'⟩ := hb'.gemm_inv kind (by simp)
    simp only [Body.count_cons, Body.count_nil] at hn
    refine same_define rfl hw henv ?_ h h' fun henv hw hc' => ih behind' (hrest huses) henv hw
      (hc'.trans hc) (by omega)
    simp only [Parameters.request, update_self]
    rw [henv.update _ _ op.lhs (by simp [usesOf, operationUses, kind]),
      henv.update _ _ op.rhs (by simp [usesOf, operationUses, kind])]
  | @pair op consumer beyond _ reads n block p window _ ih =>
    obtain ⟨-, consumer', t', e', beyond', heq, hp⟩ := headWindow_eq_some window
    obtain ⟨rfl, -, -, rfl⟩ := Body.cons.inj heq
    obtain ⟨hk, -, hk', -⟩ := PairDerivation.window_eq_some hp
    obtain ⟨first, rfl, hfirst⟩ := hb'.gemm_inv hk (by simp)
    obtain ⟨block', rfl, behind'⟩ := hfirst.gemm_inv hk' (by simp)
    simp only [Body.count_cons, Body.count_nil] at hn
    exact same_pair hs hp huses hw hc henv (by omega) h h' fun henv hw hc' =>
      ih behind' (hrest (hrest huses)) henv hw (hc'.trans hc) (by omega)
  | @publish op rest _ _ n block kind _ ih =>
    obtain ⟨block', rfl, behind'⟩ := hb'.publish_inv kind
    simp only [Body.count_cons, Body.count_nil] at hn
    refine same_call hw ?_ h h' fun value w₁ w₁' hw hc' => ih behind' (hrest huses) henv.rest hw
      (hc'.trans hc) (by omega)
    simp only [Parameters.request]
    rw [henv op.lhs (by simp [usesOf, operationUses, kind])]
  | @observe op rest _ _ n block kind _ ih =>
    obtain ⟨block', rfl, behind'⟩ := hb'.observe_inv kind
    simp only [Body.count_cons, Body.count_nil] at hn
    refine same_call hw ?_ h h' fun value w₁ w₁' hw hc' => ih behind' (hrest huses) henv.rest hw
      (hc'.trans hc) (by omega)
    rfl
  | @shapeIf op t e rest _ reads n thenBlock elseBlock block kind thenArm elseArm behind
      iht ihe ihr =>
    obtain ⟨thenBlock', elseBlock', block', rfl, ht', he', hr'⟩ := hb'.shapeIf_inv kind
    simp only [Body.count_cons] at hn
    obtain ⟨x, y, inner, hx, hy, hi, hrun⟩ := exec_branch h
    obtain ⟨x', y', inner', hx', hy', hi', hrun'⟩ := exec_branch h'
    have hdim : ∀ dim : Dimension, (∀ id, dimensionUses dim id ≠ 0 → operationUses op id ≠ 0) →
        ps.dimension args env' dim = ps.dimension args env dim := fun dim hdim =>
      dimension_congr fun id hid => henv id (by simp only [usesOf]; have := hdim id hid; omega)
    obtain rfl : x = x' := Option.some.inj (hx.symm.trans ((hdim op.conditionLhs fun id hid => by
      simp only [operationUses, kind]; omega).symm.trans hx'))
    obtain rfl : y = y' := Option.some.inj (hy.symm.trans ((hdim op.conditionRhs fun id hid => by
      simp only [operationUses, kind]; omega).symm.trans hy'))
    have harm : ∀ arm ∈ [t, e], (∀ id, usesOf arm id ≤ uses id) ∧ AgreeOn arm env env' := by
      intro arm harm
      have hle : ∀ id, usesOf arm id ≤ usesOf (.cons op t e rest) id := by
        simp only [usesOf, kind, if_pos]
        rcases List.mem_pair.1 harm with rfl | rfl <;> omega
      exact ⟨fun id => (hle id).trans (huses id), fun id hid => henv id
        fun h => hid (Nat.le_zero.1 (h ▸ hle id))⟩
    obtain ⟨hut, hat⟩ := harm t (by simp)
    obtain ⟨hue, hae⟩ := harm e (by simp)
    -- the arms end alike, and leave the environments they found
    have hinner : inner.Same inner' ∧ (∀ env₁ w₁, inner = .next env₁ w₁ → env.leave env₁ = env) ∧
        ∀ env₁ w₁, inner' = .next env₁ w₁ → env'.leave env₁ = env' := by
      split at hi
      · rename_i hcond
        rw [if_pos hcond] at hi'
        exact ⟨iht ht' hut hat hw hc (by omega) hi hi',
          fun env₁ w₁ he => leave_of_exec thenArm (he ▸ hi),
          fun env₁ w₁ he => leave_of_exec ht' (he ▸ hi')⟩
      · rename_i hcond
        rw [if_neg hcond] at hi'
        exact ⟨ihe he' hue hae hw hc (by omega) hi hi',
          fun env₁ w₁ he => leave_of_exec elseArm (he ▸ hi),
          fun env₁ w₁ he => leave_of_exec he' (he ▸ hi')⟩
    obtain ⟨hsame, hleave, hleave'⟩ := hinner
    rcases hrun with ⟨env₁, w₁, rfl, hrun⟩ | ⟨w₁, rfl, rfl⟩ <;>
      rcases hrun' with ⟨env₁', w₁', rfl, hrun'⟩ | ⟨w₁', rfl, rfl⟩
    · rw [hleave env₁ w₁ rfl] at hrun
      rw [hleave' env₁' w₁' rfl] at hrun'
      have hkept : w₁.session.candidate = w.session.candidate := by
        split at hi
        · exact exec_candidate hi
        · exact exec_candidate hi
      exact ihr hr' (hrest huses) henv.rest hsame (hkept.trans hc) (by omega) hrun hrun'
    · exact hsame.elim
    · exact hsame.elim
    · exact hsame

theorem SameButReport.refl (w : World F) : SameButReport w w := ⟨rfl, rfl, rfl⟩

theorem call_same {emission emission' : Emission}
    (hcompletion : emission.completionFrontier = emission'.completionFrontier)
    (hexec : ∀ flow flow',
      emission.block.exec emission.parameters args host (fun _ => none) w = some flow →
      emission'.block.exec emission'.parameters args host (fun _ => none) w = some flow' →
      flow.Same flow') {r r' : Status × World F} (h : emission.call args host w = some r)
    (h' : emission'.call args host w = some r') : r.1 = r'.1 ∧ SameButReport r.2 r'.2 := by
  unfold Emission.call at h h'
  split at h
  · rename_i hfailed
    rw [if_pos hfailed] at h'
    obtain rfl := Option.some.inj h
    obtain rfl := Option.some.inj h'
    exact ⟨rfl, .refl w⟩
  rename_i hok
  rw [if_neg hok] at h'
  split at h
  · rename_i hstale
    rw [if_pos hstale] at h'
    obtain rfl := Option.some.inj h
    obtain rfl := Option.some.inj h'
    exact ⟨rfl, .refl w⟩
  rename_i hpristine
  rw [if_neg hpristine] at h'
  generalize emission.block.exec emission.parameters args host (fun _ => none) w = run at h hexec
  generalize emission'.block.exec emission'.parameters args host (fun _ => none) w = run' at h' hexec
  rcases run with - | flow
  · cases h
  rcases run' with - | flow'
  · cases h'
  have hsame := hexec flow flow' rfl rfl
  cases flow <;> cases flow'
  · obtain rfl := Option.some.inj h
    obtain rfl := Option.some.inj h'
    rw [← hcompletion]
    have hend := (apply_congr host hsame (.complete (.ofNat emission.completionFrontier))).1
    exact ⟨hend.status, hend⟩
  · exact hsame.elim
  · exact hsame.elim
  · obtain rfl := Option.some.inj h
    obtain rfl := Option.some.inj h'
    exact ⟨hsame.status, hsame⟩

/-- **Strict fused pairs preserve meaning.** On the strict CPU host the emitted function of an
admitted region does with its derived pairs what it does with none: the same status, memory,
observations and publications. -/
theorem pairs_preserve {program : Program} (h : verifyProgram program = .ok ()) {region : Region}
    (hregion : region ∈ program.regions) (hs : StrictHost host) (args : Arguments) (mem : Mem F) :
    let plan : Plan := ⟨deriveReads region.body .strictFusedPair,
      derivePairs region.body .strictFusedPair⟩
    let start : World F := ⟨{ candidate := .generatedStrict }, mem, []⟩
    ∃ fused plain, emitClosedHostV1 region plan = some fused ∧
      emitClosedHostV1 region {} = some plain ∧
      ∃ status w w', fused.call args host start = some (status, w) ∧
        plain.call args host start = some (status, w') ∧ SameButReport w w' := by
  intro plan start
  obtain ⟨ctx, after, -, -, hv⟩ := verifyBody_of_program h hregion
  have hnested := nested_of_verify hv
  have hadd := region.addressable
  obtain ⟨fused, he, hof⟩ := emission_of_plan (o := .strictFusedPair) hnested (show plan = _ from rfl)
  obtain ⟨plain, he', hof'⟩ := emission_of_plan hnested (plan_of_derive (derive_none region.body))
  obtain ⟨status, w, hcall, -⟩ := call_of_admitted h hregion hof host args .generatedStrict mem
  obtain ⟨status', w', hcall', -⟩ := call_of_admitted h hregion hof' host args .generatedStrict mem
  have hexec : ∀ flow flow',
      fused.block.exec fused.parameters args host (fun _ => none) start = some flow →
      plain.block.exec plain.parameters args host (fun _ => none) start = some flow' →
      flow.Same flow' := by
    rw [hof.parameters, hof'.parameters]
    exact fun flow flow' => exec_pairs hs.toStrictLeaves hof.emits hof'.emits
      (fun id => by rw [countUses_eq]; simp) (fun _ _ => rfl) (.refl start) rfl (by omega)
  obtain ⟨hstatus, hsame⟩ := call_same (hof.completion.trans hof'.completion.symm) hexec hcall hcall'
  obtain rfl : status = status' := hstatus
  exact ⟨fused, plain, he, he', status, w, w', hcall, hcall', hsame⟩

/-- In the two-layer region the products 3 and 4 run as one call. -/
theorem pairs_preserve_twoLayer :
    let host : Host ℕ := .generatedCpu 0 (· + ·) (· * ·)
    let args : Arguments :=
      ⟨fun _ => { data := 64, rows := 1, columns := 1, capacityElements := 1, access := .readWrite },
        fun _ => 0⟩
    let run (plan : Plan) : Option (Status × World ℕ) := (emitClosedHostV1 twoLayer plan).bind
      fun e => e.call args host ⟨{ candidate := .generatedStrict }, fun _ => 5, []⟩
    ∃ w w', run ⟨[], [⟨3, 4, 1, 2, 2, 3, 4, 1, 2, 2⟩]⟩ = some (⟨.ok, 0, 10, 9, 2, 1, true⟩, w) ∧
      run {} = some (⟨.ok, 0, 10, 9, 2, 1, true⟩, w') ∧ SameButReport w w' := by
  intro host args run
  obtain ⟨fused, plain, he, he', status, w, w', hcall, hcall', hsame⟩ :=
    pairs_preserve verify_twoLayer (List.mem_singleton.2 rfl)
      (strictHost_generatedCpu (0 : ℕ) (· + ·) (· * ·)) args fun _ => 5
  have hplan : (⟨deriveReads twoLayer.body .strictFusedPair,
      derivePairs twoLayer.body .strictFusedPair⟩ : Plan) =
        ⟨[], [⟨3, 4, 1, 2, 2, 3, 4, 1, 2, 2⟩]⟩ := by rfl
  rw [hplan] at he
  have hrun : run ⟨[], [⟨3, 4, 1, 2, 2, 3, 4, 1, 2, 2⟩]⟩ = some (status, w) := by
    simp only [run, he]; exact hcall
  have hrun' : run {} = some (status, w') := by simp only [run, he']; exact hcall'
  have hstatus : (run {}).map (·.1) = some ⟨.ok, 0, 10, 9, 2, 1, true⟩ := by decide
  rw [hrun'] at hstatus
  obtain rfl := Option.some.inj hstatus
  exact ⟨w, w', hrun, hrun', hsame⟩

end Matcore.ClosedHost
