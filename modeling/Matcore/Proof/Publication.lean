import Matcore.Gemm.Publication
import Matcore.Proof.ContextRun

/-!
# The packed B is read behind its publication

The waiting loop is a gate: it opens when the last packer has counted itself in, or when the only
packer publishes, and from then on no worker packs.
-/

namespace Matcore.Gemm

open List (range not_mem_nil mem_append count_append count_eq_zero append_nil mem_singleton mem_map
  mem_append_right mem_cons_self filterMap_append)
open Function (update update_of_ne update_self)
open Parallel Count

variable {job : ParallelGemmJob} {s s' : JobState} {tr es : List JobEvent} {v w : ℕ}

/-! ## Steps -/

/-- Behind the increment of `packed_b_workers_ready`. -/
def JobPc.counted : JobPc → Bool
  | polling | awaiting | checking | validating | computing _ | finished _ => true
  | idle | packing _ | preparing | publishing | reporting | counting => false

/-- Behind all packing. -/
def JobPc.passed : JobPc → Bool
  | counting | polling | awaiting | checking | validating | computing _ | finished _ => true
  | idle | packing _ | preparing | publishing | reporting => false

namespace ParallelGemmJob

variable (job)

/-- The worker that packs a panel. -/
def owner (panel : ℕ) : ℕ := if job.parallelPackB then panel % job.activeThreads else 0

/-- The workers that pack. -/
def Packer (w : ℕ) : Prop := if job.parallelPackB then w < job.activeThreads else w = 0

/-- The condition on which the waiting loop ends without a failure. -/
def Open (s : JobState) : Prop :=
  if job.parallelPackB then s.workersReady = job.activeThreads else s.published = true

end ParallelGemmJob

/-- A step of worker `w`. -/
inductive JobStep (job : ParallelGemmJob) (s : JobState) (w : ℕ) :
    List JobEvent → JobState → Prop where
  | write {panel : ℕ} (pc : s.pcs w = .packing panel ∨ s.pcs w = .preparing)
      (more : panel < job.columnPanelCount) : JobStep job s w [.wrote w panel] s
  | pack {panel : ℕ} (pc : s.pcs w = .packing panel) (more : panel < job.columnPanelCount) :
      JobStep job s w [.packed w panel] (s.move w (.packing (panel + job.activeThreads)))
  | packAll {panel : ℕ} (pc : s.pcs w = .packing panel) (done : job.columnPanelCount ≤ panel) :
      JobStep job s w [] (s.move w .counting)
  | prepare (pc : s.pcs w = .preparing) :
      JobStep job s w ((range job.columnPanelCount).map (.packed w)) (s.move w .publishing)
  | fail (pc : (∃ panel, s.pcs w = .packing panel) ∨ s.pcs w = .preparing) :
      JobStep job s w [.packFailed w] (s.move w .reporting)
  | publish (pc : s.pcs w = .publishing) :
      JobStep job s w [] ({ s with published := true }.move w .counting)
  | report (pc : s.pcs w = .reporting) :
      JobStep job s w [] ({ s with packFailed := true }.move w .counting)
  | count (pc : s.pcs w = .counting) :
      JobStep job s w [] ({ s with workersReady := s.workersReady + 1 }.move w .polling)
  -- behind the increment
  | wait {pc' : JobPc} (pc : (s.pcs w).counted = true) (waits : pc' = .polling ∨ pc' = .awaiting) :
      JobStep job s w [] (s.move w pc')
  | leave (pc : (s.pcs w).counted = true) (opened : s.packFailed = true ∨ job.Open s) :
      JobStep job s w [] (s.move w .checking)
  | accept (pc : s.pcs w = .checking) (succeeded : s.packFailed = false) :
      JobStep job s w [] (s.move w .validating)
  | compute {task : ℕ} (pc : s.pcs w = .validating ∨ ∃ task, s.pcs w = .computing task) :
      JobStep job s w [] (s.move w (.computing task))
  | finish {status : Status} (pc : (s.pcs w).counted = true) :
      JobStep job s w [] (s.move w (.finished status))
  | access {task : ℕ} {e : JobEvent} (pc : s.pcs w = .computing task)
      (event : e = .read w task ∨ e = .stored w task) : JobStep job s w [e] s

theorem jobStep_of_step {choice : JobChoice} (h : job.step s w choice = some (s', es)) :
    JobStep job s w es s' := by
  unfold ParallelGemmJob.step at h
  have hcounted : ∀ {pc}, s.pcs w = pc → pc.counted = true → (s.pcs w).counted = true := by
    rintro _ rfl h
    exact h
  cases hpc : s.pcs w <;> rw [hpc] at h
  case idle | finished => cases h
  case packing panel =>
    cases choice with
    | load => cases h
    | store panel' =>
      dsimp only at h
      split at h
      · cases h
        exact .write (.inl hpc) ‹_›
      · cases h
    | advance succeeded =>
      dsimp only at h
      split at h
      · cases succeeded with
        | true => cases h; exact .pack hpc ‹_›
        | false => cases h; exact .fail (.inl ⟨panel, hpc⟩)
      · cases h
        exact .packAll hpc (Nat.le_of_not_lt ‹_›)
  case preparing =>
    cases choice with
    | load => cases h
    | store panel' =>
      dsimp only at h
      split at h
      · cases h
        exact .write (.inr hpc) ‹_›
      · cases h
    | advance succeeded =>
      cases succeeded with
      | true => cases h; exact .prepare hpc
      | false => cases h; exact .fail (.inr hpc)
  case publishing =>
    cases choice <;> cases h
    exact .publish hpc
  case reporting =>
    cases choice <;> cases h
    exact .report hpc
  case counting =>
    cases choice <;> cases h
    exact .count hpc
  case polling =>
    cases choice <;> cases h
    cases hfailed : s.packFailed with
    | true => exact .leave (hcounted hpc rfl) (.inl hfailed)
    | false => exact .wait (hcounted hpc rfl) (.inr rfl)
  case awaiting =>
    cases choice <;> cases h
    -- a parallel pack waits for all workers, another one for the packer
    by_cases hwaits : (if job.parallelPackB then (s.workersReady ≠ job.activeThreads : Bool)
      else !s.published) = true
    · rw [if_pos hwaits]
      exact .wait (hcounted hpc rfl) (.inl rfl)
    · rw [if_neg hwaits]
      refine .leave (hcounted hpc rfl) (.inr ?_)
      unfold ParallelGemmJob.Open
      cases hparallel : job.parallelPackB <;> rw [hparallel] at hwaits <;> simpa using hwaits
  case checking =>
    cases choice <;> cases h
    cases hfailed : s.packFailed with
    | true => exact .finish (hcounted hpc rfl)
    | false => exact .accept hpc hfailed
  case validating =>
    cases choice <;> cases h
    split
    · exact .compute (.inl hpc)
    · exact .finish (hcounted hpc rfl)
  case computing task =>
    cases choice with
    | load =>
      dsimp only at h
      split at h
      · cases h
        exact .access hpc (.inl rfl)
      · cases h
    | store panel =>
      dsimp only at h
      split at h
      · cases h
        exact .access hpc (.inr rfl)
      · cases h
    | advance succeeded =>
      dsimp only at h
      split at h
      · cases succeeded with
        | true => cases h; exact .compute (.inr ⟨task, hpc⟩)
        | false => cases h; exact .finish (hcounted hpc rfl)
      · cases h
        exact .finish (hcounted hpc rfl)

/-! ## The invariant -/

/-- The worker of an event. -/
def JobEvent.worker : JobEvent → ℕ
  | wrote w _ | packed w _ | packFailed w | read w _ | stored w _ => w

/-- All that a worker has to pack is packed, or its failure is known. -/
def Resolved (job : ParallelGemmJob) (tr : List JobEvent) (failed : Bool) (w : ℕ) : Prop :=
  .packFailed w ∈ tr ∧ failed = true ∨
    .packFailed w ∉ tr ∧ ∀ panel < job.columnPanelCount, job.owner panel = w → .packed w panel ∈ tr

/-- What a worker has packed where it stands. -/
def Stage (job : ParallelGemmJob) (tr : List JobEvent) (failed : Bool) (w : ℕ) : JobPc → Prop
  | .idle => .packFailed w ∉ tr ∧ ∀ panel, .packed w panel ∉ tr
  | .packing next => job.parallelPackB = true ∧ next % job.activeThreads = w ∧
      .packFailed w ∉ tr ∧
      ∀ panel, .packed w panel ∈ tr ↔ panel < next ∧ panel % job.activeThreads = w
  | .preparing => (job.parallelPackB = false ∧ w = 0) ∧
      .packFailed w ∉ tr ∧ ∀ panel, .packed w panel ∉ tr
  | .publishing => (job.parallelPackB = false ∧ w = 0) ∧
      .packFailed w ∉ tr ∧ ∀ panel < job.columnPanelCount, .packed w panel ∈ tr
  | .reporting => job.Packer w ∧ .packFailed w ∈ tr
  | _ => job.Packer w → Resolved job tr failed w

/-- What a worker knows where it stands. -/
def Gate (job : ParallelGemmJob) (s : JobState) : JobPc → Prop
  | .checking => s.packFailed = true ∨ job.Open s
  | .validating | .computing _ => job.Open s ∧ s.packFailed = false
  | _ => True

/-- What an event says of the job. -/
def JobEvent.Sound (job : ParallelGemmJob) (s : JobState) : JobEvent → Prop
  | wrote w panel | packed w panel => panel < job.columnPanelCount ∧ w = job.owner panel
  | packFailed w => job.Packer w
  | read _ _ | stored _ _ => job.Open s ∧ s.packFailed = false

/-- What holds of the workers of a job. -/
structure JobInv (job : ParallelGemmJob) (tr : List JobEvent) (s : JobState) : Prop where
  active : ∀ w, s.pcs w ≠ .idle → w < job.activeThreads
  stage : ∀ w, Stage job tr s.packFailed w (s.pcs w)
  gate : ∀ w, Gate job s (s.pcs w)
  ready : s.workersReady = below job.activeThreads fun w => (s.pcs w).counted = true
  published : job.parallelPackB = false → s.published = true →
    (s.pcs 0).passed = true ∧ .packFailed 0 ∉ tr
  sound : ∀ e ∈ tr, e.Sound job s
  once : ∀ w panel, tr.count (.packed w panel) ≤ 1

theorem jobInv_start : JobInv job [] job.start where
  active _ h := absurd rfl h
  stage _ := ⟨not_mem_nil, fun _ => not_mem_nil⟩
  gate _ := trivial
  ready := (below_eq_zero fun _ _ => Bool.false_ne_true).symm
  published hserial hpublished := by
    unfold ParallelGemmJob.start at hpublished
    rw [hserial] at hpublished
    cases hpublished
  sound _ h := absurd h not_mem_nil
  once _ _ := Nat.zero_le _

namespace JobInv

section

variable (h : JobInv job tr s)

include h

/-- **The gate.** Once it is open, every packer is through with its packing. -/
theorem open_passed (hopen : job.Open s) (hpacker : job.Packer v) : (s.pcs v).passed = true := by
  unfold ParallelGemmJob.Open at hopen
  unfold ParallelGemmJob.Packer at hpacker
  cases hparallel : job.parallelPackB with
  | true =>
    rw [hparallel, if_pos rfl] at hopen hpacker
    have hall := below_eq_iff.1 (h.ready.symm.trans hopen) v hpacker
    cases hpc : s.pcs v <;> rw [hpc] at hall <;> first
      | rfl
      | cases hall
  | false =>
    rw [hparallel, if_neg Bool.false_ne_true] at hopen hpacker
    rw [hpacker]
    exact (h.published hparallel hopen).1

theorem stage_of {pc : JobPc} (hpc : s.pcs w = pc) : Stage job tr s.packFailed w pc :=
  hpc ▸ h.stage w

theorem packer_of_stage (hpassed : (s.pcs w).passed = false) (hcalled : s.pcs w ≠ .idle) :
    job.Packer w := by
  have hstage := h.stage w
  have hactive := h.active w hcalled
  unfold ParallelGemmJob.Packer
  cases hpc : s.pcs w with
  | idle => exact absurd hpc hcalled
  | packing next =>
    rw [hpc] at hstage
    rw [hstage.1, if_pos rfl]
    exact hactive
  | preparing | publishing =>
    rw [hpc] at hstage
    rw [hstage.1.1, if_neg Bool.false_ne_true]
    exact hstage.1.2
  | reporting =>
    rw [hpc] at hstage
    exact hstage.1
  | _ =>
    rw [hpc] at hpassed
    cases hpassed

theorem passed_of_open (hopen : job.Open s) (hcalled : s.pcs w ≠ .idle) :
    (s.pcs w).passed = true := by
  by_contra hpassed
  rw [Bool.not_eq_true] at hpassed
  rw [h.open_passed hopen (h.packer_of_stage hpassed hcalled)] at hpassed
  cases hpassed

theorem resolved_of_passed (hpassed : (s.pcs w).passed = true) (hpacker : job.Packer w) :
    Resolved job tr s.packFailed w := by
  have hstage := h.stage w
  cases hpc : s.pcs w <;> rw [hpc] at hstage hpassed <;> first
    | exact hstage hpacker
    | cases hpassed

theorem none_failed (hopen : job.Open s) (hfailed : s.packFailed = false) : .packFailed w ∉ tr := by
  intro hw
  have hpacker : job.Packer w := h.sound _ hw
  rcases h.resolved_of_passed (h.open_passed hopen hpacker) hpacker with hfail | hdone
  · rw [hfailed] at hfail
    cases hfail.2
  · exact hdone.1 hw

theorem all_packed (hopen : job.Open s) (hfailed : s.packFailed = false)
    (hactive : 0 < job.activeThreads) {panel : ℕ} (hpanel : panel < job.columnPanelCount) :
    .packed (job.owner panel) panel ∈ tr := by
  have hpacker : job.Packer (job.owner panel) := by
    unfold ParallelGemmJob.Packer ParallelGemmJob.owner
    split
    · exact Nat.mod_lt _ hactive
    · rfl
  rcases h.resolved_of_passed (h.open_passed hopen hpacker) hpacker with hfail | hdone
  · rw [hfailed] at hfail
    cases hfail.2
  · exact hdone.2 panel hpanel rfl

end

end JobInv

/-! ### Steps keep the invariant -/

theorem stage_frame {pc : JobPc} {failed failed' : Bool} (h : Stage job tr failed w pc)
    (hpacked : ∀ panel, .packed w panel ∉ es) (hfail : .packFailed w ∉ es)
    (hfailed : failed = true → failed' = true) : Stage job (tr ++ es) failed' w pc := by
  have hfail : .packFailed w ∈ tr ++ es ↔ .packFailed w ∈ tr := by
    rw [mem_append, or_iff_left hfail]
  have hpacked : ∀ panel, .packed w panel ∈ tr ++ es ↔ .packed w panel ∈ tr := by
    intro panel
    rw [mem_append, or_iff_left (hpacked panel)]
  cases pc <;> unfold Stage at h ⊢ <;> try unfold Resolved at h ⊢
  all_goals simp only [hfail, hpacked] at h ⊢
  case idle | packing | preparing | publishing | reporting => exact h
  all_goals exact fun hpacker => (h hpacker).imp_left fun hleft => ⟨hleft.1, hfailed hleft.2⟩

/-- A step from `s` to `s'` that only moves worker `w`. -/
structure Moves (job : ParallelGemmJob) (s s' : JobState) (w : ℕ) (pc : JobPc) : Prop where
  pcs : s'.pcs = update s.pcs w pc
  failed : s.packFailed = true → s'.packFailed = true
  opens : job.Open s → job.Open s' ∧ (s.packFailed = false → s'.packFailed = false)

theorem gate_moves {pc pc' : JobPc} (hmoves : Moves job s s' w pc') (h : Gate job s pc) :
    Gate job s' pc := by
  cases pc <;> try exact trivial
  case checking =>
    rcases h with hfailed | hopen
    · exact .inl (hmoves.failed hfailed)
    · exact .inr (hmoves.opens hopen).1
  case validating => exact ⟨(hmoves.opens h.1).1, (hmoves.opens h.1).2 h.2⟩
  case computing => exact ⟨(hmoves.opens h.1).1, (hmoves.opens h.1).2 h.2⟩

theorem sound_moves {pc : JobPc} (hmoves : Moves job s s' w pc) {e : JobEvent}
    (h : e.Sound job s) : e.Sound job s' := by
  cases e <;> try exact h
  case read => exact ⟨(hmoves.opens h.1).1, (hmoves.opens h.1).2 h.2⟩
  case stored => exact ⟨(hmoves.opens h.1).1, (hmoves.opens h.1).2 h.2⟩

/-- The rule for a step: what has to be shown of the worker that moves, and of its events. -/
theorem jobInv_moves (h : JobInv job tr s) {pc : JobPc} (hmoves : Moves job s s' w pc)
    (hes : ∀ e ∈ es, e.worker = w) (hactive : w < job.activeThreads)
    (hstage : Stage job (tr ++ es) s'.packFailed w pc) (hgate : Gate job s' pc)
    (hready : s'.workersReady = below job.activeThreads fun v =>
      (update s.pcs w pc v).counted = true)
    (hpublished : job.parallelPackB = false → s'.published = true →
      (update s.pcs w pc 0).passed = true ∧ .packFailed 0 ∉ tr ++ es)
    (hsound : ∀ e ∈ es, e.Sound job s') (honce : ∀ panel, (tr ++ es).count (.packed w panel) ≤ 1) :
    JobInv job (tr ++ es) s' where
  active v hv := by
    by_cases hvw : v = w
    · exact hvw ▸ hactive
    · rw [hmoves.pcs, update_of_ne hvw] at hv
      exact h.active v hv
  stage v := by
    by_cases hvw : v = w
    · rw [hmoves.pcs, hvw, update_self]
      exact hstage
    · rw [hmoves.pcs, update_of_ne hvw]
      exact stage_frame (h.stage v) (fun _ hmem => hvw (hes _ hmem)) (fun hmem => hvw (hes _ hmem))
        hmoves.failed
  gate v := by
    by_cases hvw : v = w
    · rw [hmoves.pcs, hvw, update_self]
      exact hgate
    · rw [hmoves.pcs, update_of_ne hvw]
      exact gate_moves hmoves (h.gate v)
  ready := hmoves.pcs ▸ hready
  published := hmoves.pcs ▸ hpublished
  sound e he := by
    rcases mem_append.1 he with he | he
    · exact sound_moves hmoves (h.sound e he)
    · exact hsound e he
  once v panel := by
    by_cases hvw : v = w
    · exact hvw ▸ honce panel
    · rw [count_append]
      have hnone : es.count (.packed v panel) = 0 :=
        count_eq_zero.2 fun hmem => hvw (hes _ hmem)
      rw [hnone, Nat.add_zero]
      exact h.once v panel

theorem moves_move (pc : JobPc) : Moves job s (s.move w pc) w pc := ⟨rfl, id, fun h => ⟨h, id⟩⟩

theorem moves_stay : Moves job s s w (s.pcs w) :=
  ⟨(Function.update_eq_self w s.pcs).symm, id, fun h => ⟨h, id⟩⟩

section

variable (h : JobInv job tr s)

include h

theorem ready_same {pc : JobPc} (hcounted : pc.counted = (s.pcs w).counted) :
    s.workersReady = below job.activeThreads fun v =>
      (update s.pcs w pc v).counted = true := by
  refine h.ready.trans (below_congr fun v _ => ?_)
  by_cases hvw : v = w
  · rw [hvw, update_self, hcounted]
  · rw [update_of_ne hvw]

theorem published_same {pc : JobPc} (hes : ∀ e ∈ es, e.worker = w)
    (hpassed : (s.pcs w).passed = true → pc.passed = true ∧ .packFailed w ∉ es)
    (hserial : job.parallelPackB = false) (hpublished : s.published = true) :
    (update s.pcs w pc 0).passed = true ∧ .packFailed 0 ∉ tr ++ es := by
  obtain ⟨hzero, hfail⟩ := h.published hserial hpublished
  rw [mem_append, not_or]
  by_cases hw : 0 = w
  · obtain ⟨hpc, hnone⟩ := hpassed (hw ▸ hzero)
    exact ⟨by rw [hw, update_self]; exact hpc, hfail, hw ▸ hnone⟩
  · exact ⟨by rw [update_of_ne hw]; exact hzero, hfail, fun hmem => hw (hes _ hmem)⟩

theorem jobInv_advance {pc : JobPc} (hcounted : (s.pcs w).counted = true)
    (hcounted' : pc.counted = true) (hgate : Gate job s pc) :
    JobInv job (tr ++ []) (s.move w pc) := by
  have hpassed : ∀ pc : JobPc, pc.counted = true → pc.passed = true := by
    intro pc hpc
    cases pc <;> first
      | rfl
      | cases hpc
  have hactive : w < job.activeThreads := by
    refine h.active w fun hidle => ?_
    rw [hidle] at hcounted
    cases hcounted
  have hstage : Stage job tr s.packFailed w pc := by
    have hresolved := h.resolved_of_passed (hpassed _ hcounted)
    cases pc <;> first
      | exact hresolved
      | cases hcounted'
  rw [append_nil]
  have hrule := @jobInv_moves job s (s.move w pc) tr [] w h pc (moves_move pc)
    nofun hactive
  rw [append_nil] at hrule
  exact hrule hstage hgate (ready_same h (hcounted'.trans hcounted.symm))
    (fun hserial hpublished => by
      have hsame := @published_same job s tr [] w h pc nofun
        (fun _ => ⟨hpassed _ hcounted', not_mem_nil⟩) hserial hpublished
      rwa [append_nil] at hsame)
    nofun (h.once w)

theorem jobInv_emit {e : JobEvent} (hworker : e.worker = w)
    (hactive : w < job.activeThreads) (hpacked : ∀ panel, e ≠ .packed w panel)
    (hfail : e ≠ .packFailed w) (hsound : e.Sound job s) : JobInv job (tr ++ [e]) s := by
  have hes : ∀ e' ∈ [e], e'.worker = w := by
    intro e' he
    rw [mem_singleton.1 he, hworker]
  have hnone : ∀ panel, .packed w panel ∉ [e] :=
    fun panel hmem => hpacked panel (mem_singleton.1 hmem).symm
  have hkept : .packFailed w ∉ [e] := fun hmem => hfail (mem_singleton.1 hmem).symm
  refine jobInv_moves h moves_stay hes hactive (stage_frame (h.stage w) hnone hkept id) (h.gate w)
    (ready_same h rfl) (published_same h hes fun hpassed => ⟨hpassed, hkept⟩) ?_ fun panel => ?_
  · intro e' he
    rw [mem_singleton.1 he]
    exact hsound
  · rw [count_append, count_eq_zero.2 (hnone panel), Nat.add_zero]
    exact h.once w panel

theorem jobInv_packer {pc : JobPc} (hes : ∀ e ∈ es, e.worker = w)
    (hpassed : (s.pcs w).passed = false) (hcalled : s.pcs w ≠ .idle) (hcounted : pc.counted = false)
    (hstage : Stage job (tr ++ es) s.packFailed w pc) (hgate : Gate job s pc)
    (hsound : ∀ e ∈ es, e.Sound job s) (honce : ∀ panel, (tr ++ es).count (.packed w panel) ≤ 1) :
    JobInv job (tr ++ es) (s.move w pc) := by
  refine jobInv_moves h (moves_move pc) hes (h.active w hcalled) hstage hgate (ready_same h ?_)
    (published_same h hes fun hbehind => ?_) hsound honce
  · rw [hcounted]
    cases hpc : s.pcs w <;> rw [hpc] at hpassed <;> first
      | rfl
      | cases hpassed
  · rw [hbehind] at hpassed
    cases hpassed

theorem owner_of_stage {panel : ℕ}
    (hpc : s.pcs w = .packing panel ∨ s.pcs w = .preparing) : w = job.owner panel := by
  have hstage := h.stage w
  unfold ParallelGemmJob.owner
  rcases hpc with hpc | hpc <;> rw [hpc] at hstage
  · obtain ⟨hparallel, hmod, -⟩ := hstage
    rw [hparallel, if_pos rfl, hmod]
  · obtain ⟨⟨hserial, hzero⟩, -⟩ := hstage
    rw [hserial, if_neg Bool.false_ne_true, hzero]

end

/-- The next panel of a packer is the only one of its class up to the one behind. -/
theorem eq_of_class {panel panel' threads : ℕ} (hlt : panel' < panel + threads)
    (hle : panel ≤ panel') (hmod : panel' % threads = panel % threads) : panel' = panel := by
  have hdvd : threads ∣ panel' - panel :=
    Nat.dvd_of_mod_eq_zero (Nat.sub_mod_eq_zero_of_mod_eq hmod)
  have hzero := Nat.eq_zero_of_dvd_of_lt hdvd (by omega)
  omega

section

variable (h : JobInv job tr s)

include h

theorem jobInv_pack {panel : ℕ} (hpc : s.pcs w = .packing panel)
    (hlt : panel < job.columnPanelCount) :
    JobInv job (tr ++ [.packed w panel]) (s.move w (.packing (panel + job.activeThreads))) := by
  obtain ⟨hparallel, hmod, hfail, hpacked⟩ := h.stage_of hpc
  have hactive := h.active w (by rw [hpc]; exact JobPc.noConfusion)
  have hnew : .packed w panel ∉ tr := fun hmem => Nat.lt_irrefl _ ((hpacked panel).1 hmem).1
  refine jobInv_packer h (fun e he => by rw [mem_singleton.1 he]; rfl) (by rw [hpc]; rfl)
    (by rw [hpc]; exact JobPc.noConfusion) rfl ⟨hparallel, ?_, ?_, fun panel' => ?_⟩ trivial ?_
    fun panel' => ?_
  · rw [Nat.add_mod_right, hmod]
  · simpa using hfail
  · rw [mem_append, hpacked, mem_singleton, JobEvent.packed.injEq]
    constructor
    · rintro (⟨hbelow, hclass⟩ | ⟨-, rfl⟩)
      · exact ⟨by omega, hclass⟩
      · exact ⟨by omega, hmod⟩
    · rintro ⟨hbelow, hclass⟩
      by_cases hle : panel ≤ panel'
      · exact .inr ⟨rfl, eq_of_class hbelow hle (hclass.trans hmod.symm)⟩
      · exact .inl ⟨by omega, hclass⟩
  · intro e he
    rw [mem_singleton.1 he]
    exact ⟨hlt, owner_of_stage h (.inl hpc)⟩
  · rw [count_append]
    by_cases hsame : panel' = panel
    · rw [hsame, count_eq_zero.2 hnew, List.count_singleton_self]
    · have hother : [JobEvent.packed w panel].count (.packed w panel') = 0 :=
        count_eq_zero.2 fun hmem => hsame (JobEvent.packed.inj (mem_singleton.1 hmem)).2
      rw [hother, Nat.add_zero]
      exact h.once w panel'

theorem jobInv_packAll {panel : ℕ} (hpc : s.pcs w = .packing panel)
    (hdone : job.columnPanelCount ≤ panel) : JobInv job (tr ++ []) (s.move w .counting) := by
  obtain ⟨hparallel, _, hfail, hpacked⟩ := h.stage_of hpc
  refine jobInv_packer h nofun (by rw [hpc]; rfl)
    (by rw [hpc]; exact JobPc.noConfusion) rfl ?_ trivial nofun ?_
  · rw [append_nil]
    refine fun _ => .inr ⟨hfail, fun panel' hpanel howner => ?_⟩
    unfold ParallelGemmJob.owner at howner
    rw [hparallel, if_pos rfl] at howner
    exact (hpacked panel').2 ⟨by omega, howner⟩
  · rw [append_nil]
    exact h.once w

theorem jobInv_prepare (hpc : s.pcs w = .preparing) :
    JobInv job (tr ++ (range job.columnPanelCount).map (.packed w)) (s.move w .publishing) := by
  obtain ⟨hserial, hfail, hpacked⟩ := h.stage_of hpc
  have hes : ∀ e ∈ (range job.columnPanelCount).map (JobEvent.packed w),
      ∃ panel < job.columnPanelCount, e = .packed w panel := by
    intro e he
    obtain ⟨panel, hpanel, rfl⟩ := mem_map.1 he
    exact ⟨panel, List.mem_range.1 hpanel, rfl⟩
  refine jobInv_packer h (fun e he => ?_) (by rw [hpc]; rfl)
    (by rw [hpc]; exact JobPc.noConfusion) rfl ⟨hserial, ?_, fun panel hpanel => ?_⟩ trivial
    (fun e he => ?_) fun panel => ?_
  · obtain ⟨panel, -, rfl⟩ := hes e he
    rfl
  · rw [mem_append, not_or]
    refine ⟨hfail, fun hmem => ?_⟩
    obtain ⟨panel, -, he⟩ := hes _ hmem
    cases he
  · exact mem_append_right _ (List.mem_map_of_mem (List.mem_range.2 hpanel))
  · obtain ⟨panel, hpanel, rfl⟩ := hes e he
    exact ⟨hpanel, owner_of_stage h (.inr hpc)⟩
  · rw [count_append, count_eq_zero.2 (hpacked panel), Nat.zero_add]
    refine List.nodup_iff_count_le_one.1 (List.nodup_range.map fun a b hab => ?_) _
    exact (JobEvent.packed.inj hab).2

theorem jobInv_fail (hpc : (∃ panel, s.pcs w = .packing panel) ∨ s.pcs w = .preparing) :
    JobInv job (tr ++ [.packFailed w]) (s.move w .reporting) := by
  have hpassed : (s.pcs w).passed = false := by
    rcases hpc with ⟨_, hpc⟩ | hpc <;> rw [hpc] <;> rfl
  have hcalled : s.pcs w ≠ .idle := by
    rcases hpc with ⟨_, hpc⟩ | hpc <;> rw [hpc] <;> exact JobPc.noConfusion
  have hpacker := h.packer_of_stage hpassed hcalled
  refine jobInv_packer h (fun e he => by rw [mem_singleton.1 he]; rfl) hpassed hcalled rfl
    ⟨hpacker, mem_append_right _ mem_cons_self⟩ trivial (fun e he => ?_) fun panel => ?_
  · rw [mem_singleton.1 he]
    exact hpacker
  · have hnone : [JobEvent.packFailed w].count (.packed w panel) = 0 :=
      count_eq_zero.2 fun hmem => JobEvent.noConfusion (mem_singleton.1 hmem)
    rw [count_append, hnone, Nat.add_zero]
    exact h.once w panel

theorem jobInv_publish (hpc : s.pcs w = .publishing) :
    JobInv job (tr ++ []) ({ s with published := true }.move w .counting) := by
  obtain ⟨⟨hserial, hzero⟩, hfail, hpacked⟩ := h.stage_of hpc
  have hmoves : Moves job s ({ s with published := true }.move w .counting) w .counting := by
    refine ⟨rfl, id, fun hopen => ⟨?_, id⟩⟩
    unfold ParallelGemmJob.Open at hopen ⊢
    rw [hserial, if_neg Bool.false_ne_true]
    rfl
  refine jobInv_moves h hmoves nofun
    (h.active w (by rw [hpc]; exact JobPc.noConfusion)) ?_ trivial
    (ready_same h (by rw [hpc]; rfl)) (fun _ _ => ?_) nofun ?_
  · rw [append_nil]
    exact fun _ => .inr ⟨hfail, fun panel hpanel _ => hpacked panel hpanel⟩
  · rw [append_nil, ← hzero, update_self]
    exact ⟨rfl, hfail⟩
  · rw [append_nil]
    exact h.once w

/-- A failure is known before its worker counts itself in: the gate is still shut. -/
theorem jobInv_report (hpc : s.pcs w = .reporting) :
    JobInv job (tr ++ []) ({ s with packFailed := true }.move w .counting) := by
  have hcalled : s.pcs w ≠ .idle := by rw [hpc]; exact JobPc.noConfusion
  have hstage := h.stage_of hpc
  have hmoves : Moves job s ({ s with packFailed := true }.move w .counting) w .counting := by
    refine ⟨rfl, fun _ => rfl, fun hopen => ?_⟩
    have hpassed := h.passed_of_open hopen hcalled
    rw [hpc] at hpassed
    cases hpassed
  refine jobInv_moves h hmoves nofun (h.active w hcalled) ?_
    trivial (ready_same h (by rw [hpc]; rfl))
    (published_same h nofun fun hpassed => ?_)
    nofun ?_
  · rw [append_nil]
    exact fun _ => .inl ⟨hstage.2, rfl⟩
  · rw [hpc] at hpassed
    cases hpassed
  · rw [append_nil]
    exact h.once w

/-- The last worker to count itself in opens the gate. -/
theorem jobInv_count (hpc : s.pcs w = .counting) :
    JobInv job (tr ++ []) ({ s with workersReady := s.workersReady + 1 }.move w .polling) := by
  have hactive := h.active w (by rw [hpc]; exact JobPc.noConfusion)
  have hmoves : Moves job s ({ s with workersReady := s.workersReady + 1 }.move w .polling) w
      .polling := by
    refine ⟨rfl, id, fun hopen => ⟨?_, id⟩⟩
    unfold ParallelGemmJob.Open at hopen ⊢
    cases hparallel : job.parallelPackB with
    | true =>
      rw [hparallel, if_pos rfl] at hopen
      have hcounted := below_eq_iff.1 (h.ready.symm.trans hopen) w hactive
      rw [hpc] at hcounted
      cases hcounted
    | false =>
      rw [hparallel] at hopen
      exact hopen
  refine jobInv_moves h hmoves nofun hactive ?_ trivial ?_
    (published_same h nofun fun _ =>
      ⟨rfl, not_mem_nil⟩) nofun ?_
  · rw [append_nil]
    exact h.resolved_of_passed (by rw [hpc]; rfl)
  · change s.workersReady + 1 = _
    rw [h.ready]
    refine (below_gain hactive ?_ ?_ fun v hv => ?_).symm
    · rw [hpc]
      exact Bool.false_ne_true
    · rw [update_self]
      rfl
    · rw [update_of_ne hv]
  · rw [append_nil]
    exact h.once w

theorem jobInv_step (hstep : JobStep job s w es s') : JobInv job (tr ++ es) s' := by
  cases hstep with
  | wait pc waits =>
    rcases waits with rfl | rfl <;> exact jobInv_advance h pc rfl trivial
  | leave pc opened => exact jobInv_advance h pc rfl opened
  | finish pc => exact jobInv_advance h pc rfl trivial
  | accept pc succeeded =>
    have hgate := h.gate w
    rw [pc] at hgate
    refine jobInv_advance h (by rw [pc]; rfl) rfl ⟨hgate.resolve_left ?_, succeeded⟩
    rw [succeeded]
    exact Bool.false_ne_true
  | compute pc =>
    have hgate := h.gate w
    rcases pc with pc | ⟨_, pc⟩ <;> rw [pc] at hgate <;>
      exact jobInv_advance h (by rw [pc]; rfl) rfl hgate
  | access pc event =>
    have hgate := h.gate w
    have hactive := h.active w (by rw [pc]; exact JobPc.noConfusion)
    rw [pc] at hgate
    rcases event with rfl | rfl <;>
      exact jobInv_emit h rfl hactive (fun _ => JobEvent.noConfusion) JobEvent.noConfusion hgate
  | write pc more =>
    have hactive := h.active w (by rcases pc with pc | pc <;> rw [pc] <;> exact JobPc.noConfusion)
    exact jobInv_emit h rfl hactive (fun _ => JobEvent.noConfusion) JobEvent.noConfusion
      ⟨more, owner_of_stage h pc⟩
  | pack pc more => exact jobInv_pack h pc more
  | packAll pc done => exact jobInv_packAll h pc done
  | prepare pc => exact jobInv_prepare h pc
  | fail pc => exact jobInv_fail h pc
  | publish pc => exact jobInv_publish h pc
  | report pc => exact jobInv_report h pc
  | count pc => exact jobInv_count h pc

theorem jobInv_enter (hpc : s.pcs w = .idle) (hactive : w < job.activeThreads) :
    JobInv job tr (job.enter s w) := by
  obtain ⟨hfail, hpacked⟩ := h.stage_of hpc
  have hpassed : (s.pcs w).passed = false := by rw [hpc]; rfl
  have hcounted : (s.pcs w).counted = false := by rw [hpc]; rfl
  have hrule : ∀ pc : JobPc, pc.counted = false → Stage job tr s.packFailed w pc →
      Gate job s pc → JobInv job tr (s.move w pc) := by
    intro pc hpc' hstage' hgate
    have hmoved := @jobInv_moves job s (s.move w pc) tr [] w h pc (moves_move pc)
      nofun hactive
    have hsame := @published_same job s tr [] w h pc nofun
      fun hbehind => by rw [hbehind] at hpassed; cases hpassed
    rw [append_nil] at hmoved hsame
    exact hmoved hstage' hgate (ready_same h (hpc'.trans hcounted.symm)) hsame
      nofun (h.once w)
  unfold ParallelGemmJob.enter
  rw [if_neg (Nat.not_le.2 hactive)]
  cases hparallel : job.parallelPackB with
  | true =>
    rw [if_pos rfl]
    refine hrule _ rfl ⟨hparallel, Nat.mod_eq_of_lt hactive, hfail, fun panel => ?_⟩ trivial
    refine iff_of_false (hpacked panel) ?_
    rintro ⟨hlt, hmod⟩
    rw [Nat.mod_eq_of_lt (by omega)] at hmod
    omega
  | false =>
    rw [if_neg Bool.false_ne_true]
    split
    · exact hrule _ rfl ⟨⟨hparallel, ‹_›⟩, hfail, hpacked⟩ trivial
    · refine hrule _ rfl (fun hpacker => ?_) trivial
      unfold ParallelGemmJob.Packer at hpacker
      rw [hparallel, if_neg Bool.false_ne_true] at hpacker
      exact absurd hpacker ‹_›

end

theorem pcs_of_step (hstep : JobStep job s w es s') :
    s.pcs w ≠ .idle ∧ ∀ v, v ≠ w → s'.pcs v = s.pcs v := by
  have hmove : ∀ (t : JobState) (pc : JobPc), t.pcs = s.pcs →
      ∀ v, v ≠ w → (t.move w pc).pcs v = s.pcs v := by
    intro t pc ht v hv
    unfold JobState.move
    dsimp only
    rw [update_of_ne hv, ht]
  cases hstep with
  | write pc | fail pc =>
    refine ⟨?_, ?_⟩
    · rcases pc with pc | pc <;> (try obtain ⟨_, pc⟩ := pc) <;> rw [pc] <;> exact JobPc.noConfusion
    · first
      | exact hmove s _ rfl
      | exact fun _ _ => rfl
  | compute pc =>
    refine ⟨?_, hmove s _ rfl⟩
    rcases pc with pc | ⟨_, pc⟩ <;> rw [pc] <;> exact JobPc.noConfusion
  | wait pc | leave pc | finish pc =>
    refine ⟨fun hidle => ?_, hmove s _ rfl⟩
    rw [hidle] at pc
    cases pc
  | access pc => exact ⟨by rw [pc]; exact JobPc.noConfusion, fun _ _ => rfl⟩
  | _ pc => exact ⟨by rw [pc]; exact JobPc.noConfusion, hmove _ _ rfl⟩

/-! ## Runs -/

/-- The events of the context. -/
def contextEvents (tr : List JobRunEvent) : List Event :=
  tr.filterMap fun
    | .context e => some e
    | .job _ => none

/-- The events of the job. -/
def jobEvents (tr : List JobRunEvent) : List JobEvent :=
  tr.filterMap fun
    | .context _ => none
    | .job e => some e

/-- The tasks of submission `g` begin as the context promises. -/
def Once (job : ParallelGemmJob) (g : ℕ) (tr : List Event) : Prop :=
  ∀ i w, tr.count (.task g i w) ≤
    if i < job.activeThreads ∧ w = i % job.activeThreads then 1 else 0

/-- A run up to here: of the context, and of the job in it. -/
structure Joint (job : ParallelGemmJob) (g workerCount : ℕ) (tr : List JobRunEvent) (s : JobRun) :
    Prop where
  run : ∃ actions, Parallel.run (.create workerCount) actions = some (s.context, contextEvents tr)
  called : ∀ w, s.job.pcs w ≠ .idle → ∃ i, .task g i w ∈ contextEvents tr
  inv : Once job g (contextEvents tr) → JobInv job (jobEvents tr) s.job

variable {g : ℕ}

theorem once_of_append {tr tr' : List Event} (h : Once job g (tr ++ tr')) :
    Once job g tr := by
  intro i w
  refine le_trans ?_ (h i w)
  rw [count_append]
  exact Nat.le_add_right _ _

variable {ctr : List Event}

theorem observe_event {e : Event} (hcalled : ∀ w, s.pcs w ≠ .idle → ∃ i, .task g i w ∈ ctr)
    (hinv : Once job g ctr → JobInv job tr s) :
    (∀ w, (job.observe g s e).pcs w ≠ .idle → ∃ i, .task g i w ∈ ctr ++ [e]) ∧
      (Once job g (ctr ++ [e]) → JobInv job tr (job.observe g s e)) := by
  have hkept : job.observe g s e = s →
      (∀ w, (job.observe g s e).pcs w ≠ .idle → ∃ i, .task g i w ∈ ctr ++ [e]) ∧
        (Once job g (ctr ++ [e]) → JobInv job tr (job.observe g s e)) := by
    intro hsame
    rw [hsame]
    refine ⟨fun w hw => ?_, fun honce => hinv (once_of_append honce)⟩
    obtain ⟨i, hi⟩ := hcalled w hw
    exact ⟨i, List.mem_append_left _ hi⟩
  cases e with
  | task g' i w =>
    by_cases hg : g' = g
    · have henter : job.observe g s (.task g' i w) = job.enter s w := if_pos hg
      subst hg
      rw [henter]
      refine ⟨fun v hv => ?_, fun honce => ?_⟩
      · by_cases hvw : v = w
        · exact ⟨i, mem_append_right _ (hvw ▸ mem_cons_self)⟩
        · unfold ParallelGemmJob.enter JobState.move at hv
          dsimp only at hv
          rw [update_of_ne hvw] at hv
          obtain ⟨i', hi'⟩ := hcalled v hv
          exact ⟨i', List.mem_append_left _ hi'⟩
      · have hclass : ∀ i', .task g' i' w ∈ ctr ++ [.task g' i w] →
            i' < job.activeThreads ∧ w = i' := by
          intro i' hi'
          have hle := honce i' w
          have hpos := List.count_pos_iff.2 hi'
          split at hle
          · rename_i hbound
            exact ⟨hbound.1, hbound.2.trans (Nat.mod_eq_of_lt hbound.1)⟩
          · omega
        obtain ⟨hactive, hw⟩ := hclass i (mem_append_right _ mem_cons_self)
        refine jobInv_enter (hinv (once_of_append honce)) ?_ (hw ▸ hactive)
        by_contra hbusy
        obtain ⟨i', hi'⟩ := hcalled w hbusy
        obtain ⟨-, hw'⟩ := hclass i' (List.mem_append_left _ hi')
        have hle := honce i w
        have hsame : i' = i := hw'.symm.trans hw
        have hpos := List.count_pos_iff.2 (hsame ▸ hi')
        rw [count_append, List.count_singleton_self] at hle
        split at hle <;> omega
    · exact hkept (if_neg hg)
  | _ => exact hkept rfl

theorem observe_events (events : List Event)
    (hcalled : ∀ w, s.pcs w ≠ .idle → ∃ i, .task g i w ∈ ctr)
    (hinv : Once job g ctr → JobInv job tr s) :
    (∀ w, (events.foldl (job.observe g) s).pcs w ≠ .idle → ∃ i, .task g i w ∈ ctr ++ events) ∧
      (Once job g (ctr ++ events) → JobInv job tr (events.foldl (job.observe g) s)) := by
  induction events generalizing ctr s with
  | nil =>
    rw [append_nil]
    exact ⟨hcalled, hinv⟩
  | cons e events ih =>
    obtain ⟨hcalled', hinv'⟩ := observe_event hcalled hinv
    have hrest := ih hcalled' hinv'
    rwa [List.append_assoc] at hrest

section Runs

variable {g n : ℕ} {jtr : List JobRunEvent} {u u' : JobRun}

theorem events_context (events : List Event) :
    contextEvents (jtr ++ events.map .context) = contextEvents jtr ++ events ∧
      jobEvents (jtr ++ events.map .context) = jobEvents jtr := by
  unfold contextEvents jobEvents
  constructor <;> induction events <;> simp_all [filterMap_append, List.filterMap_map]

theorem events_job (events : List JobEvent) :
    contextEvents (jtr ++ events.map .job) = contextEvents jtr ∧
      jobEvents (jtr ++ events.map .job) = jobEvents jtr ++ events := by
  unfold contextEvents jobEvents
  constructor <;> induction events <;> simp_all [filterMap_append, List.filterMap_map]

theorem mem_jobEvents {e : JobEvent} : e ∈ jobEvents jtr ↔ .job e ∈ jtr := by
  unfold jobEvents
  rw [List.mem_filterMap]
  constructor
  · rintro ⟨event, hmem, he⟩
    cases event <;> cases he
    exact hmem
  · exact fun h => ⟨_, h, rfl⟩

theorem mem_contextEvents {e : Event} : e ∈ contextEvents jtr ↔ .context e ∈ jtr := by
  unfold contextEvents
  rw [List.mem_filterMap]
  constructor
  · rintro ⟨event, hmem, he⟩
    cases event <;> cases he
    exact hmem
  · exact fun h => ⟨_, h, rfl⟩

theorem count_job (e : JobEvent) : jtr.count (.job e) = (jobEvents jtr).count e := by
  induction jtr with
  | nil => rfl
  | cons event jtr ih =>
    have hcons : jobEvents (event :: jtr) = jobEvents [event] ++ jobEvents jtr := by
      unfold jobEvents
      rw [← filterMap_append]
      rfl
    rw [hcons, count_append, List.count_cons, ih]
    cases event with
    | context event => simp [jobEvents]
    | job event => simp [jobEvents, List.count_singleton, Nat.add_comm]

variable {events : List JobRunEvent}

theorem next_cases {action : JobRunAction} (h : job.next g u action = some (u', events)) :
    (∃ action es, u.context.next action = some (u'.context, es) ∧ events = es.map .context ∧
        u'.job = es.foldl (job.observe g) u.job) ∨
      ∃ w es, JobStep job u.job w es u'.job ∧ events = es.map .job ∧ u'.context = u.context := by
  cases action with
  | context action =>
    unfold ParallelGemmJob.next at h
    dsimp only at h
    split at h
    · obtain ⟨⟨context, es⟩, hnext, heq⟩ := Option.map_eq_some_iff.1 h
      cases heq
      exact .inl ⟨action, es, hnext, rfl, rfl⟩
    · cases h
  | job w choice =>
    unfold ParallelGemmJob.next at h
    dsimp only at h
    split at h
    · split at h
      · obtain ⟨⟨after, es⟩, hstep, heq⟩ := Option.map_eq_some_iff.1 h
        cases heq
        exact .inr ⟨w, es, jobStep_of_step hstep, rfl, rfl⟩
      · cases h
    · cases h

theorem joint_step {action : JobRunAction} (h : Joint job g n jtr u)
    (hnext : job.next g u action = some (u', events)) : Joint job g n (jtr ++ events) u' := by
  rcases next_cases hnext with ⟨action, es, hcontext, rfl, hjob⟩ | ⟨w, es, hstep, rfl, hcontext⟩
  · obtain ⟨hcalled, hinv⟩ := observe_events es h.called h.inv
    obtain ⟨actions, hrun⟩ := h.run
    obtain ⟨hcevents, hjevents⟩ := @events_context jtr es
    refine ⟨⟨actions ++ [action], ?_⟩, ?_, ?_⟩
    · rw [hcevents]
      exact Trace.run_concat.2 ⟨u.context, _, es, hrun, hcontext, rfl⟩
    · rw [hcevents, hjob]
      exact hcalled
    · rw [hcevents, hjevents, hjob]
      exact hinv
  · obtain ⟨hcevents, hjevents⟩ := @events_job jtr es
    obtain ⟨hbusy, hothers⟩ := pcs_of_step hstep
    refine ⟨?_, fun v hv => ?_, fun honce => ?_⟩
    · rw [hcevents, hcontext]
      exact h.run
    · rw [hcevents]
      by_cases hvw : v = w
      · exact h.called v (hvw ▸ hbusy)
      · exact h.called v (hothers v hvw ▸ hv)
    · rw [hjevents]
      exact jobInv_step (h.inv (hcevents ▸ honce)) hstep

variable {actions : List JobRunAction}

theorem joint_run (h : job.run g n actions = some (u, jtr)) :
    Joint job g n jtr u :=
  Trace.run_invariant
    ⟨⟨[], rfl⟩, fun _ hw => absurd rfl hw, fun _ => jobInv_start⟩
    (fun _ _ _ _ _ hjoint hnext => joint_step hjoint hnext) h

variable {policy : NestingPolicy}

theorem once_of_accepted (h : Joint job g n jtr u) {c : ℕ}
    (haccepted : .context (.accepted g c (job.request policy)) ∈ jtr) :
    Once job g (contextEvents jtr) := by
  obtain ⟨actions, hrun⟩ := h.run
  exact tasks_once (context_live hrun).reached (mem_contextEvents.2 haccepted)

/-- A worker that reads is behind the gate, and one that writes is in front of it. -/
theorem access_step {e : JobEvent} (hstep : JobStep job s w es s') (hmem : e ∈ es)
    (haccess : (∃ v task, e = .read v task) ∨ ∃ v panel, e = .wrote v panel) :
    es = [e] ∧ ((∃ v task, e = .read v task) → ∃ task, s.pcs w = .computing task) ∧
      ((∃ v panel, e = .wrote v panel) → (∃ panel, s.pcs w = .packing panel) ∨
        s.pcs w = .preparing) := by
  cases hstep with
  | write pc =>
    obtain rfl := mem_singleton.1 hmem
    refine ⟨rfl, ?_, fun _ => pc.imp_left fun pc => ⟨_, pc⟩⟩
    rintro ⟨_, _, he⟩
    cases he
  | access pc event =>
    obtain rfl := mem_singleton.1 hmem
    refine ⟨rfl, fun _ => ⟨_, pc⟩, ?_⟩
    rintro ⟨_, _, rfl⟩
    rcases event with he | he <;> cases he
  | prepare =>
    obtain ⟨_, -, rfl⟩ := mem_map.1 hmem
    rcases haccess with ⟨_, _, he⟩ | ⟨_, _, he⟩ <;> cases he
  | pack | fail =>
    obtain rfl := mem_singleton.1 hmem
    rcases haccess with ⟨_, _, he⟩ | ⟨_, _, he⟩ <;> cases he
  | _ => cases hmem

theorem access_emitted (hrun : job.run g n actions = some (u, jtr))
    (honce : Once job g (contextEvents jtr)) {before after : List JobRunEvent} {e : JobEvent}
    (he : jtr = before ++ .job e :: after)
    (haccess : (∃ v task, e = .read v task) ∨ ∃ v panel, e = .wrote v panel) :
    ∃ (s s' : JobState) (w : ℕ), JobInv job (jobEvents before) s ∧ JobStep job s w [e] s' := by
  obtain ⟨actions₁, u₁, action, u₂, _, es₁, l, r, _, hrun₁, hnext, -, rfl⟩ :=
    Trace.run_emitted hrun he
  have hjoint := joint_run hrun₁
  rcases next_cases hnext with ⟨_, es, -, hes, -⟩ | ⟨w, es, hstep, hes, -⟩
  · have hmem : JobRunEvent.job e ∈ es.map .context :=
      hes ▸ mem_append_right l mem_cons_self
    obtain ⟨_, -, hcases⟩ := mem_map.1 hmem
    cases hcases
  · have hmem : JobRunEvent.job e ∈ es.map .job :=
      hes ▸ mem_append_right l mem_cons_self
    obtain ⟨e', he', hsame⟩ := mem_map.1 hmem
    cases hsame
    obtain ⟨rfl, -⟩ := access_step hstep he' haccess
    have hnone : l = [] := by
      cases l with
      | nil => rfl
      | cons x l =>
        have hlength := congrArg List.length hes
        simp at hlength
    subst hnone
    rw [append_nil] at he ⊢
    have hbeforeOnce : Once job g (contextEvents es₁) := by
      rw [he, contextEvents, filterMap_append] at honce
      exact once_of_append honce
    exact ⟨u₁.job, _, w, hjoint.inv hbeforeOnce, hstep⟩

/-- **Publication.** In every interleaving, with the panels packed by one worker or by all: an
output partition reads the packed B behind every write to it, when all panels are packed; a panel
is packed by one worker, once; and if a packer fails, no partition reads or writes. -/
theorem publication (hrun : job.run g n actions = some (u, jtr)) {c : ℕ}
    (haccepted : .context (.accepted g c (job.request policy)) ∈ jtr) :
    (∀ before after w task, jtr = before ++ .job (.read w task) :: after →
      (∀ panel < job.columnPanelCount, .job (.packed (job.owner panel) panel) ∈ before) ∧
        ∀ v panel, .job (.wrote v panel) ∉ after) ∧
    (∀ v panel, .job (.wrote v panel) ∈ jtr ∨ .job (.packed v panel) ∈ jtr →
      panel < job.columnPanelCount ∧ v = job.owner panel) ∧
    (∀ v panel, jtr.count (.job (.packed v panel)) ≤ 1) ∧
    ∀ v, .job (.packFailed v) ∈ jtr → ∀ w task,
      .job (.read w task) ∉ jtr ∧ .job (.stored w task) ∉ jtr := by
  have hjoint := joint_run hrun
  have honce := once_of_accepted hjoint haccepted
  have hinv := hjoint.inv honce
  refine ⟨fun before after w task he => ⟨?_, fun v panel hwrote => ?_⟩, ?_, fun v panel => ?_, ?_⟩
  · obtain ⟨s, s', w', hbefore, hstep⟩ :=
      access_emitted hrun honce he (.inl ⟨w, task, rfl⟩)
    obtain ⟨-, hreads, -⟩ := access_step hstep mem_cons_self (.inl ⟨w, task, rfl⟩)
    obtain ⟨_, hpc⟩ := hreads ⟨w, task, rfl⟩
    have hgate := hbefore.gate w'
    rw [hpc] at hgate
    have hactive := hbefore.active w' (by rw [hpc]; exact JobPc.noConfusion)
    intro panel hpanel
    exact mem_jobEvents.1
      (hbefore.all_packed hgate.1 hgate.2 (Nat.zero_lt_of_lt hactive) hpanel)
  · -- the write would come behind the read, with the gate open
    obtain ⟨after₁, after₂, rfl⟩ := List.append_of_mem hwrote
    have hsplit : jtr = (before ++ .job (.read w task) :: after₁) ++
        .job (.wrote v panel) :: after₂ := by
      rw [he, List.append_assoc]
      rfl
    obtain ⟨s, s', w', hbefore, hstep⟩ :=
      access_emitted hrun honce hsplit (.inr ⟨v, panel, rfl⟩)
    obtain ⟨-, -, hwrites⟩ := access_step hstep mem_cons_self (.inr ⟨v, panel, rfl⟩)
    have hread : .read w task ∈ jobEvents (before ++ .job (.read w task) :: after₁) :=
      mem_jobEvents.2 (mem_append_right _ mem_cons_self)
    have hopen := (hbefore.sound _ hread).1
    rcases hwrites ⟨v, panel, rfl⟩ with ⟨_, hpc⟩ | hpc
    all_goals
      have hpassed := hbefore.passed_of_open hopen (by rw [hpc]; exact JobPc.noConfusion)
      rw [hpc] at hpassed
      cases hpassed
  · intro v panel h
    rcases h with h | h
    · exact hinv.sound _ (mem_jobEvents.2 h)
    · exact hinv.sound _ (mem_jobEvents.2 h)
  · rw [count_job]
    exact hinv.once v panel
  · intro v hfail w task
    have hshut : ¬ (job.Open u.job ∧ u.job.packFailed = false) :=
      fun hopen => hinv.none_failed hopen.1 hopen.2 (mem_jobEvents.2 hfail)
    exact ⟨fun hread => hshut (hinv.sound _ (mem_jobEvents.2 hread)),
      fun hstored => hshut (hinv.sound _ (mem_jobEvents.2 hstored))⟩

/-- Two workers that pack a panel each. -/
def cooperativeJob : ParallelGemmJob :=
  { parallelPackB := true, columnPanelCount := 2, taskCount := 2, activeThreads := 2
    activeThreads_lt := by decide }

/-- The first worker waits for the panel of the second. -/
def cooperativeActions : List JobRunAction :=
  [Action.call 0 (cooperativeJob.request .nativeOnly), .client 0, .client 0, .client 0, .worker 1,
    .worker 0, .worker 0, .finish 0 .success, .worker 0, .worker 1, .finish 1 .success, .worker 1,
    .worker 0, .worker 0, .worker 1].map .context ++
  [.job 0 (.store 0), .job 0 (.advance true), .job 0 (.advance true), .job 0 (.advance true),
    .job 0 (.advance true), .job 0 (.advance true), .job 1 (.store 1), .job 1 (.advance true),
    .job 1 (.advance true), .job 1 (.advance true), .job 0 (.advance true), .job 0 (.advance true),
    .job 0 (.advance true), .job 0 (.advance true), .job 0 .load, .job 0 (.store 0)]

def cooperativeTrace : List JobRunEvent :=
  ((cooperativeJob.run 0 2 cooperativeActions).map Prod.snd).getD []

theorem publication_cooperative :
    ∃ before after, cooperativeTrace = before ++ .job (.read 0 0) :: after ∧
      .job (.packed 1 1) ∈ before := by
  have hsome : (cooperativeJob.run 0 2 cooperativeActions).isSome = true := by decide +kernel
  obtain ⟨⟨u, jtr⟩, hrun⟩ := Option.isSome_iff_exists.1 hsome
  have htrace : cooperativeTrace = jtr := by
    unfold cooperativeTrace
    rw [hrun]
    rfl
  have hread : .job (.read 0 0) ∈ cooperativeTrace := by decide +kernel
  have haccepted : .context (.accepted 0 0 (cooperativeJob.request .nativeOnly)) ∈
      cooperativeTrace := by decide +kernel
  obtain ⟨before, after, he⟩ := List.append_of_mem hread
  rw [htrace] at haccepted he ⊢
  obtain ⟨hreads, -⟩ := publication hrun haccepted
  exact ⟨before, after, he, (hreads before after 0 0 he).1 1 (by decide)⟩

end Runs

end Matcore.Gemm
