import Matcore.Proof.ContextAwake

/-!
# Every submission returns

The workers and the submitter alone can run a submission to its return, without spurious wake-ups.
-/

namespace Matcore.Parallel

open Function (update update_self)
open Count

variable {s s' : Context} {tr es : List Event} {g w c : ℕ}

/-- The submission whose `run_tasks` an outside thread is in. -/
def ClientPc.serving : ClientPc → Option ℕ
  | notifying g | waiting g | returning g => some g
  | idle | locking _ | locked _ | lockingShutdown | shuttingDown | notifyingShutdown
  | joining => none

theorem serving_step (hs : Step s es s') (h : (s.clients c).serving = some g) :
    (s'.clients c).serving = some g ∨ ∃ status, .returned g status ∈ es := by
  rcases client_move hs c with hsame | hmove
  · exact .inl (hsame ▸ h)
  · generalize s.clients c = pc, s'.clients c = pc' at h hmove ⊢
    cases hmove with
    | notify | complete => exact .inl h
    | giveBack shown => cases h; exact .inr ⟨_, shown⟩
    | leave left => rcases left with rfl | rfl <;> cases h
    | _ => cases h

theorem current_of_checking {pc : WorkerPc} (h : pc.checking = some g) : pc.current = some g := by
  cases pc with
  | calling g' callback notifying => cases callback <;> cases h; rfl
  | _ => cases h <;> rfl

/-- What holds behind every run, of the submissions in flight too. -/
structure Live (tr : List Event) (s : Context) : Prop where
  reached : Reached tr s
  awake : s.submitted < 2 ^ 64 → Awake s
  checking : ∀ w g, (s.workers w).pc.checking = some g → (s.submissions g).preflight = true
  serving : ∀ g c r, .accepted g c r ∈ tr →
    (s.clients c).serving = some g ∨ ∃ status, .returned g status ∈ tr

theorem live_create (workerCount : ℕ) : Live [] (.create workerCount) where
  reached := reached_create workerCount
  awake _ := ⟨nofun, nofun, nofun, nofun, nofun⟩
  checking := nofun
  serving := nofun

theorem Live.step (h : Live tr s) {a : Action} (hn : s.next a = some (s', es)) :
    Live (tr ++ es) s' := by
  have hs := step_of_next hn
  have hk := step_keeps hs
  have hr := h.reached.step hn
  refine ⟨hr, fun hlt => ?_, fun w g hw => ?_, fun g c r he => ?_⟩
  · have hlt' := hk.submitted.trans_lt hlt
    exact awake_step (h.awake hlt') h.reached.inv hs hlt'
  · have kept : (s.workers w).pc.current = some g → (s.submissions g).preflight = true →
        (s'.submissions g).preflight = true := by
      intro hcurrent hp
      have hg := h.reached.inv.lt_submitted (h.reached.inv.current w g hcurrent).1
      rw [(active_of_keeps hk hg).2.2, hp]
    rcases checking_step hs hw with hpc | ⟨hold | ⟨hpc, hp⟩, -⟩
    · rw [hpc] at hw
      exact kept (current_of_checking hw) (h.checking w g hw)
    · exact kept (current_of_checking hold) (h.checking w g hold)
    · exact kept (by rw [hpc]; rfl) hp
  · rcases List.mem_append.1 he with he | he
    · rcases h.serving g c r he with hserving | ⟨status, hret⟩
      · exact (serving_step hs hserving).imp_right fun ⟨status, hret⟩ =>
          ⟨status, List.mem_append_right _ hret⟩
      · exact .inr ⟨status, List.mem_append_left _ hret⟩
    · obtain ⟨rfl, rfl⟩ := (events_step h.reached.inv hs).1 g c r he
      left
      rw [show (s.install c r).clients c = .notifying s.submitted from Context.moveClient_self]
      rfl

theorem context_live {n : ℕ} {actions : List Action} (h : run (.create n) actions = some (s, tr)) :
    Live tr s :=
  Trace.run_invariant (live_create n) (fun _ _ _ _ _ hp hn => hp.step hn) h

/-- The steps that a worker with a submission of `taskCount` tasks has left at most. -/
def WorkerPc.rank (taskCount : ℕ) : WorkerPc → ℕ
  | joined _ => 3 * taskCount + 8
  | calling _ .preflight notifying => 3 * taskCount + 6 + notifying.toNat
  | preflighted _ _ => 3 * taskCount + 5
  | barrier _ => 3 * taskCount + 4
  | looping _ i => 3 * (taskCount - i) + 3
  | calling _ (.task i) notifying => 3 * (taskCount - i) + 1 + notifying.toNat
  | finishing _ => 1
  | waiting | exited => 0

def Context.workerRank (s : Context) (g w : ℕ) : ℕ :=
  if s.Pending g w then 3 * (s.submissions g).taskCount + 9
  else (s.workers w).pc.rank (s.submissions g).taskCount

def ClientPc.rank : ClientPc → ℕ
  | notifying _ => 3
  | waiting _ => 2
  | returning _ => 1
  | idle | locking _ | locked _ | lockingShutdown | shuttingDown | notifyingShutdown | joining => 0

/-- How far a submission of an outside thread is from its return. -/
def Context.rank (s : Context) (g c : ℕ) : ℕ :=
  ∑ w ∈ Finset.range (s.submissions g).activeThreads, s.workerRank g w + (s.clients c).rank

/-- A worker that takes a step takes the submission nearer to its return. -/
theorem rank_worker {worker : Worker} (hsame : SameClients s s')
    (hworkers : s'.workers = update s.workers w worker)
    (hargs : (s'.submissions g).arguments = (s.submissions g).arguments)
    (hw : w < (s.submissions g).activeThreads)
    (hlt : s'.workerRank g w < s.workerRank g w) : s'.rank g c < s.rank g c := by
  obtain ⟨htasks, hactive, -⟩ : (s'.submissions g).taskCount = (s.submissions g).taskCount ∧
      (s'.submissions g).activeThreads = (s.submissions g).activeThreads ∧
      (s'.submissions g).preflight = (s.submissions g).preflight := by
    simpa only [Submission.arguments, Prod.mk.injEq] using hargs
  have hother : ∀ x ≠ w, s'.workerRank g x = s.workerRank g x := by
    intro x hx
    have hworker : s'.workers x = s.workers x := by rw [hworkers, Function.update_of_ne hx]
    unfold Context.workerRank
    rw [htasks, hworker]
    refine if_congr ?_ rfl rfl
    simp only [Context.Pending, hsame.submission, hsame.submitted, hworker]
  unfold Context.rank
  rw [hactive, hsame.clients]
  refine Nat.add_lt_add_right (Finset.sum_lt_sum (fun x _ => ?_) ⟨w, Finset.mem_range.2 hw, hlt⟩) _
  by_cases hx : x = w
  · rw [hx]; exact hlt.le
  · exact (hother x hx).le

theorem rank_move {pc : WorkerPc} (hi : Inv s) (hcurrent : (s.workers w).pc.current = some g)
    (hsame : SameClients s s') (hworkers : s'.workers = update s.workers w { s.workers w with pc })
    (hargs : (s'.submissions g).arguments = (s.submissions g).arguments)
    (hlt : pc.rank (s.submissions g).taskCount <
      (s.workers w).pc.rank (s.submissions g).taskCount) : s'.rank g c < s.rank g c := by
  obtain ⟨-, hw, hseen⟩ := hi.current w g hcurrent
  refine rank_worker hsame hworkers hargs hw ?_
  have htasks : (s'.submissions g).taskCount = (s.submissions g).taskCount := congrArg Prod.fst hargs
  have hnot : ¬ s.Pending g w := fun hp => hp.2 hseen
  have hnot' : ¬ s'.Pending g w := by
    rintro ⟨-, hp⟩
    rw [hworkers, update_self, hsame.submitted] at hp
    exact hp hseen
  unfold Context.workerRank
  rwa [if_neg hnot, if_neg hnot', htasks, hworkers, update_self]

/-- What the workers and the submitter of a submission do by themselves. -/
def Action.own (c : ℕ) : Action → Prop
  | worker _ => True
  | client c' => c' = c
  | finish _ status => status = .success
  | call _ _ | callShutdown _ | nestedCall _ _ | nestedShutdown _ | wakeWorker _
  | wakeClient _ => False

/-- Some step of a submission in flight takes it nearer to its return. -/
def Nearer (s : Context) (g c : ℕ) : Prop :=
  ∃ a s' es, a.own c ∧ s.next a = some (s', es) ∧ s'.submitted = s.submitted ∧
    s'.rank g c < s.rank g c

theorem nearer_pending (hi : Inv s) (ha : Awake s) (hlt : s.submitted < 2 ^ 64)
    (hcount : w < s.workerCount) (hc : s.clients c = .waiting g)
    (hw : w < (s.submissions g).activeThreads) (hp : s.Pending g w) : Nearer s g c := by
  have hpc := ha.pending g w hp hw
  have hawake : s.workAvailable w = false := by
    by_contra hasleep
    obtain ⟨c', hc'⟩ := ha.work g w hp hw (by simpa using hasleep)
    have hm := hi.mutex c (by rw [hc]; rfl)
    obtain rfl : c = c' := Option.some.inj (hm.symm.trans (hi.mutex c' (by rw [hc']; rfl)))
    rw [hc] at hc'
    cases hc'
  have hunseen : (s.epoch != (s.workers w).observedEpoch) = true := by
    simpa using fun hepoch => hp.2 (hi.seen_of_epoch hlt hepoch)
  have hjoin : s.awaitWork w = (s.setWorker w ⟨.joined g, s.epoch, s.submitted⟩, [.access g w]) := by
    unfold Context.awaitWork
    dsimp only
    rw [hunseen, hp.1]
    simp [hw]
  refine ⟨.worker w, s.setWorker w ⟨.joined g, s.epoch, s.submitted⟩, [.access g w], trivial, ?_, rfl,
    ?_⟩
  · simp [Context.next, Context.workerStep, hcount, hpc, hawake, hjoin]
  · refine rank_worker ⟨rfl, rfl, rfl, rfl, rfl⟩ rfl rfl hw ?_
    have hnot : ¬ (s.setWorker w ⟨.joined g, s.epoch, s.submitted⟩).Pending g w := by
      rintro ⟨-, hseen⟩
      rw [Context.setWorker_self] at hseen
      exact hseen rfl
    unfold Context.workerRank
    rw [if_pos hp, if_neg hnot, Context.setWorker_self]
    exact Nat.lt_succ_self _

theorem task_lt (h : Reached tr s) {i : ℕ} {notifying : Bool}
    (hpc : (s.workers w).pc = .calling g (.task i) notifying) : i < (s.submissions g).taskCount := by
  have hcurrent : (s.workers w).pc.current = some g := by rw [hpc]; rfl
  obtain ⟨hg, hw, -⟩ := h.inv.current w g hcurrent
  obtain ⟨k, -, hbelow, hposition, -⟩ := h.trace.tasks g (h.inv.lt_submitted hg) w hw
  have hnext := hposition (i + (s.submissions g).activeThreads)
    ((position_of_current h.inv hcurrent).trans (by rw [hpc]; rfl))
  cases k with
  | zero => omega
  | succ k =>
    have := hbelow k (Nat.lt_succ_self k)
    rw [Nat.succ_mul] at hnext
    omega

/-- A worker in the submission can step on, unless it waits at a barrier that is not full. -/
theorem nearer_current (h : Reached tr s) (hcurrent : (s.workers w).pc.current = some g)
    (ha : ∀ g, (s.workers w).pc = .barrier g → s.preflightComplete w = false ∧
      (s.submissions g).completedPreflights = (s.submissions g).activeThreads) : Nearer s g c := by
  obtain ⟨hg, hw, -⟩ := h.inv.current w g hcurrent
  have hsubmitted := h.inv.lt_submitted hg
  obtain ⟨-, hcount, hwrap⟩ := h.checked.submissions g hsubmitted
  have hcount : w < s.workerCount := hw.trans_le hcount
  -- a move of this worker to a place of lower rank
  have move : ∀ {t : Context} {pc : WorkerPc} {a : Action} {es : List Event}, SameClients s t →
      t.workers = s.workers → t.submissions = s.submissions →
      s.next a = some (t.moveWorker w pc, es) → a.own c →
      pc.rank (s.submissions g).taskCount < (s.workers w).pc.rank (s.submissions g).taskCount →
      Nearer s g c := by
    intro t pc a es hsame hworkers hsubs hn hown hlt
    have hmove : (t.moveWorker w pc).workers =
        update s.workers w { s.workers w with pc } := by
      rw [← hworkers]; rfl
    refine ⟨a, _, es, hown, hn, hsame.submitted, rank_move h.inv hcurrent ?_ hmove ?_ hlt⟩
    · exact ⟨hsame.submission, hsame.epoch, hsame.submitted, hsame.mutex, hsame.clients⟩
    · rw [show (t.moveWorker w pc).submissions = s.submissions from hsubs]
  have hself : SameClients s s := ⟨rfl, rfl, rfl, rfl, rfl⟩
  have hstep : s.next (.worker w) = s.workerStep w := if_pos hcount
  unfold Context.workerStep at hstep
  generalize hpc : (s.workers w).pc = pc at hcurrent move hstep
  cases pc with
  | waiting | exited => cases hcurrent
  | joined g' =>
    cases hcurrent
    by_cases hp : (s.submissions g).preflight = true
    · refine move hself rfl rfl (hstep.trans (if_pos hp)) trivial ?_
      simp only [WorkerPc.rank, Bool.toNat_false]
      omega
    · refine move hself rfl rfl (hstep.trans (if_neg hp)) trivial ?_
      simp only [WorkerPc.rank]
      omega
  | preflighted g' status =>
    cases hcurrent
    obtain ⟨pc', hworkers, hsubs, hbranch⟩ := recordPreflight_fields s g w status
    refine ⟨.worker w, _, _, trivial, hstep, (sameClients_recordPreflight s g w status).submitted,
      rank_move h.inv (by rw [hpc]; rfl) (sameClients_recordPreflight s g w status) hworkers ?_ ?_⟩
    · rw [hsubs, update_self]; rfl
    · rw [hpc]
      rcases hbranch with ⟨-, rfl, -⟩ | ⟨-, rfl, -⟩
      · split
        all_goals
          simp only [WorkerPc.rank]
          omega
      · exact Nat.lt_succ_self _
  | barrier g' =>
    obtain ⟨hawake, hfull⟩ := ha g' hpc
    cases hcurrent
    dsimp only at hstep
    rw [hawake, if_neg Bool.false_ne_true, if_pos hfull] at hstep
    refine move hself rfl rfl hstep trivial ?_
    split
    all_goals
      simp only [WorkerPc.rank]
      omega
  | looping g' i =>
    cases hcurrent
    by_cases hi : i < (s.submissions g).taskCount
    · refine move hself rfl rfl (hstep.trans (if_pos hi)) trivial ?_
      simp only [WorkerPc.rank, Bool.toNat_false]
      omega
    · refine move hself rfl rfl (hstep.trans (if_neg hi)) trivial ?_
      simp only [WorkerPc.rank]
      omega
  | finishing g' =>
    cases hcurrent
    obtain ⟨hsame, hworkers, hsubs⟩ := finishWorker_fields s g w
    refine ⟨.worker w, _, _, trivial, hstep, hsame.submitted,
      rank_move h.inv (by rw [hpc]; rfl) hsame hworkers ?_ ?_⟩
    · rw [hsubs, update_self]; rfl
    · rw [hpc]; exact Nat.zero_lt_one
  | calling g' callback notifying =>
    cases notifying with
    | true =>
      cases hcurrent
      refine move (t := s.notifyWork) ⟨rfl, rfl, rfl, rfl, rfl⟩ rfl rfl hstep trivial ?_
      cases callback <;> exact Nat.lt_succ_self _
    | false =>
      have hfinish : s.next (.finish w .success) = s.finishCallback w .success := rfl
      unfold Context.finishCallback at hfinish
      rw [hpc] at hfinish
      cases callback with
      | preflight =>
        cases hcurrent
        exact move hself rfl rfl hfinish rfl (Nat.lt_succ_self _)
      | task i =>
        have hi : i < (s.submissions g').taskCount := by
          exact task_lt h hpc
        cases hcurrent
        -- the next index of the stride does not wrap around
        have hmod : (i + (s.submissions g).activeThreads) % (sizeMax + 1) =
            i + (s.submissions g).activeThreads := Nat.mod_eq_of_lt (by omega)
        refine move hself rfl rfl hfinish rfl ?_
        rw [hmod]
        simp only [WorkerPc.rank, Bool.toNat_false]
        omega

theorem rank_client {t : Context} {pc : ClientPc} (hworkers : t.workers = s.workers)
    (hsubs : t.submissions = s.submissions)
    (hpending : ∀ w < (s.submissions g).activeThreads, (t.moveClient c pc).Pending g w ↔ s.Pending g w)
    (hlt : pc.rank < (s.clients c).rank) : (t.moveClient c pc).rank g c < s.rank g c := by
  have hsubs' : (t.moveClient c pc).submissions = s.submissions := hsubs
  have hworkers' : (t.moveClient c pc).workers = s.workers := hworkers
  unfold Context.rank
  rw [Context.moveClient_self, hsubs']
  refine Nat.add_lt_add_of_le_of_lt (Finset.sum_le_sum fun w hw => ?_) hlt
  unfold Context.workerRank
  rw [hsubs', hworkers']
  exact (if_congr (hpending w (Finset.mem_range.1 hw)) rfl rfl).le

/-- **A submission in flight can always step on.** -/
theorem nearer (h : Live tr s) (hlt : s.submitted < 2 ^ 64)
    (hc : (s.clients c).serving = some g) : Nearer s g c := by
  have hi := h.reached.inv
  have ha := h.awake hlt
  have hnext : s.next (.client c) = s.clientStep c := rfl
  unfold Context.clientStep at hnext
  generalize hpc : s.clients c = pc at hc hnext
  cases pc with
  | idle | locking _ | locked _ | lockingShutdown | shuttingDown | notifyingShutdown | joining =>
    cases hc
  | notifying g' =>
    cases hc
    exact ⟨.client c, _, _, rfl, hnext, rfl,
      rank_client rfl rfl (fun _ _ => Iff.rfl) (by rw [hpc]; exact Nat.lt_succ_self 2)⟩
  | returning g' =>
    cases hc
    exact ⟨.client c, _, _, rfl, hnext, rfl,
      rank_client rfl rfl (fun _ _ => Iff.rfl) (by rw [hpc]; exact Nat.lt_succ_self 0)⟩
  | waiting g' =>
    cases hc
    have hg := hi.client c g (by rw [hpc]; rfl)
    have hsubmitted := hi.lt_submitted hg
    have hcompleted := hi.completed g hsubmitted
    have hcount := (h.reached.checked.submissions g hsubmitted).2.1
    by_cases hall : ∀ w < (s.submissions g).activeThreads, s.Passed g w
    · -- every worker is through: the submitter is awake and leaves
      have hfull : (s.submissions g).completedWorkers = (s.submissions g).activeThreads :=
        hcompleted.trans (below_eq_iff.2 hall)
      have hawake : s.submissionComplete c = false := by
        by_contra hasleep
        obtain ⟨g', hg', hshort⟩ := ha.client c (by simpa using hasleep)
        obtain rfl : g = g' := by rw [hpc] at hg'; cases hg'; rfl
        exact hshort hfull
      dsimp only at hnext
      rw [hawake, if_neg Bool.false_ne_true, if_pos hfull] at hnext
      refine ⟨.client c, _, _, rfl, hnext, rfl, rank_client rfl rfl (fun w hw => ?_)
        (by rw [hpc]; exact Nat.lt_succ_self 1)⟩
      exact iff_of_false nofun (hall w hw).1
    push Not at hall
    obtain ⟨w, hw, hnot⟩ := hall
    by_cases hblocked : ∀ x < (s.submissions g).activeThreads, ¬ s.Passed g x →
        (s.workers x).pc = .barrier g
    · -- every worker that is left waits at the barrier, which is full
      have hbarrier := hblocked w hw hnot
      have harrived : ∀ x < (s.submissions g).activeThreads, s.Arrived g x := by
        intro x hx
        by_cases hp : s.Passed g x
        · exact .inl hp
        · have hpc := hblocked x hx hp
          exact .inr ⟨by rw [hpc]; rfl, by rw [hpc]; rfl⟩
      have hfull : (s.submissions g).completedPreflights = (s.submissions g).activeThreads :=
        (hi.preflights g hsubmitted (h.checking w g (by rw [hbarrier]; rfl))).trans
          (below_eq_iff.2 harrived)
      refine nearer_current h.reached (by rw [hbarrier]; rfl) fun g' hg' => ?_
      obtain rfl : g = g' := by rw [hbarrier] at hg'; cases hg'; rfl
      refine ⟨?_, hfull⟩
      by_contra hasleep
      exact ha.barrier g w hbarrier (by simpa using hasleep) hfull
    push Not at hblocked
    obtain ⟨x, hx, hleft, hne⟩ := hblocked
    by_cases hp : s.Pending g x
    · exact nearer_pending hi ha hlt (hx.trans_le hcount) hpc hx hp
    · have hcurrent : (s.workers x).pc.current = some g := by
        by_contra hcurrent
        exact hleft ⟨hp, hcurrent⟩
      refine nearer_current h.reached hcurrent fun g' hg' => absurd hg' ?_
      obtain rfl : g = g' := by rw [hg'] at hcurrent; exact (Option.some.inj hcurrent).symm
      exact hne

theorem progress (h : Live tr s) (hlt : s.submitted < 2 ^ 64) {r : Request}
    (hacc : .accepted g c r ∈ tr) :
    ∃ actions s' es, (∀ a ∈ actions, a.own c) ∧ run s actions = some (s', es) ∧
      ∃ status, .returned g status ∈ tr ++ es := by
  refine Trace.run_of_rank
    (P := fun tr' s' => Live tr' s' ∧ s'.submitted = s.submitted ∧ .accepted g c r ∈ tr')
    (G := fun tr' _ => ∃ status, .returned g status ∈ tr') (A := Action.own c)
    (fun s => s.rank g c) ?_ ⟨h, rfl, hacc⟩
  rintro tr' s' ⟨hlive, hsubmitted, hacc⟩ hgoal
  have hserving := (hlive.serving g c r hacc).resolve_right hgoal
  obtain ⟨a, t, es, hown, hn, hsame, hrank⟩ := nearer hlive (hsubmitted ▸ hlt) hserving
  exact ⟨a, t, es, hown, hn,
    ⟨hlive.step hn, hsame.trans hsubmitted, List.mem_append_left _ hacc⟩, hrank⟩

end Matcore.Parallel
