import Matcore.Proof.ContextReturn

/-!
# What every run of the context guarantees

The guarantees of `run_tasks` and of its preflight, in every interleaving.
-/

namespace Matcore.Parallel

open List (mem_singleton mem_cons count_pos_iff mem_cons_self mem_append_left)
open Count

variable {s s' : Context} {tr es : List Event} {g i w : ℕ}

theorem access_step (hi : Inv s) (hs : Step s es s') (h : .access g w ∈ es) :
    s.submission = some g := by
  have of_current : ∀ {w' : ℕ} {pc : WorkerPc}, (s.workers w').pc = pc → pc.current = some g →
      s.submission = some g := fun hpc hcurrent => (hi.current _ g (hpc ▸ hcurrent)).1
  cases hs with
  | pass pc epoch inactive events left =>
    obtain ⟨g', hg', he⟩ := events _ h
    cases he
    exact hg'
  | join pc epoch installed active =>
    cases mem_singleton.1 h
    exact installed
  | startLoop pc | record pc | passBarrier pc | sleepBarrier pc | endLoop pc | finishWorker pc =>
    cases mem_singleton.1 h
    exact of_current pc rfl
  | startPreflight pc | startTask pc =>
    rcases mem_cons.1 h with h | h
    · cases h
      exact of_current pc rfl
    · cases mem_singleton.1 h
  | taskDone pc =>
    rcases mem_cons.1 h with h | h
    · cases h
    · cases mem_singleton.1 h
      exact of_current pc rfl
  | _ => simp at h

variable {c : ℕ} {r : Request}

/-- A step that accepts a submission finds no stop, and shows nothing else. -/
theorem accepted_step (hi : Inv s) (hs : Step s es s') (h : .accepted g c r ∈ es) :
    s.stopping = false ∧ es = [.accepted g c r] := by
  obtain ⟨rfl, rfl⟩ := (events_step hi hs).1 g c r h
  rcases submission_step hs with ⟨heq, -⟩ | ⟨c', r', -, hstop, -, rfl⟩
  · exact absurd heq (Nat.succ_ne_self _)
  · cases mem_singleton.1 h
    exact ⟨hstop, rfl⟩

/-- A worker runs each task of its class once, and no other. -/
theorem tasks_once (h : Reached tr s) (hacc : .accepted g c r ∈ tr) (i w : ℕ) :
    tr.count (.task g i w) ≤ if i < r.taskCount ∧ w = i % r.activeThreads then 1 else 0 := by
  obtain ⟨hg, htasks, hactive, -⟩ := h.trace.accepted g c r hacc
  rw [count_tasksOf]
  by_cases hw : w < (s.submissions g).activeThreads
  swap
  · rw [(h.trace.outside g w (.inr (Nat.le_of_not_lt hw))).1]
    exact Nat.zero_le _
  obtain ⟨k, heq, hbelow, -, -⟩ := h.trace.tasks g hg w hw
  rw [heq, ← htasks, ← hactive]
  split
  · exact List.nodup_iff_count_le_one.1 (nodup_stride (Nat.zero_lt_of_lt hw) w k) i
  · rename_i hnot
    refine (List.count_eq_zero.2 fun hi => hnot ⟨?_, (mod_of_mem_stride hw hi).symm⟩).le
    obtain ⟨j, hj, rfl⟩ := List.mem_map.1 hi
    exact hbelow j (List.mem_range.1 hj)

variable (i) in
theorem class_lt (h : Reached tr s) (hacc : .accepted g c r ∈ tr) :
    i % r.activeThreads < (s.submissions g).activeThreads := by
  obtain ⟨hg, -, hactive, -⟩ := h.trace.accepted g c r hacc
  rw [← hactive]
  exact Nat.mod_lt _ (h.checked.submissions g hg).1

/-- A worker that is through with a submission without a failure has run the tasks of its class. -/
theorem tasks_of_position (h : Reached tr s) (hacc : .accepted g c r ∈ tr)
    (hposition : s.position g (i % r.activeThreads) = none) (hfailed : ¬ Failed tr g)
    (hi : i < r.taskCount) : .task g i (i % r.activeThreads) ∈ tr := by
  obtain ⟨hg, htasks, hactive, -⟩ := h.trace.accepted g c r hacc
  obtain ⟨k, heq, -, -, hdone⟩ := h.trace.tasks g hg _ (class_lt i h hacc)
  have hlong := (hdone hposition).resolve_right hfailed
  rw [← count_pos_iff, count_tasksOf, heq]
  rw [htasks] at hlong
  exact count_pos_iff.2 (mem_stride hlong hi (by rw [hactive]))

/-- **Behind its return, a submission without a failure has run every task.** -/
theorem tasks_complete (h : Reached tr s) (hacc : .accepted g c r ∈ tr) {status : Status}
    (hret : .returned g status ∈ tr) (hfailed : ¬ Failed tr g) (hi : i < r.taskCount) :
    .task g i (i % r.activeThreads) ∈ tr := by
  have hleft := (h.trace.returned g status hret).2
  refine tasks_of_position h hacc ?_ hfailed hi
  unfold Context.position
  rw [if_neg fun hp => hleft hp.1, if_neg fun hc => hleft (h.inv.current _ g hc).1]

theorem run_keeps {actions : List Action} (h : run s actions = some (s', es)) : Keeps s s' :=
  Trace.run_invariant (P := fun _ t => Keeps s t)
    ⟨rfl, id, le_rfl, fun _ _ => rfl⟩
    (fun _ _ _ _ _ hk hn =>
      have hk' := step_keeps (step_of_next hn)
      ⟨hk'.workerCount.trans hk.workerCount, hk'.stopping ∘ hk.stopping,
        hk.submitted.trans hk'.submitted, fun g hg =>
          (hk'.arguments g (hg.trans_le hk.submitted)).trans (hk.arguments g hg)⟩) h

theorem task_step (hs : Step s es s') (h : .task g i w ∈ es) :
    (s.workers w).pc = .looping g i := by
  cases hs with
  | pass pc epoch inactive events left =>
    obtain ⟨g', -, he⟩ := events _ h
    cases he
  | startTask pc =>
    simp only [mem_cons, reduceCtorEq, List.not_mem_nil, or_false, false_or,
      Event.task.injEq] at h
    obtain ⟨rfl, rfl, rfl⟩ := h
    exact pc
  | _ => simp at h

/-- Behind the preflight of a submission, every active worker has run its own, with success. -/
theorem preflights_of_executing (h : Reached tr s) (hcurrent : (s.workers w).pc.current = some g)
    (hexec : (s.workers w).pc.executing = true) (hp : (s.submissions g).preflight = true) {x : ℕ}
    (hx : x < (s.submissions g).activeThreads) : .preflightDone g x .success ∈ tr := by
  have hg := h.inv.lt_submitted (h.inv.current w g hcurrent).1
  obtain ⟨hfull, hnone⟩ := h.inv.executing w g hcurrent hexec hp
  have harrived := below_eq_iff.1 ((h.inv.preflights g hg hp).symm.trans hfull) x hx
  rcases h.trace.preflights g hg hp x hx with ⟨-, status, hst, hfailed⟩ | ⟨hnot, -⟩
  · rw [← mem_preflightsOf, hst, mem_singleton]
    by_contra hne
    rw [hfailed (Ne.symm hne)] at hnone
    cases hnone
  · exact absurd harrived hnot

/-- Three tasks on two workers. -/
def threeTasks : Request := ⟨3, 2, .nativeOnly, false, true, by decide⟩

/-- Three tasks with a preflight on two workers: a worker sleeps at the barrier until the other
has recorded its preflight. -/
def twoWorkers : List Action :=
  [.call 0 ⟨3, 2, .nativeOnly, true, true, by decide⟩, .client 0, .client 0, .client 0,
    .worker 1, .worker 0, .worker 0, .finish 0 .success, .worker 0,
    .worker 1, .finish 1 .success, .worker 1, .worker 0,
    .worker 0, .finish 0 .success, .worker 1, .finish 1 .success, .worker 0, .finish 0 .success,
    .worker 1, .worker 1, .worker 0, .worker 0, .client 0, .client 0]

/-- What the run shows. -/
def twoWorkersTrace : List Event :=
  ((run (.create 2) twoWorkers).map Prod.snd).getD []

theorem twoWorkers_run : ∃ s, run (.create 2) twoWorkers = some (s, twoWorkersTrace) := by
  have hrun : (run (.create 2) twoWorkers).isSome = true := by decide +kernel
  obtain ⟨⟨s, tr⟩, h⟩ := Option.isSome_iff_exists.1 hrun
  refine ⟨s, ?_⟩
  unfold twoWorkersTrace
  rw [h]
  rfl

theorem not_failed (hall : tr.all (fun
    | .taskDone _ _ _ status | .preflightDone _ _ status => status == .success
    | _ => true) = true) : ¬ Failed tr g := by
  rintro (⟨w, status, he, hne⟩ | ⟨i, w, status, he, hne⟩)
  all_goals
    have := List.all_eq_true.1 hall _ he
    exact hne (by simpa using this)

/-- **`run_tasks`** runs each task of a submission at most once, on the worker of its class, and
exactly once if the submission returns and no callback has failed. No submission is accessed
behind its return, and none is accepted behind a stop. While epochs do not wrap, the workers and
the submitter can bring every submission to its return. -/
theorem context_exactly_once {n : ℕ} {actions : List Action}
    (hrun : run (.create n) actions = some (s, tr)) :
    (∀ g c r, .accepted g c r ∈ tr →
      (∀ i w, tr.count (.task g i w) ≤
        if i < r.taskCount ∧ w = i % r.activeThreads then 1 else 0) ∧
      (∀ status, .returned g status ∈ tr → ¬ Failed tr g → ∀ i w, tr.count (.task g i w) =
        if i < r.taskCount ∧ w = i % r.activeThreads then 1 else 0) ∧
      (s.submitted < 2 ^ 64 → ∃ actions' s' es, (∀ a ∈ actions', a.own c) ∧
        run s actions' = some (s', es) ∧ ∃ status, .returned g status ∈ tr ++ es)) ∧
    (∀ before after g w, tr = before ++ .access g w :: after →
      ∀ status, .returned g status ∉ before) ∧
    ∀ before after g c r, tr = before ++ .accepted g c r :: after → .stop ∉ before := by
  have hlive := context_live hrun
  refine ⟨fun g c r hacc => ⟨tasks_once hlive.reached hacc, fun status hret hfailed i w => ?_,
    fun hlt => progress hlive hlt hacc⟩, fun before after g w he status hret => ?_,
    fun before after g c r he hstop => ?_⟩
  · refine le_antisymm (tasks_once hlive.reached hacc i w) ?_
    split
    · rename_i hiw
      rw [hiw.2]
      exact count_pos_iff.2 (tasks_complete hlive.reached hacc hret hfailed hiw.1)
    · exact Nat.zero_le _
  · obtain ⟨bs, u, a, v, cs, es₁, l, r, es₂, h₁, hn, -, rfl⟩ := Trace.run_emitted hrun he
    have hr := (context_live h₁).reached
    have hs := step_of_next hn
    have hinstalled := access_step hr.inv hs (List.mem_append_right _ mem_cons_self)
    rcases List.mem_append.1 hret with hret | hret
    · exact (hr.trace.returned g status hret).2 hinstalled
    · obtain ⟨-, c, hc⟩ := (events_step hr.inv hs).2.1 g status (mem_append_left _ hret)
      have hnone := hr.inv.none_of_holds (c := c) (by rw [hc]; rfl) (by rw [hc]; rfl)
      rw [hnone] at hinstalled
      cases hinstalled
  · obtain ⟨bs, u, a, v, cs, es₁, l, r', es₂, h₁, hn, -, rfl⟩ := Trace.run_emitted hrun he
    have hr := (context_live h₁).reached
    obtain ⟨hgo, hes⟩ := accepted_step hr.inv (step_of_next hn)
      (List.mem_append_right _ mem_cons_self)
    rcases List.mem_append.1 hstop with hstop | hstop
    · rw [hr.trace.stop hstop] at hgo
      cases hgo
    · have hmem := mem_append_left (.accepted g c r :: r') hstop
      rw [hes] at hmem
      cases mem_singleton.1 hmem

theorem context_exactly_once_twoWorkers :
    twoWorkersTrace.count (.task 0 2 0) = 1 ∧ twoWorkersTrace.count (.task 0 2 1) = 0 := by
  obtain ⟨s, hrun⟩ := twoWorkers_run
  obtain ⟨-, hexact, -⟩ := (context_exactly_once hrun).1 0 0
    ⟨3, 2, .nativeOnly, true, true, by decide⟩ (by decide +kernel)
  have hall : twoWorkersTrace.all (fun
      | .preflightDone _ _ status | .taskDone _ _ _ status => status == .success
      | _ => true) = true := by decide +kernel
  have hfailed : ¬ Failed twoWorkersTrace 0 := by
    rintro (⟨w, status, he, hne⟩ | ⟨i, w, status, he, hne⟩)
    all_goals
      have := List.all_eq_true.1 hall _ he
      exact hne (by simpa using this)
  have hcount := hexact .success (by decide +kernel) hfailed
  exact ⟨hcount 2 0, hcount 2 1⟩

/-- **The preflight is all or nothing.** No task begins before every active worker has run its
preflight with success, and none at all if a preflight fails. -/
theorem preflight_all_or_nothing {n : ℕ} {actions : List Action}
    (hrun : run (.create n) actions = some (s, tr)) {g c : ℕ} {r : Request}
    (hacc : .accepted g c r ∈ tr) (hp : r.preflight = true) :
    (∀ w status, .preflightDone g w status ∈ tr → status ≠ .success →
      ∀ i x, .task g i x ∉ tr) ∧
    ∀ before after i x, tr = before ++ .task g i x :: after →
      ∀ w < r.activeThreads, .preflightDone g w .success ∈ before := by
  have hr := (context_live hrun).reached
  obtain ⟨hg, -, hactive, hpre⟩ := hr.trace.accepted g c r hacc
  have behind : ∀ before after i x, tr = before ++ .task g i x :: after →
      ∀ w < r.activeThreads, .preflightDone g w .success ∈ before := by
    intro before after i x he w hw
    obtain ⟨bs, u, a, v, cs, es₁, l, r', es₂, h₁, hn, hrest, rfl⟩ := Trace.run_emitted hrun he
    have hu := (context_live h₁).reached
    have hpc := task_step (step_of_next hn) (List.mem_append_right _ mem_cons_self)
    have hcurrent := current_of hpc
    have hk : Keeps u s :=
      run_keeps (Trace.run_cons hn hrest)
    obtain ⟨-, hactive', hpre'⟩ :=
      active_of_keeps hk (hu.inv.lt_submitted (hu.inv.current x g hcurrent).1)
    refine mem_append_left _ (preflights_of_executing hu hcurrent (by rw [hpc]; rfl) ?_ ?_)
    · rw [← hpre', hpre, hp]
    · rwa [← hactive', hactive]
  refine ⟨fun w status hdone hne i x htask => ?_, behind⟩
  obtain ⟨before, after, he⟩ := List.append_of_mem htask
  have hw : w < r.activeThreads := by
    by_contra hw
    rw [← mem_preflightsOf, (hr.trace.outside g w (.inr (by omega))).2] at hdone
    cases hdone
  have hsuccess : .preflightDone g w .success ∈ tr := by
    rw [he]
    exact mem_append_left _ (behind before after i x he w hw)
  -- a worker runs one preflight
  rw [← mem_preflightsOf] at hdone hsuccess
  have hone : ∃ status', preflightsOf tr g w = [status'] ∨ preflightsOf tr g w = [] := by
    rcases hr.trace.preflights g hg (hpre.trans hp) w (by omega) with ⟨-, status', h, -⟩ | ⟨-, h⟩
    · exact ⟨status', .inl h⟩
    · unfold Context.unrecorded at h
      split at h
      · split at h
        · exact ⟨_, .inl h⟩
        · exact ⟨.success, .inr h⟩
      · exact ⟨.success, .inr h⟩
  obtain ⟨status', h | h⟩ := hone
  · rw [h, mem_singleton] at hdone hsuccess
    exact hne (hdone.trans hsuccess.symm)
  · rw [h] at hdone
    cases hdone

theorem preflight_all_or_nothing_twoWorkers :
    twoWorkersTrace[13]? = some (.task 0 0 0) ∧
      .preflightDone 0 0 .success ∈ twoWorkersTrace.take 13 ∧
      .preflightDone 0 1 .success ∈ twoWorkersTrace.take 13 := by
  obtain ⟨s, hrun⟩ := twoWorkers_run
  have hacc : .accepted 0 0 ⟨3, 2, .nativeOnly, true, true, by decide⟩ ∈ twoWorkersTrace := by
    decide +kernel
  have htask : twoWorkersTrace =
      twoWorkersTrace.take 13 ++ .task 0 0 0 :: twoWorkersTrace.drop 14 := by decide +kernel
  have hbehind := (preflight_all_or_nothing hrun hacc rfl).2 _ _ 0 0 htask
  exact ⟨by decide +kernel, hbehind 0 (by decide), hbehind 1 (by decide)⟩

/-- **Submissions do not overlap**: when one is accepted, every earlier one has returned. -/
theorem submissions_serialised {n : ℕ} {actions : List Action}
    (hrun : run (.create n) actions = some (s, tr)) {before after : List Event} {g' c' : ℕ}
    {r' : Request} (he : tr = before ++ .accepted g' c' r' :: after)
    (hacc : .accepted g c r ∈ before) : g < g' ∧ ∃ status, .returned g status ∈ before := by
  obtain ⟨bs, u, a, v, cs, es₁, l, x, es₂, h₁, hn, -, rfl⟩ := Trace.run_emitted hrun he
  have hlive := context_live h₁
  have hi := hlive.reached.inv
  have hs := step_of_next hn
  have hin : .accepted g' c' r' ∈ l ++ .accepted g' c' r' :: x :=
    List.mem_append_right _ mem_cons_self
  obtain rfl : l = [] := by
    have hes := (accepted_step hi hs hin).2
    cases l <;> simp_all
  rw [List.append_nil] at hacc ⊢
  obtain ⟨rfl, rfl⟩ := (events_step hi hs).1 g' c' r' hin
  refine ⟨(hlive.reached.trace.accepted g c r hacc).1,
    (hlive.serving g c r hacc).resolve_left fun hserving => ?_⟩
  rcases submission_step hs with ⟨heq, -⟩ | ⟨c'', r'', hlocked, -⟩
  · exact absurd heq (Nat.succ_ne_self _)
  -- the submitters of both would hold the mutex
  have hholds : (u.clients c).holds = true := by
    cases hpc : u.clients c <;> rw [hpc] at hserving <;> first
      | rfl
      | cases hserving
  have hmutex := hi.mutex c'' (by rw [hlocked]; rfl)
  obtain rfl : c = c'' := Option.some.inj ((hi.mutex c hholds).symm.trans hmutex)
  rw [hlocked] at hserving
  cases hserving

theorem submissions_serialised_twoWorkers : ∃ status, .returned 0 status ∈ twoWorkersTrace := by
  have hrun : (run (.create 2) (twoWorkers ++ [.call 1 threeTasks, .client 1, .client 1])).map
      Prod.snd = some (twoWorkersTrace ++ [.accepted 1 1 threeTasks]) := by decide +kernel
  obtain ⟨⟨s, tr⟩, h, rfl⟩ := Option.map_eq_some_iff.1 hrun
  have hacc : .accepted 0 0 ⟨3, 2, .nativeOnly, true, true, by decide⟩ ∈ twoWorkersTrace := by
    decide +kernel
  exact (submissions_serialised h rfl hacc).2

/-- **A stop lets the workers finish.** While epochs do not wrap, a worker leaves behind a stop only,
and when its share of every accepted submission without a failure is done. -/
theorem exited_drained {n : ℕ} {actions : List Action}
    (hrun : run (.create n) actions = some (s, tr)) (hlt : s.submitted < 2 ^ 64)
    (hexit : (s.workers w).pc = .exited) :
    s.stopping = true ∧ ∀ g c r, .accepted g c r ∈ tr → ¬ Failed tr g →
      ∀ i < r.taskCount, i % r.activeThreads = w → .task g i w ∈ tr := by
  have hlive := context_live hrun
  have ha := hlive.awake hlt
  refine ⟨ha.exited w hexit, ?_⟩
  rintro g c r hacc hfailed i hi rfl
  have hp : ¬ s.Pending g (i % r.activeThreads) := by
    intro hp
    cases hexit.symm.trans (ha.pending g _ hp (class_lt i hlive.reached hacc))
  refine tasks_of_position hlive.reached hacc ?_ hfailed hi
  unfold Context.position
  rw [if_neg hp, if_neg (by rw [hexit]; nofun)]

theorem exited_drained_twoWorkers : .task 0 2 0 ∈ twoWorkersTrace ++ [.stop] := by
  have hrun : (run (.create 2) (twoWorkers ++ [.callShutdown 0, .client 0, .client 0, .client 0,
      .worker 0])).map (fun x => ((x.1.workers 0).pc, x.1.submitted, x.2)) =
      some (.exited, 1, twoWorkersTrace ++ [.stop]) := by decide +kernel
  obtain ⟨⟨s, tr⟩, h, heq⟩ := Option.map_eq_some_iff.1 hrun
  obtain ⟨hexit, hsubmitted, rfl⟩ : (s.workers 0).pc = .exited ∧ s.submitted = 1 ∧
      tr = twoWorkersTrace ++ [.stop] := by simpa using heq
  exact (exited_drained h (by omega) hexit).2 0 0
    ⟨3, 2, .nativeOnly, true, true, by decide⟩ (by decide +kernel) (not_failed (by decide +kernel))
    2 (by decide) rfl

end Matcore.Parallel
