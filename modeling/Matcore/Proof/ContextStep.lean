import Matcore.Parallel.Context

/-!
# The steps of an execution context

`Step` lists what one step can do, with its guard and its events, and `step_of_next` says that
it lists all. Every invariant of the context is proved from `Step`.
-/

namespace Matcore.Parallel

open Function (update update_self update_of_ne)

/-- A step of a context. -/
inductive Step (s : Context) : List Event → Context → Prop where
  -- workers outside callbacks
  | sleep {w : ℕ} (pc : (s.workers w).pc = .waiting) (stopping : s.stopping = false)
      (epoch : s.epoch = (s.workers w).observedEpoch) :
      Step s [] { s with workAvailable := update s.workAvailable w true }
  | exit {w : ℕ} (pc : (s.workers w).pc = .waiting) (stopping : s.stopping = true)
      (epoch : s.epoch = (s.workers w).observedEpoch) : Step s [] (s.moveWorker w .exited)
  | join {w g : ℕ} (pc : (s.workers w).pc = .waiting)
      (epoch : s.epoch ≠ (s.workers w).observedEpoch) (installed : s.submission = some g)
      (active : w < (s.submissions g).activeThreads) :
      Step s [.access g w] (s.setWorker w ⟨.joined g, s.epoch, s.submitted⟩)
  | pass {w : ℕ} {es : List Event} (pc : (s.workers w).pc = .waiting)
      (epoch : s.epoch ≠ (s.workers w).observedEpoch)
      (inactive : ∀ g, s.submission = some g → (s.submissions g).activeThreads ≤ w)
      (events : ∀ e ∈ es, ∃ g, s.submission = some g ∧ e = .access g w) {pc' : WorkerPc}
      (left : pc' = .waiting ∨ pc' = .exited ∧ s.stopping = true) :
      Step s es (s.setWorker w ⟨pc', s.epoch, s.submitted⟩)
  | startPreflight {w g : ℕ} (pc : (s.workers w).pc = .joined g)
      (preflight : (s.submissions g).preflight = true) :
      Step s [.access g w, .preflight g w] (s.moveWorker w (.calling g .preflight false))
  | startLoop {w g : ℕ} (pc : (s.workers w).pc = .joined g)
      (preflight : (s.submissions g).preflight = false) :
      Step s [.access g w] (s.moveWorker w (.looping g w))
  | record {w g : ℕ} {status : Status} (pc : (s.workers w).pc = .preflighted g status) :
      Step s [.access g w] (s.recordPreflight g w status)
  | passBarrier {w g : ℕ} (pc : (s.workers w).pc = .barrier g)
      (full : (s.submissions g).completedPreflights = (s.submissions g).activeThreads) :
      Step s [.access g w] (s.execute g w)
  | sleepBarrier {w g : ℕ} (pc : (s.workers w).pc = .barrier g)
      (short : (s.submissions g).completedPreflights ≠ (s.submissions g).activeThreads) :
      Step s [.access g w] { s with preflightComplete := update s.preflightComplete w true }
  | startTask {w g i : ℕ} (pc : (s.workers w).pc = .looping g i)
      (more : i < (s.submissions g).taskCount) :
      Step s [.access g w, .task g i w] (s.moveWorker w (.calling g (.task i) false))
  | endLoop {w g i : ℕ} (pc : (s.workers w).pc = .looping g i)
      (done : (s.submissions g).taskCount ≤ i) :
      Step s [.access g w] (s.moveWorker w (.finishing g))
  | finishWorker {w g : ℕ} (pc : (s.workers w).pc = .finishing g) :
      Step s [.access g w] (s.finishWorker g w)
  -- callbacks
  | preflightDone {w g : ℕ} {status : Status} (pc : (s.workers w).pc = .calling g .preflight false) :
      Step s [.preflightDone g w status] (s.moveWorker w (.preflighted g status))
  | taskDone {w g i : ℕ} (pc : (s.workers w).pc = .calling g (.task i) false) :
      Step s [.taskDone g i w .success, .access g w] (s.moveWorker w
        (.looping g ((i + (s.submissions g).activeThreads) % (sizeMax + 1))))
  | taskFailed {w g i : ℕ} {status : Status} (pc : (s.workers w).pc = .calling g (.task i) false)
      (failed : status ≠ .success) :
      Step s [.taskDone g i w status] ((s.setResult w ⟨status, i⟩).moveWorker w (.finishing g))
  | nestedShutdown {w g : ℕ} {callback : Callback} (pc : (s.workers w).pc = .calling g callback false) :
      Step s [.stop] ({ s with stopping := true }.moveWorker w (.calling g callback true))
  | nestedNotify {w g : ℕ} {callback : Callback} (pc : (s.workers w).pc = .calling g callback true) :
      Step s [] (s.notifyWork.moveWorker w (.calling g callback false))
  -- outside threads
  | reject {status : Status} : Step s [.rejected status] s
  | wake {work preflight submission : ℕ → Bool}
      (hwork : ∀ w, work w = true → s.workAvailable w = true)
      (hpreflight : ∀ w, preflight w = true → s.preflightComplete w = true)
      (hsubmission : ∀ c, submission c = true → s.submissionComplete c = true) :
      Step s [] { s with
        workAvailable := work, preflightComplete := preflight, submissionComplete := submission }
  | enter {c : ℕ} {pc : ClientPc} (idle : s.clients c = .idle)
      (entered : pc = .lockingShutdown ∨
        ∃ request : Request, pc = .locking request ∧ request.check s.workerCount false = none) :
      Step s [] (s.moveClient c pc)
  | lock {c : ℕ} {pc : ClientPc} (free : s.submissionMutex = none)
      (locked : s.clients c = .lockingShutdown ∧ pc = .shuttingDown ∨
        ∃ request, s.clients c = .locking request ∧ pc = .locked request) :
      Step s [] ({ s with submissionMutex := some c }.moveClient c pc)
  | refuse {c : ℕ} {request : Request} (pc : s.clients c = .locked request)
      (stopping : s.stopping = true) :
      Step s [.refused c] ({ s with submissionMutex := none }.moveClient c .idle)
  | accept {c : ℕ} {request : Request} (pc : s.clients c = .locked request)
      (stopping : s.stopping = false) :
      Step s [.accepted s.submitted c request] (s.install c request)
  | notify {c g : ℕ} (pc : s.clients c = .notifying g) :
      Step s [] (s.notifyWork.moveClient c (.waiting g))
  | sleepClient {c g : ℕ} (pc : s.clients c = .waiting g)
      (short : (s.submissions g).completedWorkers ≠ (s.submissions g).activeThreads) :
      Step s [] { s with submissionComplete := update s.submissionComplete c true }
  | complete {c g : ℕ} (pc : s.clients c = .waiting g)
      (full : (s.submissions g).completedWorkers = (s.submissions g).activeThreads)
      (awake : s.submissionComplete c = false) :
      Step s [] ({ s with submission := none }.moveClient c (.returning g))
  | giveBack {c g : ℕ} {status : Status} (pc : s.clients c = .returning g) :
      Step s [.returned g status] ({ s with submissionMutex := none }.moveClient c .idle)
  | stop {c : ℕ} (pc : s.clients c = .shuttingDown) :
      Step s [.stop] ({ s with stopping := true }.moveClient c .notifyingShutdown)
  | notifyStop {c : ℕ} (pc : s.clients c = .notifyingShutdown) :
      Step s [] (s.notifyWork.moveClient c .joining)
  | leave {c : ℕ} {empty : Bool} (pc : s.clients c = .shuttingDown ∨ s.clients c = .joining) :
      Step s [] ({ s with workersEmpty := empty, submissionMutex := none }.moveClient c .idle)

namespace Context

variable {s : Context} {w x : ℕ} {pc : WorkerPc}

@[simp] theorem setWorker_self (worker : Worker) : (s.setWorker w worker).workers w = worker := by
  simp [setWorker]

theorem setWorker_of_ne (worker : Worker) (h : x ≠ w) :
    (s.setWorker w worker).workers x = s.workers x := by
  simp [setWorker, h]

@[simp] theorem moveWorker_self : (s.moveWorker w pc).workers w = { s.workers w with pc } :=
  setWorker_self _

theorem moveWorker_of_ne (h : x ≠ w) : (s.moveWorker w pc).workers x = s.workers x :=
  setWorker_of_ne _ h

@[simp] theorem moveClient_self {c : ℕ} {pc : ClientPc} : (s.moveClient c pc).clients c = pc := by
  simp [moveClient]

theorem moveClient_of_ne {c c' : ℕ} {pc : ClientPc} (h : c' ≠ c) :
    (s.moveClient c pc).clients c' = s.clients c' := by
  simp [moveClient, h]

end Context

/-- What the record of a preflight leaves: the recorded submission, and the worker at the
barrier, or behind it if it is full. -/
theorem recordPreflight_fields (s : Context) (g w : ℕ) (status : Status) :
    ∃ pc : WorkerPc, (s.recordPreflight g w status).workers =
        update s.workers w { s.workers w with pc } ∧
      (s.recordPreflight g w status).submissions =
        update s.submissions g ((s.submissions g).record status) ∧
      (((s.submissions g).record status).completedPreflights = (s.submissions g).activeThreads ∧
          pc = (if ((s.submissions g).record status).preflightFailed then .finishing g
            else .looping g w) ∧
          (s.recordPreflight g w status).preflightComplete = (fun _ => false) ∨
        ((s.submissions g).record status).completedPreflights ≠ (s.submissions g).activeThreads ∧
          pc = .barrier g ∧ (s.recordPreflight g w status).preflightComplete =
            update s.preflightComplete w true) := by
  have hsub : (s.setSubmission g ((s.submissions g).record status)).submissions g =
      (s.submissions g).record status := update_self g _ s.submissions
  unfold Context.recordPreflight
  dsimp only
  split
  · rename_i hfull
    refine ⟨_, rfl, rfl, .inl ⟨hfull, ?_, rfl⟩⟩
    exact congrArg (fun sub : Submission => if sub.preflightFailed then WorkerPc.finishing g
      else .looping g w) hsub
  · rename_i hshort
    exact ⟨.barrier g, rfl, rfl, .inr ⟨hshort, rfl, rfl⟩⟩

variable {s s' : Context} {es : List Event}

theorem current_of {w : ℕ} {pc : WorkerPc} (h : (s.workers w).pc = pc) :
    (s.workers w).pc.current = pc.current :=
  congrArg _ h

theorem step_awaitWork {w : ℕ} (hpc : (s.workers w).pc = .waiting) :
    Step s (s.awaitWork w).2 (s.awaitWork w).1 := by
  unfold Context.awaitWork
  dsimp only
  by_cases hu : s.epoch = (s.workers w).observedEpoch
  · have hseen : (s.epoch != (s.workers w).observedEpoch) = false := by simpa using hu
    rw [hseen]
    by_cases hs : s.stopping = true
    · rw [if_neg (by simp [hs]), if_pos (by simp [hs])]
      exact .exit hpc hs hu
    · rw [if_pos (by simp [hs])]
      exact .sleep hpc (by simpa using hs) hu
  have hune : (s.epoch != (s.workers w).observedEpoch) = true := by simpa using hu
  rw [hune]
  simp only [or_true, not_true_eq_false, and_false, if_false, if_true]
  have left : (if s.stopping = true then WorkerPc.exited else .waiting) = .waiting ∨
      (if s.stopping = true then WorkerPc.exited else .waiting) = .exited ∧ s.stopping = true := by
    cases s.stopping <;> simp
  cases hg : s.submission with
  | none => exact .pass hpc hu (by simp [hg]) (by simp) left
  | some g =>
    by_cases hw : w < (s.submissions g).activeThreads
    · simp only [if_pos hw]
      exact .join hpc hu hg hw
    · simp only [if_neg hw]
      refine .pass hpc hu (fun g' hg' => ?_) (fun e he => ⟨g, hg, List.mem_singleton.1 he⟩) left
      obtain rfl := Option.some.inj (hg.symm.trans hg')
      exact Nat.le_of_not_lt hw

theorem step_of_workerStep {w : ℕ} (h : s.workerStep w = some (s', es)) : Step s es s' := by
  unfold Context.workerStep at h
  split at h <;> rename_i hpc
  · split at h
    · cases h
    · have hs := step_awaitWork hpc
      rw [Option.some.inj h] at hs
      exact hs
  · split at h <;> cases h
    · exact .startPreflight hpc ‹_›
    · rename_i hp
      exact .startLoop hpc (by simpa using hp)
  · cases h; exact .nestedNotify hpc
  · cases h
  · cases h; exact .record hpc
  · split at h
    · cases h
    split at h <;> cases h
    · exact .passBarrier hpc ‹_›
    · exact .sleepBarrier hpc ‹_›
  · split at h <;> cases h
    · exact .startTask hpc ‹_›
    · exact .endLoop hpc (Nat.le_of_not_lt ‹_›)
  · cases h; exact .finishWorker hpc
  · cases h

theorem step_of_finishCallback {w : ℕ} {status : Status}
    (h : s.finishCallback w status = some (s', es)) : Step s es s' := by
  unfold Context.finishCallback at h
  split at h
  · cases h; exact .preflightDone ‹_›
  · split at h
    · rename_i hst; cases h; subst hst; exact .taskDone ‹_›
    · cases h; exact .taskFailed ‹_› ‹_›
  · cases h

theorem step_of_clientStep {c : ℕ} (h : s.clientStep c = some (s', es)) : Step s es s' := by
  unfold Context.clientStep at h
  dsimp only at h
  split at h <;> rename_i hpc
  · cases h
  · split at h <;> cases h
    rename_i hfree
    exact .lock (by simpa using hfree) (.inr ⟨_, hpc, rfl⟩)
  · unfold Context.submit at h
    split at h <;> cases h
    · exact .refuse hpc ‹_›
    · rename_i hgo
      exact .accept hpc (by simpa using hgo)
  · cases h; exact .notify hpc
  · split at h
    · cases h
    rename_i hawake
    split at h <;> cases h
    · exact .complete hpc ‹_› (by simpa using hawake)
    · exact .sleepClient hpc ‹_›
  · cases h; exact .giveBack hpc
  · split at h <;> cases h
    rename_i hfree
    exact .lock (by simpa using hfree) (.inl ⟨hpc, rfl⟩)
  · split at h <;> cases h
    · exact .leave (.inl hpc)
    · exact .stop hpc
  · cases h; exact .notifyStop hpc
  · split at h <;> cases h
    exact .leave (.inr hpc)

/-- **`Step` lists every step.** -/
theorem step_of_next {a : Action} (h : s.next a = some (s', es)) : Step s es s' := by
  cases a with
  | worker w =>
    simp only [Context.next] at h
    split at h
    · exact step_of_workerStep h
    · cases h
  | client c => exact step_of_clientStep h
  | call c request =>
    simp only [Context.next, Context.call] at h
    split at h
    · rename_i hidle
      split at h <;> cases h
      · exact .reject
      · exact .enter hidle (.inr ⟨request, rfl, ‹_›⟩)
    · cases h
  | callShutdown c =>
    simp only [Context.next] at h
    split at h <;> cases h
    exact .enter ‹_› (.inl rfl)
  | finish w status => exact step_of_finishCallback h
  | nestedCall w request =>
    simp only [Context.next, Context.nestedCall] at h
    split at h
    · obtain ⟨status, -, hs⟩ := Option.map_eq_some_iff.1 h
      cases hs
      exact .reject
    · cases h
  | nestedShutdown w =>
    simp only [Context.next, Context.nestedShutdown] at h
    split at h <;> cases h
    exact .nestedShutdown ‹_›
  | wakeWorker w =>
    cases h
    have awake : ∀ (f : ℕ → Bool) (x : ℕ), update f w false x = true → f x = true := by
      intro f x hx
      by_cases hne : x = w
      · rw [hne, update_self] at hx; cases hx
      · rwa [update_of_ne hne] at hx
    exact .wake (awake _) (awake _) fun _ => id
  | wakeClient c =>
    cases h
    refine .wake (fun _ => id) (fun _ => id) fun x hx => ?_
    by_cases hne : x = c
    · rw [hne, update_self] at hx; cases hx
    · rwa [update_of_ne hne] at hx

end Matcore.Parallel
