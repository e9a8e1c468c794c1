import Matcore.Proof.ContextTrace

/-!
# No lost wake-up

Every step keeps `Awake`, as long as the epochs have not wrapped.
-/

namespace Matcore.Parallel

open Function (update update_of_ne update_self)
open Count

variable {s s' : Context} {es : List Event} {g w : ℕ}

/-- Every sleeping thread has a notification to come. -/
structure Awake (s : Context) : Prop where
  exited : ∀ w, (s.workers w).pc = .exited → s.stopping = true
  pending : ∀ g w, s.Pending g w → w < (s.submissions g).activeThreads →
    (s.workers w).pc = .waiting
  work : ∀ g w, s.Pending g w → w < (s.submissions g).activeThreads →
    s.workAvailable w = true → ∃ c, s.clients c = .notifying g
  barrier : ∀ g w, (s.workers w).pc = .barrier g → s.preflightComplete w = true →
    (s.submissions g).completedPreflights ≠ (s.submissions g).activeThreads
  client : ∀ c, s.submissionComplete c = true → ∃ g, s.clients c = .waiting g ∧
    (s.submissions g).completedWorkers ≠ (s.submissions g).activeThreads

/-- A worker that sees no new epoch has seen every submission, while epochs do not wrap. -/
theorem Inv.seen_of_epoch (h : Inv s) (hlt : s.submitted < 2 ^ 64)
    (hepoch : s.epoch = (s.workers w).observedEpoch) : (s.workers w).seen = s.submitted := by
  obtain ⟨hle, hob⟩ := h.seen w
  rw [h.epoch, hob, Nat.mod_eq_of_lt hlt, Nat.mod_eq_of_lt (hle.trans_lt hlt)] at hepoch
  exact hepoch.symm

theorem workers_step (hs : Step s es s') :
    s'.workers = s.workers ∨ ∃ w worker, s'.workers = update s.workers w worker ∧
      s'.clients = s.clients ∧ s'.submission = s.submission ∧ s'.submitted = s.submitted ∧
      ((s.workers w).pc ≠ .waiting ∧ worker.seen = (s.workers w).seen ∧
          (worker.pc = .exited → (s.workers w).pc = .exited) ∨
        (s.workers w).pc = .waiting ∧ worker.seen = s.submitted ∧
          (worker.pc = .exited → s.stopping = true) ∨
        (s.workers w).pc = .waiting ∧ worker.seen = (s.workers w).seen ∧
          s.epoch = (s.workers w).observedEpoch ∧ s.stopping = true) := by
  cases hs with
  | @exit w pc stopping epoch =>
    exact .inr ⟨w, _, rfl, rfl, rfl, rfl, .inr (.inr ⟨pc, rfl, epoch, stopping⟩)⟩
  | @join w g pc epoch installed active =>
    exact .inr ⟨w, _, rfl, rfl, rfl, rfl, .inr (.inl ⟨pc, rfl, nofun⟩)⟩
  | @pass w es pc epoch inactive events pc' left =>
    refine .inr ⟨w, _, rfl, rfl, rfl, rfl, .inr (.inl ⟨pc, rfl, ?_⟩)⟩
    rcases left with rfl | ⟨rfl, hstop⟩
    · exact nofun
    · exact fun _ => hstop
  | @record w g status pc =>
    obtain ⟨pc', hworkers, -, hbranch⟩ := recordPreflight_fields s g w status
    have hsame := sameClients_recordPreflight s g w status
    refine .inr ⟨w, _, hworkers, hsame.clients, hsame.submission, hsame.submitted,
      .inl ⟨by rw [pc]; nofun, rfl, ?_⟩⟩
    rcases hbranch with ⟨-, rfl, -⟩ | ⟨-, rfl, -⟩
    · split <;> exact nofun
    · exact nofun
  | @passBarrier w g pc full =>
    refine .inr ⟨w, _, rfl, rfl, rfl, rfl, .inl ⟨by rw [pc]; nofun, rfl, ?_⟩⟩
    split <;> exact nofun
  | @finishWorker w g pc =>
    obtain ⟨hsame, hworkers, -⟩ := finishWorker_fields s g w
    exact .inr ⟨w, _, hworkers, hsame.clients, hsame.submission, hsame.submitted,
      .inl ⟨by rw [pc]; nofun, rfl, nofun⟩⟩
  | startPreflight pc | startLoop pc | startTask pc | endLoop pc | preflightDone pc | taskDone pc
  | taskFailed pc | nestedShutdown pc | nestedNotify pc =>
    exact .inr ⟨_, _, rfl, rfl, rfl, rfl, .inl ⟨by rw [pc]; nofun, rfl, nofun⟩⟩
  | _ => exact .inl rfl

/-- A worker that has a submission to see had it before the step, or the step accepted it. -/
theorem pending_step (hi : Inv s) (ha : Awake s) (hs : Step s es s') (hlt : s.submitted < 2 ^ 64)
    (hp : s'.Pending g w) (hw : w < (s'.submissions g).activeThreads) :
    s.Pending g w ∧ w < (s.submissions g).activeThreads ∧ s'.workers w = s.workers w ∨
      ∃ c request, s.clients c = .locked request ∧ s.stopping = false ∧
        s' = s.install c request ∧ g = s.submitted := by
  rcases submission_step hs with ⟨hsubmitted, hsub⟩ | ⟨c, request, hpc, hstop, rfl, -⟩
  swap
  · exact .inr ⟨c, request, hpc, hstop, rfl, (Option.some.inj hp.1).symm⟩
  left
  obtain ⟨hg, hseen⟩ := hp
  rw [hsubmitted] at hseen
  replace hg : s.submission = some g := by
    rcases hsub with hsub | hsub
    · rw [← hsub]; exact hg
    · rw [hsub] at hg; cases hg
  have hw' : w < (s.submissions g).activeThreads :=
    (active_of_keeps (step_keeps hs) (hi.lt_submitted hg)).2.1 ▸ hw
  rcases workers_step hs with hworkers | ⟨w₀, worker, hworkers, -, -, -, hcases⟩
  · rw [hworkers] at hseen
    exact ⟨⟨hg, hseen⟩, hw', by rw [hworkers]⟩
  by_cases hww : w = w₀
  swap
  · rw [hworkers, update_of_ne hww] at hseen
    exact ⟨⟨hg, hseen⟩, hw', by rw [hworkers, update_of_ne hww]⟩
  subst hww
  rw [hworkers, update_self] at hseen
  exfalso
  rcases hcases with ⟨hpc, hsame, -⟩ | ⟨-, hsame, -⟩ | ⟨-, hsame, hepoch, -⟩
  · exact hpc (ha.pending g w ⟨hg, hsame ▸ hseen⟩ hw')
  · exact hseen hsame
  · exact hseen (hsame.trans (hi.seen_of_epoch hlt hepoch))

/-- A sleeping worker slept before, or it falls asleep without an epoch to see. -/
theorem work_step (hs : Step s es s') (h : s'.workAvailable w = true) :
    s.workAvailable w = true ∨ s.epoch = (s.workers w).observedEpoch := by
  cases hs with
  | @sleep w' pc stopping epoch =>
    by_cases hww : w = w'
    · subst hww; exact .inr epoch
    · left
      dsimp only at h
      rwa [update_of_ne hww] at h
  | wake hwork hpreflight hsubmission => exact .inl (hwork w h)
  | nestedNotify | notify | notifyStop => cases h
  | @record w' g' status pc =>
    left
    revert h
    unfold Context.recordPreflight
    dsimp only
    split <;> exact id
  | @finishWorker w' g' pc =>
    left
    revert h
    unfold Context.finishWorker
    dsimp only
    split
    · split <;> exact id
    · exact id
  | _ => exact .inl h

theorem notifying_step (hs : Step s es s') {c : ℕ} (h : s.clients c = .notifying g) :
    s'.clients c = .notifying g ∨ ∀ w, s'.workAvailable w = false := by
  rcases client_move hs c with hsame | hmove
  · exact .inl (hsame.trans h)
  · rw [h] at hmove
    generalize s'.clients c = pc at hmove
    cases hmove with
    | notify awake => exact .inr awake
    | leave left => rcases left with left | left <;> cases left

theorem Awake.barrier_step (ha : Awake s) (hi : Inv s) (hs : Step s es s')
    (hpc : (s'.workers w).pc = .barrier g) (hw : s'.preflightComplete w = true) :
    (s'.submissions g).completedPreflights ≠ (s'.submissions g).activeThreads := by
  have moved : ∀ {t : Context} {w₀ : ℕ} {worker : Worker}, t.workers = s.workers →
      ((t.setWorker w₀ worker).workers w).pc = .barrier g → (∀ g, worker.pc ≠ .barrier g) →
      s.preflightComplete w = true →
      (s.submissions g).completedPreflights ≠ (s.submissions g).activeThreads := by
    intro t w₀ worker hworkers hx hne hflag
    by_cases hxw : w = w₀
    · rw [hxw, Context.setWorker_self] at hx
      exact absurd hx (hne g)
    · rw [Context.setWorker_of_ne _ hxw, hworkers] at hx
      exact ha.barrier g w hx hflag
  cases hs with
  | exit | startPreflight | startLoop | startTask | endLoop | taskDone | taskFailed
  | nestedShutdown | nestedNotify | join | preflightDone => exact moved rfl hpc nofun hw
  | pass pc epoch inactive events left =>
    exact moved rfl hpc (by rcases left with rfl | ⟨rfl, -⟩ <;> exact nofun) hw
  | passBarrier pc full => exact moved rfl hpc (by dsimp only; split <;> exact nofun) hw
  | @record w₀ g₀ status pc =>
    obtain ⟨pc', hworkers, hsubs, hbranch⟩ := recordPreflight_fields s g₀ w₀ status
    -- the last worker to record wakes all that sleep; any other leaves the count short
    rcases hbranch with ⟨-, -, hflags⟩ | ⟨hshort, rfl, hflags⟩
    · rw [hflags] at hw; cases hw
    rw [hsubs]
    by_cases hg : g = g₀
    · subst hg; rw [update_self]; exact hshort
    · rw [update_of_ne hg]
      have hww : w ≠ w₀ := by
        rintro rfl
        rw [hworkers, update_self] at hpc
        cases hpc
        exact hg rfl
      rw [hworkers, update_of_ne hww] at hpc
      rw [hflags, update_of_ne hww] at hw
      exact ha.barrier g w hpc hw
  | @sleepBarrier w₀ g₀ pc short =>
    by_cases hww : w = w₀
    · subst hww
      obtain rfl : g = g₀ := by cases hpc.symm.trans pc; rfl
      exact short
    · dsimp only at hw
      rw [update_of_ne hww] at hw
      exact ha.barrier g w hpc hw
  | wake hwork hpreflight hsubmission => exact ha.barrier g w hpc (hpreflight w hw)
  | @finishWorker w₀ g₀ pc =>
    obtain ⟨-, hworkers, hsubs⟩ := finishWorker_fields s g₀ w₀
    have hflags : (s.finishWorker g₀ w₀).preflightComplete = s.preflightComplete := by
      unfold Context.finishWorker
      dsimp only
      split
      · split <;> rfl
      · rfl
    have hww : w ≠ w₀ := by
      rintro rfl
      rw [hworkers, update_self] at hpc
      cases hpc
    rw [hworkers, update_of_ne hww] at hpc
    have := ha.barrier g w hpc (hflags ▸ hw)
    rw [hsubs]
    by_cases hg : g = g₀
    · subst hg; rw [update_self]; exact this
    · rwa [update_of_ne hg]
  | @accept c request pc stopping =>
    have hnone := hi.current_none (hi.none_of_holds (c := c) (by rw [pc]; rfl) (by rw [pc]; rfl)) w
    rw [show (s.install c request).workers = s.workers from rfl] at hpc
    rw [hpc] at hnone
    cases hnone
  | _ => exact ha.barrier g w hpc hw

theorem Awake.client_step (ha : Awake s) (hi : Inv s) (hs : Step s es s') {c : ℕ}
    (hc : s'.submissionComplete c = true) : ∃ g, s'.clients c = .waiting g ∧
      (s'.submissions g).completedWorkers ≠ (s'.submissions g).activeThreads := by
  -- an outside thread that moves was not waiting, so it is not the sleeping one
  have other : ∀ {t : Context} {c' : ℕ} {pc : ClientPc}, t.clients = s.clients →
      t.submissions = s.submissions → t.submissionComplete = s.submissionComplete →
      (s.clients c').submitting = none ∨ s.submissionComplete c' = false →
      (t.moveClient c' pc).submissionComplete c = true →
      ∃ g, (t.moveClient c' pc).clients c = .waiting g ∧
        ((t.moveClient c' pc).submissions g).completedWorkers ≠
          ((t.moveClient c' pc).submissions g).activeThreads := by
    intro t c' pc hclients hsubs hflags hne hasleep
    have hc : s.submissionComplete c = true := hflags ▸ hasleep
    obtain ⟨g, hg, hshort⟩ := ha.client c hc
    have hcc : c ≠ c' := by
      rintro rfl
      rcases hne with hne | hne
      · rw [hg] at hne; cases hne
      · rw [hc] at hne; cases hne
    refine ⟨g, ?_, ?_⟩
    · rw [Context.moveClient_of_ne hcc, hclients, hg]
    · rw [show (t.moveClient c' pc).submissions = s.submissions from hsubs]; exact hshort
  cases hs with
  | enter idle => exact other rfl rfl rfl (.inl (by rw [idle]; rfl)) hc
  | lock free locked =>
    refine other rfl rfl rfl (.inl ?_) hc
    rcases locked with ⟨pc, -⟩ | ⟨_, pc, -⟩ <;> rw [pc] <;> rfl
  | refuse pc | giveBack pc | stop pc | notifyStop pc =>
    exact other rfl rfl rfl (.inl (by rw [pc]; rfl)) hc
  | leave pc =>
    refine other rfl rfl rfl (.inl ?_) hc
    rcases pc with pc | pc <;> rw [pc] <;> rfl
  | complete pc full awake => exact other rfl rfl rfl (.inr awake) hc
  | @notify c₀ g₀ pc =>
    obtain ⟨g, hg, hshort⟩ := ha.client c hc
    have hcc : c ≠ c₀ := by rintro rfl; rw [pc] at hg; cases hg
    exact ⟨g, (Context.moveClient_of_ne hcc).trans hg, hshort⟩
  | @accept c₀ request pc stopping =>
    obtain ⟨g, hg, -⟩ := ha.client c hc
    have hnone := hi.none_of_holds (c := c₀) (by rw [pc]; rfl) (by rw [pc]; rfl)
    have := hi.client c g (by rw [hg]; rfl)
    rw [hnone] at this
    cases this
  | @sleepClient c₀ g₀ pc short =>
    by_cases hcc : c = c₀
    · subst hcc; exact ⟨g₀, pc, short⟩
    · dsimp only at hc
      rw [update_of_ne hcc] at hc
      exact ha.client c hc
  | wake hwork hpreflight hsubmission => exact ha.client c (hsubmission c hc)
  | @record w₀ g₀ status pc =>
    have hflags : (s.recordPreflight g₀ w₀ status).submissionComplete = s.submissionComplete := by
      unfold Context.recordPreflight
      dsimp only
      split <;> rfl
    obtain ⟨-, -, hsubs, -⟩ := recordPreflight_fields s g₀ w₀ status
    obtain ⟨g, hg, hshort⟩ := ha.client c (hflags ▸ hc)
    refine ⟨g, (congrFun (sameClients_recordPreflight s g₀ w₀ status).clients c).trans hg, ?_⟩
    rw [hsubs]
    by_cases hg₀ : g = g₀
    · subst hg₀; rw [update_self]; exact hshort
    · rwa [update_of_ne hg₀]
  | @finishWorker w₀ g₀ pc =>
    have hg₀ := (hi.current w₀ g₀ (by rw [pc]; rfl)).1
    obtain ⟨hsame, -, hsubs⟩ := finishWorker_fields s g₀ w₀
    -- the notification of the last worker reaches the one thread that waits
    have hflags : s.submissionComplete c = true ∧
        ((s.submissions g₀).completedWorkers + 1 = (s.submissions g₀).activeThreads →
          s.submissionMutex ≠ some c) := by
      revert hc
      unfold Context.finishWorker
      dsimp only
      split
      · rename_i hfull
        split
        · rename_i c₀ hm
          dsimp only
          intro hc
          by_cases hcc : c = c₀
          · rw [hcc, update_self] at hc; cases hc
          · rw [update_of_ne hcc] at hc
            refine ⟨hc, fun _ he => hcc (Option.some.inj (he.symm.trans hm))⟩
        · rename_i hm
          exact fun hc => ⟨hc, fun _ he => by cases he.symm.trans hm⟩
      · rename_i hshort
        exact fun hc => ⟨hc, fun hfull => absurd hfull hshort⟩
    obtain ⟨g, hg, _⟩ := ha.client c hflags.1
    obtain rfl : g = g₀ :=
      Option.some.inj ((hi.client c g (by rw [hg]; rfl)).symm.trans hg₀)
    refine ⟨g, (congrFun hsame.clients c).trans hg, ?_⟩
    rw [hsubs, update_self]
    exact fun hfull => hflags.2 hfull (hi.mutex c (by rw [hg]; rfl))
  | _ => exact ha.client c hc

/-- **Every step keeps the sleepers' notifications to come**, while epochs do not wrap. -/
theorem awake_step (ha : Awake s) (hi : Inv s) (hs : Step s es s') (hlt : s.submitted < 2 ^ 64) :
    Awake s' where
  exited w hpc := by
    refine (step_keeps hs).stopping ?_
    rcases workers_step hs with hworkers | ⟨w₀, worker, hworkers, -, -, -, hcases⟩
    · exact ha.exited w (hworkers ▸ hpc)
    by_cases hww : w = w₀
    swap
    · rw [hworkers, update_of_ne hww] at hpc
      exact ha.exited w hpc
    subst hww
    rw [hworkers, update_self] at hpc
    rcases hcases with ⟨-, -, h⟩ | ⟨-, -, h⟩ | ⟨-, -, -, h⟩
    · exact ha.exited w (h hpc)
    · exact h hpc
    · exact h
  pending g w hp hw := by
    rcases pending_step hi ha hs hlt hp hw with ⟨hp, hw, hsame⟩ | ⟨c, request, hpc, hstop, rfl, rfl⟩
    · rw [hsame]; exact ha.pending g w hp hw
    · have hnone := hi.current_none
        (hi.none_of_holds (c := c) (by rw [hpc]; rfl) (by rw [hpc]; rfl)) w
      rw [show (s.install c request).workers = s.workers from rfl]
      cases hw' : (s.workers w).pc with
      | waiting => rfl
      | exited =>
        have := ha.exited w hw'
        rw [hstop] at this
        cases this
      | _ => rw [hw'] at hnone; cases hnone
  work g w hp hw hasleep := by
    rcases pending_step hi ha hs hlt hp hw with ⟨hp, hw, -⟩ | ⟨c, request, _, -, rfl, rfl⟩
    · rcases work_step hs hasleep with hasleep' | hepoch
      · obtain ⟨c, hc⟩ := ha.work g w hp hw hasleep'
        rcases notifying_step hs hc with hc | hawake
        · exact ⟨c, hc⟩
        · rw [hawake w] at hasleep; cases hasleep
      · exact absurd (hi.seen_of_epoch hlt hepoch) hp.2
    · exact ⟨c, Context.moveClient_self⟩
  barrier g w hpc hw := ha.barrier_step hi hs hpc hw
  client c hc := ha.client_step hi hs hc

end Matcore.Parallel
