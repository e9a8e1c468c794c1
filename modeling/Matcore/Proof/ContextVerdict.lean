import Matcore.Proof.ContextRun

/-!
# The status of a submission

Every run returns the verdict of the outcomes, so any two runs return the same status.
-/

namespace Matcore.Parallel

open List (range mem_range)
open Function (update update_of_ne update_self)

/-- What the callbacks of a submission return, by worker and by task. -/
structure Outcomes where
  preflight : ℕ → Status
  task : ℕ → Status

/-- The callbacks of a submission returned these outcomes. -/
def Outcomes.Agree (o : Outcomes) (g : ℕ) (es : List Event) : Prop :=
  (∀ w status, .preflightDone g w status ∈ es → status = o.preflight w) ∧
    ∀ i w status, .taskDone g i w status ∈ es → status = o.task i

/-- The status of the first preflight that fails, else of the first task that fails. -/
def verdict (o : Outcomes) (r : Request) : Status :=
  match (range r.activeThreads).find? fun w => r.preflight && o.preflight w != .success with
  | some w => o.preflight w
  | none =>
    match (range r.taskCount).find? fun i => o.task i != .success with
    | some i => o.task i
    | none => .success

section

variable (o : Outcomes) (submission : Submission) (w : ℕ)

/-- Every preflight succeeds. -/
def Outcomes.Pass : Prop :=
  submission.preflight = true → ∀ x < submission.activeThreads, o.preflight x = .success

/-- The tasks of a worker before an index succeed. -/
def Outcomes.Clear (i : ℕ) : Prop :=
  ∀ j < i, j % submission.activeThreads = w → o.task j = .success

def Outcomes.preflightResult : WorkerResult :=
  if o.preflight w = .success then {} else ⟨o.preflight w, 0⟩

/-- What a worker leaves: its failed preflight where one fails, else its first failed task. -/
def Outcomes.Final (result : WorkerResult) : Prop :=
  ¬ o.Pass submission ∧ result = o.preflightResult w ∨
    o.Pass submission ∧
      (o.Clear submission w submission.taskCount ∧ result = {} ∨
        ∃ i < submission.taskCount, i % submission.activeThreads = w ∧ o.task i ≠ .success ∧
          o.Clear submission w i ∧ result = ⟨o.task i, i⟩)

/-- What a worker has recorded where it stands. -/
def Outcomes.Recorded (result : WorkerResult) : WorkerPc → Prop
  | .joined _ | .calling _ .preflight _ | .preflighted _ _ => result = {}
  | .barrier _ => result = o.preflightResult w
  | .looping _ i | .calling _ (.task i) _ =>
    o.Pass submission ∧ result = {} ∧ i % submission.activeThreads = w ∧ o.Clear submission w i
  | .finishing _ | .waiting | .exited => o.Final submission w result

end

/-- What a worker has recorded for a submission. -/
def Context.Share (s : Context) (o : Outcomes) (g w : ℕ) : Prop :=
  (s.Pending g w → s.results w = {}) ∧
    (¬ s.Pending g w → o.Recorded (s.submissions g) w (s.results w) (s.workers w).pc)

structure VerdictInv (o : Outcomes) (g : ℕ) (s : Context) : Prop where
  share : ∀ w < (s.submissions g).activeThreads, s.Share o g w
  failed : (s.submissions g).preflightFailed = true → ¬ o.Pass (s.submissions g)

variable {s s' : Context} {tr es : List Event} {o : Outcomes} {g w : ℕ} {sub sub' : Submission}

section

variable (h : sub'.arguments = sub.arguments)

include h

theorem recorded_congr (result : WorkerResult) (pc : WorkerPc) :
    o.Recorded sub' w result pc ↔ o.Recorded sub w result pc := by
  obtain ⟨h₁, h₂, h₃⟩ : sub'.taskCount = sub.taskCount ∧
      sub'.activeThreads = sub.activeThreads ∧ sub'.preflight = sub.preflight := by
    simpa only [Submission.arguments, Prod.mk.injEq] using h
  have hpass : o.Pass sub' ↔ o.Pass sub := by simp only [Outcomes.Pass, h₂, h₃]
  have hclear : ∀ i, o.Clear sub' w i ↔ o.Clear sub w i := by
    intro i; simp only [Outcomes.Clear, h₂]
  have hfinal : o.Final sub' w result ↔ o.Final sub w result := by
    simp only [Outcomes.Final, hpass, hclear, h₁, h₂]
  cases pc with
  | calling g callback notifying => cases callback <;> simp only [Outcomes.Recorded, hpass, hclear, h₂]
  | _ => simp only [Outcomes.Recorded, hpass, hclear, hfinal, h₂]

theorem pass_congr : o.Pass sub' ↔ o.Pass sub := by
  obtain ⟨-, h₂, h₃⟩ : sub'.taskCount = sub.taskCount ∧
      sub'.activeThreads = sub.activeThreads ∧ sub'.preflight = sub.preflight := by
    simpa only [Submission.arguments, Prod.mk.injEq] using h
  simp only [Outcomes.Pass, h₂, h₃]

theorem active_eq :
    sub'.activeThreads = sub.activeThreads := congrArg (fun a => a.2.1) h

end

theorem VerdictInv.same (h : VerdictInv o g s) (hsame : SameWork s s')
    (hresults : s'.results = s.results) : VerdictInv o g s' := by
  obtain ⟨h₁, -, h₃, h₄, h₅⟩ := hsame
  refine ⟨fun w hw => ?_, by rw [h₅]; exact h.failed⟩
  rw [h₅] at hw
  have := h.share w hw
  unfold Context.Share at this ⊢
  simpa only [Context.Pending, h₁, h₃, h₄, h₅, hresults] using this

theorem VerdictInv.move (h : VerdictInv o g s) (hsame : SameClients s s')
    (hother : ∀ x ≠ w, s'.workers x = s.workers x ∧ s'.results x = s.results x)
    (hargs : (s'.submissions g).arguments = (s.submissions g).arguments)
    (hfailed : (s'.submissions g).preflightFailed = true → ¬ o.Pass (s.submissions g))
    (hself : w < (s.submissions g).activeThreads → s'.Share o g w) : VerdictInv o g s' := by
  refine ⟨fun x hx => ?_, fun hf => ?_⟩
  · rw [active_eq hargs] at hx
    by_cases hxw : x = w
    · subst hxw; exact hself hx
    · obtain ⟨hworker, hresult⟩ := hother x hxw
      have := h.share x hx
      unfold Context.Share at this ⊢
      rw [hworker, hresult]
      simp only [recorded_congr hargs, Context.Pending, hsame.submission, hsame.submitted, hworker]
      exact this
  · rw [pass_congr hargs]; exact hfailed hf

theorem VerdictInv.setWorker (h : VerdictInv o g s) (worker : Worker)
    (hself : w < (s.submissions g).activeThreads → (s.setWorker w worker).Share o g w) :
    VerdictInv o g (s.setWorker w worker) :=
  h.move ⟨rfl, rfl, rfl, rfl, rfl⟩ (fun _ hx => ⟨Context.setWorker_of_ne worker hx, rfl⟩) rfl
    h.failed hself

theorem share_of_current (hi : Inv s) (hcurrent : (s.workers w).pc.current = some g) :
    s.Share o g w ↔ o.Recorded (s.submissions g) w (s.results w) (s.workers w).pc := by
  have hnot : ¬ s.Pending g w := fun hp => hp.2 (hi.current w g hcurrent).2.2
  exact ⟨fun h => h.2 hnot, fun h => ⟨fun hp => absurd hp hnot, fun _ => h⟩⟩

theorem clear_self (hw : w < (s.submissions g).activeThreads) : o.Clear (s.submissions g) w w := by
  intro j hj hmod
  rw [Nat.mod_eq_of_lt (hj.trans hw)] at hmod
  omega

theorem pass_of_executing (hr : Reached tr s) (ha : o.Agree g tr)
    (hcurrent : (s.workers w).pc.current = some g) (hexec : (s.workers w).pc.executing = true) :
    o.Pass (s.submissions g) := by
  intro hp x hx
  exact (ha.1 x .success (preflights_of_executing hr hcurrent hexec hp hx)).symm

theorem recordPreflight_results (s : Context) (g w : ℕ) (status : Status) :
    (s.recordPreflight g w status).results =
      if status = .success then s.results else update s.results w ⟨status, 0⟩ := by
  unfold Context.recordPreflight
  dsimp only
  split <;> rfl

theorem finishWorker_results (s : Context) (g w : ℕ) :
    (s.finishWorker g w).results = s.results := by
  unfold Context.finishWorker
  dsimp only
  split
  · split <;> rfl
  · rfl

/-- Behind a barrier that is full: on to the tasks if every preflight has succeeded. -/
theorem recorded_of_barrier (hpass : (s.workers w).pc.executing = true → o.Pass (s.submissions g))
    (hpc : (s.workers w).pc =
      if (s.submissions g).preflightFailed then .finishing g else .looping g w)
    (hpre : (s.submissions g).preflight = true)
    (hfailed : (s.submissions g).preflightFailed = true → ¬ o.Pass (s.submissions g))
    (hw : w < (s.submissions g).activeThreads) (hresult : s.results w = o.preflightResult w) :
    o.Recorded (s.submissions g) w (s.results w) (s.workers w).pc := by
  split at hpc
  · rename_i hf
    rw [hpc]
    exact .inl ⟨hfailed hf, hresult⟩
  · rw [hpc] at hpass ⊢
    have hpass := hpass rfl
    refine ⟨hpass, ?_, Nat.mod_eq_of_lt hw, clear_self hw⟩
    rw [hresult]
    exact if_pos (hpass hpre w hw)

theorem latest_of_current {g' : ℕ} (hi : Inv s) (hg : g + 1 = s.submitted)
    (hcurrent : (s.workers w).pc.current = some g') : g' = g := by
  have := (hi.installed g' (hi.current w g' hcurrent).1).1
  omega

/-- The tasks of a worker lie a stride apart. -/
theorem eq_of_residue {i j n r : ℕ} (hi : i % n = r) (hj : j % n = r) (hle : i ≤ j)
    (hlt : j < i + n) : j = i := by
  have h := Nat.sub_mod_eq_zero_of_mod_eq (hj.trans hi.symm)
  rw [Nat.mod_eq_of_lt (by omega)] at h
  omega

section

variable (h : VerdictInv o g s) (hi : Inv s)

include h hi

/-- A worker that moves in the submission and leaves its result as it is. -/
theorem VerdictInv.stay {t : Context} {pc pc' : WorkerPc} (hi' : Inv (t.moveWorker w pc'))
    (hsame : SameClients s t) (hworkers : t.workers = s.workers)
    (hsubs : t.submissions = s.submissions) (hresults : t.results = s.results)
    (hpc : (s.workers w).pc = pc) (hcurrent : pc.current = some g)
    (hcurrent' : pc'.current = some g)
    (hrec : w < (s.submissions g).activeThreads →
      o.Recorded (s.submissions g) w (s.results w) pc →
      o.Recorded (s.submissions g) w (s.results w) pc') :
    VerdictInv o g (t.moveWorker w pc') := by
  subst hpc
  have hsub' : (t.moveWorker w pc').submissions = s.submissions := hsubs
  have hself : ((t.moveWorker w pc').workers w).pc = pc' := by rw [Context.moveWorker_self]
  refine h.move (w := w) ⟨hsame.submission, hsame.epoch, hsame.submitted, hsame.mutex,
    hsame.clients⟩ (fun x hx => ⟨?_, congrFun hresults x⟩) (by rw [hsub'])
    (by rw [hsub']; exact h.failed) fun hw => ?_
  · rw [Context.moveWorker_of_ne hx, hworkers]
  · refine (share_of_current hi' (by rw [hself]; exact hcurrent')).2 ?_
    rw [hself, hsub', show (t.moveWorker w pc').results = s.results from hresults]
    exact hrec hw ((share_of_current hi hcurrent).1 (h.share w hw))

theorem VerdictInv.join (hepoch : s.epoch ≠ (s.workers w).observedEpoch)
    (hinstalled : s.submission = some g)
    (hi' : Inv (s.setWorker w ⟨.joined g, s.epoch, s.submitted⟩)) :
    VerdictInv o g (s.setWorker w ⟨.joined g, s.epoch, s.submitted⟩) := by
  refine h.setWorker _ fun hw => ?_
  have hresult := (h.share w hw).1 ⟨hinstalled, hi.unseen hepoch⟩
  refine (share_of_current hi' (by rw [Context.setWorker_self]; rfl)).2 ?_
  rw [Context.setWorker_self]
  exact hresult

/-- The last worker out: nothing is pending. -/
theorem VerdictInv.complete {c : ℕ} (hlt : g < s.submitted)
    (hfull : (s.submissions g).completedWorkers = (s.submissions g).activeThreads) :
    VerdictInv o g ({ s with submission := none }.moveClient c (.returning g)) := by
  have hall := Count.below_eq_iff.1 ((hi.completed g hlt).symm.trans hfull)
  refine ⟨fun w hw => ?_, h.failed⟩
  have hpassed := hall w hw
  exact ⟨fun hp => absurd hp.1 nofun, fun _ => (h.share w hw).2 hpassed.1⟩

/-- On to the next task: the one behind succeeded, and none lies between. -/
theorem VerdictInv.taskDone {i : ℕ} (hr : Reached tr s)
    (hpc : (s.workers w).pc = .calling g (.task i) false) (hlt : g < s.submitted)
    (hsuccess : o.task i = .success)
    (hi' : Inv (s.moveWorker w
      (.looping g ((i + (s.submissions g).activeThreads) % (sizeMax + 1))))) :
    VerdictInv o g (s.moveWorker w
      (.looping g ((i + (s.submissions g).activeThreads) % (sizeMax + 1)))) := by
  refine h.stay hi hi' ⟨rfl, rfl, rfl, rfl, rfl⟩ rfl rfl rfl hpc rfl rfl fun _ hrec => ?_
  have htask := task_lt hr hpc
  have hbound := (hr.checked.submissions g hlt).2.2
  obtain ⟨hpass, hresult, hmod, hclear⟩ := hrec
  rw [Nat.mod_eq_of_lt (by omega : i + (s.submissions g).activeThreads < sizeMax + 1)]
  refine ⟨hpass, hresult, by rw [Nat.add_mod_right]; exact hmod, fun j hj hjmod => ?_⟩
  by_cases hji : j < i
  · exact hclear j hji hjmod
  · obtain rfl : j = i := eq_of_residue hmod hjmod (Nat.le_of_not_lt hji) hj
    exact hsuccess

theorem VerdictInv.taskFailed {i : ℕ} (hr : Reached tr s)
    (hpc : (s.workers w).pc = .calling g (.task i) false) (hfailed : o.task i ≠ .success)
    (hi' : Inv ((s.setResult w ⟨o.task i, i⟩).moveWorker w (.finishing g))) :
    VerdictInv o g ((s.setResult w ⟨o.task i, i⟩).moveWorker w (.finishing g)) := by
  have hother : ∀ x ≠ w, ((s.setResult w ⟨o.task i, i⟩).moveWorker w (.finishing g)).workers x =
      s.workers x ∧ ((s.setResult w ⟨o.task i, i⟩).moveWorker w (.finishing g)).results x =
      s.results x :=
    fun x hx => ⟨Context.moveWorker_of_ne hx, update_of_ne hx _ _⟩
  refine h.move ⟨rfl, rfl, rfl, rfl, rfl⟩ hother rfl h.failed fun hw => ?_
  have hrec := (share_of_current hi (current_of hpc)).1 (h.share w hw)
  rw [hpc] at hrec
  obtain ⟨hpass, -, hmod, hclear⟩ := hrec
  refine (share_of_current hi' (by rw [Context.moveWorker_self]; rfl)).2 ?_
  rw [Context.moveWorker_self, show ((s.setResult w ⟨o.task i, i⟩).moveWorker w
    (.finishing g)).results w = ⟨o.task i, i⟩ from update_self w _ s.results]
  exact .inr ⟨hpass, .inr ⟨i, task_lt hr hpc, hmod, hfailed, hclear, rfl⟩⟩

theorem VerdictInv.finishWorker (hpc : (s.workers w).pc = .finishing g) :
    VerdictInv o g (s.finishWorker g w) := by
  obtain ⟨hsame, hworkers, hsubs⟩ := finishWorker_fields s g w
  have hsub : ((s.finishWorker g w).submissions g).arguments = (s.submissions g).arguments := by
    rw [hsubs, update_self]; rfl
  have hself : (s.finishWorker g w).workers w = { s.workers w with pc := .waiting } := by
    rw [hworkers, update_self]
  have hother : ∀ x ≠ w, (s.finishWorker g w).workers x = s.workers x ∧
      (s.finishWorker g w).results x = s.results x := fun x hx =>
    ⟨by rw [hworkers, update_of_ne hx], by rw [finishWorker_results]⟩
  refine h.move hsame hother hsub (by rw [hsubs, update_self]; exact h.failed) fun hw => ?_
  have hrec := (share_of_current hi (current_of hpc)).1 (h.share w hw)
  rw [hpc] at hrec
  have hseen := (hi.current w g (current_of hpc)).2.2
  refine ⟨fun hp => absurd ?_ hp.2, fun _ => ?_⟩
  · rw [hself, hsame.submitted]; exact hseen
  · rw [recorded_congr hsub, hself, finishWorker_results]
    exact hrec

theorem VerdictInv.passBarrier (hpc : (s.workers w).pc = .barrier g)
    (hpre : (s.submissions g).preflight = true)
    (hr' : Reached tr (s.execute g w)) (ha : o.Agree g tr) :
    VerdictInv o g (s.execute g w) := by
  refine h.setWorker _ fun hw => ?_
  have hrec := (share_of_current hi (current_of hpc)).1 (h.share w hw)
  rw [hpc] at hrec
  have hself : ((s.execute g w).workers w).pc =
      if (s.submissions g).preflightFailed then .finishing g else .looping g w := by
    unfold Context.execute
    rw [Context.moveWorker_self]
  have hcurrent : ((s.execute g w).workers w).pc.current = some g := by
    rw [hself]; split <;> rfl
  exact (share_of_current hr'.inv hcurrent).2 (recorded_of_barrier
    (pass_of_executing hr' ha hcurrent) hself hpre h.failed hw hrec)

/-- The result of a preflight, and the barrier behind it where the worker is the last one. -/
theorem VerdictInv.record (hpc : (s.workers w).pc = .preflighted g (o.preflight w))
    (hpre : (s.submissions g).preflight = true)
    (hr' : Reached tr (s.recordPreflight g w (o.preflight w))) (ha : o.Agree g tr) :
    VerdictInv o g (s.recordPreflight g w (o.preflight w)) := by
  have hsame := sameClients_recordPreflight s g w (o.preflight w)
  obtain ⟨pc', hworkers, hsubs, hbranch⟩ := recordPreflight_fields s g w (o.preflight w)
  have hactive := (hi.current w g (current_of hpc)).2.1
  set t := s.recordPreflight g w (o.preflight w)
  have hsub : t.submissions g = (s.submissions g).record (o.preflight w) := by
    rw [hsubs, update_self]
  have hargs : (t.submissions g).arguments = (s.submissions g).arguments := by rw [hsub]; rfl
  have hother : ∀ x ≠ w, t.workers x = s.workers x ∧ t.results x = s.results x := by
    intro x hx
    rw [hworkers, recordPreflight_results, update_of_ne hx]
    refine ⟨rfl, ?_⟩
    split
    · rfl
    · rw [update_of_ne hx]
  have hfailed : (t.submissions g).preflightFailed = true → ¬ o.Pass (s.submissions g) := by
    intro hf hpass
    rw [hsub] at hf
    unfold Submission.record at hf
    rw [if_pos (hpass hpre w hactive)] at hf
    exact h.failed hf hpass
  refine h.move hsame hother hargs hfailed fun hw => ?_
  have hrec := (share_of_current hi (current_of hpc)).1 (h.share w hw)
  rw [hpc] at hrec
  have hresult : t.results w = o.preflightResult w := by
    rw [recordPreflight_results]
    unfold Outcomes.preflightResult
    split
    · exact hrec
    · rw [update_self]
  have hself : (t.workers w).pc = pc' := by
    rw [hworkers, update_self]
  rcases hbranch with ⟨-, hpc', -⟩ | ⟨-, hpc', -⟩
  · have hcurrent : (t.workers w).pc.current = some g := by
      rw [hself, hpc']; split <;> rfl
    refine (share_of_current hr'.inv hcurrent).2 (recorded_of_barrier
      (pass_of_executing hr' ha hcurrent) (by rw [hself, hpc', hsub]) ?_ ?_ ?_ hresult)
    · rw [hsub]; exact hpre
    · rw [pass_congr hargs]; exact hfailed
    · rw [active_eq hargs]; exact hw
  · refine (share_of_current hr'.inv (by rw [hself, hpc']; rfl)).2 ?_
    rw [hself, hpc']
    exact hresult

end

theorem VerdictInv.exit (h : VerdictInv o g s) (hpc : (s.workers w).pc = .waiting) :
    VerdictInv o g (s.moveWorker w .exited) := by
  refine h.setWorker _ fun hw => ?_
  have hshare := h.share w hw
  unfold Context.Share Context.Pending at hshare ⊢
  rw [Context.setWorker_self]
  rw [hpc] at hshare
  exact hshare

/-- A worker that finds nothing to do in the submission. -/
theorem VerdictInv.pass (h : VerdictInv o g s) {pc' : WorkerPc} {epoch seen : ℕ}
    (hpc : (s.workers w).pc = .waiting)
    (hinactive : ∀ g, s.submission = some g → (s.submissions g).activeThreads ≤ w)
    (hleft : pc' = .waiting ∨ pc' = .exited) :
    VerdictInv o g (s.setWorker w ⟨pc', epoch, seen⟩) := by
  refine h.setWorker _ fun hw => ?_
  have hfinal := (h.share w hw).2 fun hp => absurd (hinactive g hp.1) (Nat.not_le.2 hw)
  refine ⟨fun hp => absurd hp.1 fun hg => absurd (hinactive g hg) (Nat.not_le.2 hw), fun _ => ?_⟩
  rw [Context.setWorker_self]
  rw [hpc] at hfinal
  rcases hleft with rfl | rfl <;> exact hfinal

/-- **A step keeps what the workers have recorded.** -/
theorem VerdictInv.step (h : VerdictInv o g s) (hl : Live tr s) (hl' : Live (tr ++ es) s')
    (hs : Step s es s') (ha : o.Agree g (tr ++ es)) (hg : g + 1 = s.submitted)
    (hkeep : s'.submitted = s.submitted) : VerdictInv o g s' := by
  have hi := hl.reached.inv
  have hi' := hl'.reached.inv
  have hlt : g < s.submitted := by omega
  have client : SameWork s s' → s'.results = s.results → VerdictInv o g s' := h.same
  have same : SameClients s s := ⟨rfl, rfl, rfl, rfl, rfl⟩
  cases hs with
  | sleep | sleepBarrier | sleepClient | wake => exact client ⟨rfl, rfl, rfl, rfl, rfl⟩ rfl
  | reject => exact h
  | enter | lock | refuse | notify | giveBack | stop | notifyStop | leave =>
    exact client ⟨rfl, rfl, rfl, rfl, rfl⟩ rfl
  | accept pc stopping => exact absurd hkeep (Nat.succ_ne_self _)
  -- only the latest submission can be installed, and that is `g`
  | @complete c g' pc full awake =>
    obtain rfl : g' = g := by
      have := (hi.installed g' (hi.client c g' (by rw [pc]; rfl))).1
      omega
    exact h.complete hi hlt full
  | exit pc stopping epoch => exact h.exit pc
  | pass pc epoch inactive events left => exact h.pass pc inactive (left.imp_right And.left)
  | @join w g' pc epoch installed active =>
    obtain rfl : g' = g := by
      have := (hi.installed g' installed).1
      omega
    exact h.join hi epoch installed hi'
  | startPreflight pc | preflightDone pc | startTask pc =>
    obtain rfl := latest_of_current hi hg (current_of pc)
    exact h.stay hi hi' same rfl rfl rfl pc rfl rfl fun _ hrec => hrec
  | startLoop pc preflight =>
    obtain rfl := latest_of_current hi hg (current_of pc)
    refine h.stay hi hi' same rfl rfl rfl pc rfl rfl fun hw hrec => ?_
    refine ⟨fun hp => ?_, hrec, Nat.mod_eq_of_lt hw, clear_self hw⟩
    rw [preflight] at hp
    cases hp
  | endLoop pc done =>
    obtain rfl := latest_of_current hi hg (current_of pc)
    refine h.stay hi hi' same rfl rfl rfl pc rfl rfl fun _ hrec => ?_
    obtain ⟨hpass, hresult, -, hclear⟩ := hrec
    exact .inr ⟨hpass, .inl ⟨fun j hj => hclear j (hj.trans_le done), hresult⟩⟩
  | @nestedShutdown w g' callback pc | @nestedNotify w g' callback pc =>
    obtain rfl := latest_of_current hi hg (current_of pc)
    refine h.stay hi hi' ⟨rfl, rfl, rfl, rfl, rfl⟩ rfl rfl rfl pc rfl rfl fun _ hrec => ?_
    cases callback <;> exact hrec
  | @taskDone w g' i pc =>
    obtain rfl := latest_of_current hi hg (current_of pc)
    have hsuccess : Status.success = o.task i :=
      ha.2 i w .success (List.mem_append_right _ List.mem_cons_self)
    exact h.taskDone hi hl.reached pc hlt hsuccess.symm hi'
  | @taskFailed w g' i status pc failed =>
    obtain rfl := latest_of_current hi hg (current_of pc)
    obtain rfl : status = o.task i :=
      ha.2 i w status (List.mem_append_right _ (List.mem_singleton.2 rfl))
    exact h.taskFailed hi hl.reached pc failed hi'
  | finishWorker pc =>
    obtain rfl := latest_of_current hi hg (current_of pc)
    exact h.finishWorker hi pc
  | @passBarrier w g' pc full =>
    obtain rfl := latest_of_current hi hg (current_of pc)
    exact h.passBarrier hi pc (hl.checking w g' (by rw [pc]; rfl)) hl'.reached ha
  | @record w g' status pc =>
    obtain rfl := latest_of_current hi hg (current_of pc)
    obtain rfl : status = o.preflight w :=
      ha.1 w status (List.mem_append_left _ (hl.reached.trace.preflighted w g' status pc))
    exact h.record hi pc (hl.checking w g' (by rw [pc]; rfl)) hl'.reached ha

/-- What holds behind every run, of the statuses too. -/
structure Judged (o : Outcomes) (g : ℕ) (tr : List Event) (s : Context) : Prop where
  live : Live tr s
  returning : ∀ c g, s.clients c = .returning g → g + 1 = s.submitted
  verdict : o.Agree g tr → g + 1 = s.submitted → VerdictInv o g s

theorem Outcomes.Agree.of_append (h : o.Agree g (tr ++ es)) : o.Agree g tr :=
  ⟨fun w status he => h.1 w status (List.mem_append_left _ he),
    fun i w status he => h.2 i w status (List.mem_append_left _ he)⟩

theorem verdict_install (hi : Inv s) (c : ℕ) (request : Request) :
    VerdictInv o s.submitted (s.install c request) := by
  have hsub : (s.install c request).submissions s.submitted =
      ⟨request.taskCount, request.activeThreads, request.preflight, 0, false, 0⟩ :=
    update_self s.submitted _ s.submissions
  refine ⟨fun w hw => ?_, fun hf => by rw [hsub] at hf; cases hf⟩
  rw [hsub] at hw
  have hpending : (s.install c request).Pending s.submitted w :=
    ⟨rfl, Nat.ne_of_lt (Nat.lt_succ_of_le (hi.seen w).1)⟩
  exact ⟨fun _ => if_pos hw, fun hnot => absurd hpending hnot⟩

theorem Judged.step (h : Judged o g tr s) {a : Action} (hn : s.next a = some (s', es)) :
    Judged o g (tr ++ es) s' := by
  have hs := step_of_next hn
  have hl' := h.live.step hn
  have hi := h.live.reached.inv
  refine ⟨hl', fun c g' hc => ?_, fun ha hg => ?_⟩
  · have hold : g' + 1 = s.submitted ∧ (s.clients c).holds = true := by
      rcases returning_step hs hc with hc | hc
      · exact ⟨h.returning c g' hc, by rw [hc]; rfl⟩
      · exact ⟨(hi.installed g' (hi.client c g' (by rw [hc]; rfl))).1, by rw [hc]; rfl⟩
    rcases submission_step hs with ⟨hsame, -⟩ | ⟨c', request, hpc, -, rfl, -⟩
    · rw [hsame]; exact hold.1
    · -- the thread that installs a submission holds the mutex alone
      obtain rfl : c = c' := Option.some.inj
        ((hi.mutex c hold.2).symm.trans (hi.mutex c' (by rw [hpc]; rfl)))
      rw [show (s.install c request).clients c = .notifying s.submitted from
        Context.moveClient_self] at hc
      cases hc
  · rcases submission_step hs with ⟨hsame, -⟩ | ⟨c, request, -, -, rfl, -⟩
    · have hg' : g + 1 = s.submitted := hg.trans hsame
      exact (h.verdict ha.of_append hg').step h.live hl' hs ha hg' hsame
    · obtain rfl : g = s.submitted := Nat.succ_injective hg
      exact verdict_install hi c request

theorem context_judged {n : ℕ} {actions : List Action}
    (h : run (.create n) actions = some (s, tr)) (o : Outcomes) (g : ℕ) : Judged o g tr s :=
  Trace.run_invariant (P := Judged o g)
    ⟨live_create n, nofun, fun _ hg => by cases hg⟩
    (fun _ _ _ _ _ hp hn => hp.step hn) h

theorem outcome_spec (s : Context) (a : ℕ) :
    s.outcome a = {} ∧ (∀ w < a, sizeMax ≤ (s.results w).firstFailedTask) ∨
      ∃ w < a, s.outcome a = s.results w ∧ (s.results w).firstFailedTask < sizeMax ∧
        (∀ x < w, (s.results w).firstFailedTask < (s.results x).firstFailedTask) ∧
        ∀ x < a, (s.results w).firstFailedTask ≤ (s.results x).firstFailedTask := by
  induction a with
  | zero => exact .inl ⟨rfl, nofun⟩
  | succ a ih =>
    have hstep : s.outcome (a + 1) =
        if (s.results a).firstFailedTask < (s.outcome a).firstFailedTask then s.results a
        else s.outcome a := by
      unfold Context.outcome
      rw [List.range_succ, List.foldl_append]
      rfl
    have extend : ∀ {p : ℕ → Prop}, (∀ x < a, p x) → p a → ∀ x < a + 1, p x := by
      intro p h ha x hx
      rcases Nat.lt_succ_iff_lt_or_eq.1 hx with hx | rfl
      · exact h x hx
      · exact ha
    rw [hstep]
    rcases ih with ⟨hnone, hall⟩ | ⟨w, hw, hsome, hlt, hfirst, hleast⟩
    · rw [hnone]
      split
      · rename_i hless
        have hless : (s.results a).firstFailedTask < sizeMax := hless
        have hbelow : ∀ x < a, (s.results a).firstFailedTask < (s.results x).firstFailedTask :=
          fun x hx => hless.trans_le (hall x hx)
        exact .inr ⟨a, Nat.lt_succ_self a, rfl, hless, hbelow,
          extend (fun x hx => (hbelow x hx).le) le_rfl⟩
      · rename_i hmore
        exact .inl ⟨rfl, extend hall (Nat.le_of_not_lt hmore)⟩
    · rw [hsome]
      split
      · rename_i hless
        have hbelow : ∀ x < a, (s.results a).firstFailedTask < (s.results x).firstFailedTask :=
          fun x hx => hless.trans_le (hleast x hx)
        exact .inr ⟨a, Nat.lt_succ_self a, rfl, hless.trans hlt, hbelow,
          extend (fun x hx => (hbelow x hx).le) le_rfl⟩
      · rename_i hmore
        exact .inr ⟨w, hw.trans (Nat.lt_succ_self a), rfl, hlt, hfirst,
          extend hleast (Nat.le_of_not_lt hmore)⟩

theorem returned_not_mem_awaitWork (s : Context) (w g : ℕ) (status : Status) :
    .returned g status ∉ (s.awaitWork w).2 := by
  unfold Context.awaitWork
  dsimp only
  split_ifs
  all_goals first
    | exact List.not_mem_nil
    | (split <;> simp)

theorem returned_not_mem_workerStep {status : Status} (h : s.workerStep w = some (s', es)) :
    .returned g status ∉ es := by
  unfold Context.workerStep at h
  split at h
  case h_1 =>
    split at h
    · cases h
    · have := returned_not_mem_awaitWork s w g status
      rwa [Option.some.inj h] at this
  all_goals
    try split_ifs at h
  all_goals cases h <;> simp

/-- The status of a return is that of the first of the least failed tasks. -/
theorem returned_next {a : Action} {status : Status} (hn : s.next a = some (s', es))
    (he : .returned g status ∈ es) : ∃ c, s.clients c = .returning g ∧
      status = (s.outcome (s.submissions g).activeThreads).status := by
  cases a with
  | worker w =>
    simp only [Context.next] at hn
    split at hn
    · exact absurd he (returned_not_mem_workerStep hn)
    · cases hn
  | client c =>
    simp only [Context.next, Context.clientStep] at hn
    split at hn
    case h_6 g' hpc =>
      cases hn
      cases List.mem_singleton.1 he
      exact ⟨c, hpc, rfl⟩
    case h_3 =>
      unfold Context.submit at hn
      split at hn <;> cases hn <;> simp at he
    all_goals
      try split_ifs at hn
    all_goals cases hn <;> simp at he
  | call c request =>
    simp only [Context.next, Context.call] at hn
    split at hn
    · split at hn <;> cases hn <;> simp at he
    · cases hn
  | callShutdown c =>
    simp only [Context.next] at hn
    split at hn <;> cases hn
    simp at he
  | finish w status =>
    simp only [Context.next, Context.finishCallback] at hn
    split at hn
    · cases hn; simp at he
    · split at hn <;> cases hn <;> simp at he
    · cases hn
  | nestedCall w request =>
    simp only [Context.next, Context.nestedCall] at hn
    split at hn
    · obtain ⟨status, -, hs⟩ := Option.map_eq_some_iff.1 hn
      cases hs
      simp at he
    · cases hn
  | nestedShutdown w =>
    simp only [Context.next, Context.nestedShutdown] at hn
    split at hn <;> cases hn
    simp at he
  | wakeWorker w => cases hn; simp at he
  | wakeClient c => cases hn; simp at he

theorem outcome_verdict {r : Request} (htasks : sub.taskCount = r.taskCount)
    (hactive : sub.activeThreads = r.activeThreads) (hpre : sub.preflight = r.preflight)
    (hpos : 0 < r.activeThreads) (h : ∀ w < r.activeThreads, o.Final sub w (s.results w)) :
    (s.outcome r.activeThreads).status = verdict o r := by
  have hbound : r.taskCount ≤ sizeMax := by have := r.noWrap; omega
  have hclear : ∀ w i, o.Clear sub w i ↔ ∀ j < i, j % r.activeThreads = w → o.task j = .success := by
    intro w i; simp only [Outcomes.Clear, hactive]
  have hpass : o.Pass sub ↔
      (r.preflight = true → ∀ x < r.activeThreads, o.preflight x = .success) := by
    simp only [Outcomes.Pass, hactive, hpre]
  unfold verdict
  by_cases hp : o.Pass sub
  · have hnone : (range r.activeThreads).find?
        (fun w => r.preflight && o.preflight w != .success) = none := by
      simp only [List.find?_eq_none, mem_range, Bool.and_eq_true, bne_iff_ne, not_and, not_not]
      exact fun x hx hpreflight => hpass.1 hp hpreflight x hx
    -- a worker has done all its tasks or stopped at its first bad one
    have hresult : ∀ w < r.activeThreads,
        (∀ j < r.taskCount, j % r.activeThreads = w → o.task j = .success) ∧ s.results w = {} ∨
        ∃ i < r.taskCount, i % r.activeThreads = w ∧ o.task i ≠ .success ∧
          (∀ j < i, j % r.activeThreads = w → o.task j = .success) ∧
          s.results w = ⟨o.task i, i⟩ := by
      intro w hw
      rcases h w hw with ⟨hnot, -⟩ | ⟨-, ⟨hall, hres⟩ | ⟨i, hi, hmod, hne, hbefore, hres⟩⟩
      · exact absurd hp hnot
      · exact .inl ⟨(hclear w _).1 (htasks ▸ hall), hres⟩
      · exact .inr ⟨i, htasks ▸ hi, hactive ▸ hmod, hne, (hclear w i).1 hbefore, hres⟩
    rw [hnone]
    rcases outcome_spec s r.activeThreads with ⟨hout, hall⟩ | ⟨w, hw, hout, hlt, -, hleast⟩
    · have hclean : (range r.taskCount).find? (fun i => o.task i != .success) = none := by
        simp only [List.find?_eq_none, mem_range, bne_iff_ne, not_not]
        intro j hj
        have hclass := Nat.mod_lt j hpos
        rcases hresult _ hclass with ⟨hgood, -⟩ | ⟨i, hi, -, -, -, hres⟩
        · exact hgood j hj rfl
        · have := hall _ hclass
          rw [hres] at this
          exact absurd this (Nat.not_le.2 (hi.trans_le hbound))
      rw [hclean, hout]
    · rcases hresult w hw with ⟨-, hres⟩ | ⟨i, hi, -, hne, -, hres⟩
      · rw [hres] at hlt
        exact absurd hlt (Nat.lt_irrefl _)
      -- a bad task before it would be the result of its own worker
      have hfirst : (range r.taskCount).find? (fun i => o.task i != .success) = some i := by
        refine List.find?_range_eq_some.2 ⟨by simpa using hne, mem_range.2 hi, fun j hj => ?_⟩
        have hclass := Nat.mod_lt j hpos
        suffices hj : o.task j = .success by simp [hj]
        rcases hresult _ hclass with ⟨hgood, -⟩ | ⟨i', -, -, -, hbefore, hres'⟩
        · exact hgood j (hj.trans hi) rfl
        · have hle := hleast _ hclass
          rw [hres, hres'] at hle
          exact hbefore j (hj.trans_le hle) rfl
      rw [hfirst, hout, hres]
  · have hresult : ∀ w < r.activeThreads, s.results w = o.preflightResult w := by
      intro w hw
      rcases h w hw with ⟨-, hres⟩ | ⟨hyes, -⟩
      · exact hres
      · exact absurd hyes hp
    rw [hpass] at hp
    push Not at hp
    obtain ⟨hpreflight, x, hx, hne⟩ := hp
    rcases outcome_spec s r.activeThreads with ⟨-, hall⟩ | ⟨w, hw, hout, hlt, hfirst, -⟩
    · have := hall x hx
      rw [hresult x hx, Outcomes.preflightResult, if_neg hne] at this
      exact absurd this (show ¬ sizeMax ≤ 0 by decide)
    · have hfail : o.preflight w ≠ .success := by
        intro hsuccess
        rw [hresult w hw, Outcomes.preflightResult, if_pos hsuccess] at hlt
        exact absurd hlt (Nat.lt_irrefl _)
      have hsome : (range r.activeThreads).find?
          (fun w => r.preflight && o.preflight w != .success) = some w := by
        refine List.find?_range_eq_some.2
          ⟨by simp [hpreflight, hfail], mem_range.2 hw, fun j hj => ?_⟩
        have hless := hfirst j hj
        rw [hresult j (hj.trans hw), Outcomes.preflightResult] at hless
        split at hless
        · rename_i hsuccess
          simp [hsuccess]
        · exact absurd hless (Nat.not_lt_zero _)
      rw [hsome, hout, hresult w hw, Outcomes.preflightResult, if_neg hfail]

/-- **The status does not depend on the schedule.** Where the callbacks of a submission have
fixed outcomes, every run returns the verdict on them, so any two runs return the same status. -/
theorem context_verdict {n n' : ℕ} {actions actions' : List Action} {tr' : List Event}
    (hrun : run (.create n) actions = some (s, tr))
    (hrun' : run (.create n') actions' = some (s', tr')) {g g' c c' : ℕ} {r : Request}
    (hacc : .accepted g c r ∈ tr) (hacc' : .accepted g' c' r ∈ tr')
    (ho : o.Agree g tr) (ho' : o.Agree g' tr') {status status' : Status}
    (hret : .returned g status ∈ tr) (hret' : .returned g' status' ∈ tr') :
    status = status' ∧ status = verdict o r := by
  have judge : ∀ {n actions s tr g c status}, run (.create n) actions = some (s, tr) →
      .accepted g c r ∈ tr → o.Agree g tr → .returned g status ∈ tr → status = verdict o r := by
    intro n actions s tr g c status hrun hacc ho hret
    obtain ⟨before, after, he⟩ := List.append_of_mem hret
    obtain ⟨bs, u, a, v, cs, es₁, l, r', es₂, h₁, hn, hrest, hbefore⟩ := Trace.run_emitted hrun he
    have hj := context_judged h₁ o g
    obtain ⟨c', hc', hstatus⟩ :=
      returned_next hn (List.mem_append_right _ List.mem_cons_self)
    have hg := hj.returning c' g hc'
    have hagree : o.Agree g es₁ := by
      rw [he, hbefore, List.append_assoc] at ho
      exact ho.of_append
    have hv := hj.verdict hagree hg
    have hi := hj.live.reached.inv
    have hnone := hi.none_of_holds (c := c') (by rw [hc']; rfl) (by rw [hc']; rfl)
    obtain ⟨_, htasks, hactive, hpre⟩ := (context_live hrun).reached.trace.accepted g c r hacc
    obtain ⟨htasks', hactive', hpre'⟩ :=
      active_of_keeps (run_keeps (Trace.run_cons hn hrest)) (show g < u.submitted by omega)
    have hfinal : ∀ w < r.activeThreads, o.Final (u.submissions g) w (u.results w) := by
      intro w hw
      rw [← hactive, hactive'] at hw
      have hshare := (hv.share w hw).2 (fun hp => by cases hnone.symm.trans hp.1)
      have hcurrent := hi.current_none hnone w
      cases hpc : (u.workers w).pc with
      | waiting | exited => rw [hpc] at hshare; exact hshare
      | _ => rw [hpc] at hcurrent; cases hcurrent
    rw [hstatus, ← hactive', hactive]
    refine outcome_verdict (htasks'.symm.trans htasks) (hactive'.symm.trans hactive)
      (hpre'.symm.trans hpre) ?_ hfinal
    rw [← hactive, hactive']
    exact (hj.live.reached.checked.submissions g (by omega)).1
  have h := judge hrun hacc ho hret
  have h' := judge hrun' hacc' ho' hret'
  exact ⟨h.trans h'.symm, h⟩

/-- Three tasks on two workers: the second and the third fail. -/
def threeTasksOutcomes : Outcomes where
  preflight _ := .success
  task i := if i = 1 then .callbackFailed else if i = 2 then .resourceExhausted else .success

/-- The worker with the third task records its failure first, or last. -/
def threeTasksRun (late : Bool) : List Action :=
  let even : List Action :=
    [.worker 0, .worker 0, .worker 0, .finish 0 .success, .worker 0, .finish 0 .resourceExhausted,
      .worker 0]
  let odd : List Action := [.worker 1, .worker 1, .worker 1, .finish 1 .callbackFailed, .worker 1]
  [.call 0 threeTasks, .client 0, .client 0, .client 0] ++
    (if late then odd ++ even else even ++ odd) ++ [.client 0, .client 0]

def threeTasksTrace (late : Bool) : List Event :=
  ((run (.create 2) (threeTasksRun late)).map Prod.snd).getD []

theorem threeTasks_run (late : Bool) :
    (∃ s, run (.create 2) (threeTasksRun late) = some (s, threeTasksTrace late)) ∧
      threeTasksOutcomes.Agree 0 (threeTasksTrace late) := by
  have hrun : (run (.create 2) (threeTasksRun late)).isSome = true := by
    cases late <;> decide +kernel
  have hall : (threeTasksTrace late).all (fun
      | .preflightDone _ w status => status == threeTasksOutcomes.preflight w
      | .taskDone _ i _ status => status == threeTasksOutcomes.task i
      | _ => true) = true := by cases late <;> decide +kernel
  refine ⟨?_, fun w status he => ?_, fun i w status he => ?_⟩
  · obtain ⟨⟨s, tr⟩, h⟩ := Option.isSome_iff_exists.1 hrun
    refine ⟨s, ?_⟩
    unfold threeTasksTrace
    rw [h]
    rfl
  · simpa using List.all_eq_true.1 hall _ he
  · simpa using List.all_eq_true.1 hall _ he

theorem context_verdict_threeTasks :
    .returned 0 .callbackFailed ∈ threeTasksTrace false ∧
      .returned 0 .callbackFailed ∈ threeTasksTrace true ∧
      .callbackFailed = verdict threeTasksOutcomes threeTasks := by
  obtain ⟨⟨s, hrun⟩, ho⟩ := threeTasks_run false
  obtain ⟨⟨s', hrun'⟩, ho'⟩ := threeTasks_run true
  have hacc : .accepted 0 0 threeTasks ∈ threeTasksTrace false := by decide +kernel
  have hacc' : .accepted 0 0 threeTasks ∈ threeTasksTrace true := by decide +kernel
  have hret : .returned 0 .callbackFailed ∈ threeTasksTrace false := by decide +kernel
  have hret' : .returned 0 .callbackFailed ∈ threeTasksTrace true := by decide +kernel
  exact ⟨hret, hret', (context_verdict hrun hrun' hacc hacc' ho ho' hret hret').2⟩

end Matcore.Parallel
