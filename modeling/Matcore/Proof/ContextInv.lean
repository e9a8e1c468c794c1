import Matcore.Lib.Share
import Matcore.Proof.ContextStep

/-!
# The barriers of a submission

Every step keeps `Inv`, and so every run does.
-/

namespace Matcore.Parallel

open Function (update_self update_of_ne update)
open Count
open Context (moveClient_self moveClient_of_ne setWorker_self)

/-- The submission that an outside thread waits for. -/
def ClientPc.submitting : ClientPc → Option ℕ
  | notifying g | waiting g => some g
  | idle | locking _ | locked _ | returning _ | lockingShutdown | shuttingDown
  | notifyingShutdown | joining => none

/-- Behind the critical section that records a preflight. -/
def WorkerPc.recorded : WorkerPc → Bool
  | barrier _ | calling _ (.task _) _ | looping _ _ | finishing _ => true
  | waiting | joined _ | calling _ .preflight _ | preflighted _ _ | exited => false

/-- In the task loop. -/
def WorkerPc.executing : WorkerPc → Bool
  | calling _ (.task _) _ | looping _ _ => true
  | waiting | joined _ | calling _ .preflight _ | preflighted _ _ | barrier _ | finishing _
  | exited => false

namespace Context

variable (s : Context) (g w : ℕ)

/-- The worker has not seen the submission yet. -/
def Pending : Prop := s.submission = some g ∧ (s.workers w).seen ≠ s.submitted

/-- The worker is through with the submission. -/
def Passed : Prop := ¬ s.Pending g w ∧ (s.workers w).pc.current ≠ some g

/-- The worker has recorded its preflight of the submission. -/
def Arrived : Prop :=
  s.Passed g w ∨ (s.workers w).pc.current = some g ∧ (s.workers w).pc.recorded = true

instance : DecidablePred (s.Pending g) := fun _ => inferInstanceAs (Decidable (_ ∧ _))

instance : DecidablePred (s.Passed g) := fun _ => inferInstanceAs (Decidable (_ ∧ _))

instance : DecidablePred (s.Arrived g) := fun _ => inferInstanceAs (Decidable (_ ∨ _))

end Context

/-- One submission is installed at a time, by the holder of the submission mutex; only active
workers hold it; its two counters count the workers that have passed its barriers. -/
structure Inv (s : Context) : Prop where
  mutex : ∀ c, (s.clients c).holds = true → s.submissionMutex = some c
  client : ∀ c g, (s.clients c).submitting = some g → s.submission = some g
  installed : ∀ g, s.submission = some g →
    g + 1 = s.submitted ∧ ∃ c, (s.clients c).submitting = some g
  epoch : s.epoch = s.submitted % 2 ^ 64
  seen : ∀ w, (s.workers w).seen ≤ s.submitted ∧
    (s.workers w).observedEpoch = (s.workers w).seen % 2 ^ 64
  current : ∀ w g, (s.workers w).pc.current = some g → s.submission = some g ∧
    w < (s.submissions g).activeThreads ∧ (s.workers w).seen = s.submitted
  completed : ∀ g < s.submitted,
    (s.submissions g).completedWorkers = below (s.submissions g).activeThreads (s.Passed g)
  preflights : ∀ g < s.submitted, (s.submissions g).preflight = true →
    (s.submissions g).completedPreflights = below (s.submissions g).activeThreads (s.Arrived g)
  executing : ∀ w g, (s.workers w).pc.current = some g → (s.workers w).pc.executing = true →
    (s.submissions g).preflight = true →
    (s.submissions g).completedPreflights = (s.submissions g).activeThreads ∧
      (s.submissions g).preflightFailed = false

variable {s s' : Context} {w g : ℕ} {pc : ClientPc}

theorem holds_of_submitting (h : pc.submitting = some g) : pc.holds = true := by
  cases pc <;> first
    | rfl
    | cases h

theorem inv_create (workerCount : ℕ) : Inv (.create workerCount) where
  mutex := nofun
  client := nofun
  installed := nofun
  epoch := rfl
  seen _ := ⟨le_rfl, rfl⟩
  current := nofun
  completed := nofun
  preflights := nofun
  executing := nofun

namespace Inv

theorem lt_submitted (h : Inv s) (hg : s.submission = some g) : g < s.submitted := by
  have := (h.installed g hg).1
  omega

/-- While a thread holds the mutex without waiting, nothing is installed. -/
theorem none_of_holds (h : Inv s) {c : ℕ} (hc : (s.clients c).holds = true)
    (hs : (s.clients c).submitting = none) : s.submission = none := by
  by_contra hne
  obtain ⟨g, hg⟩ := Option.ne_none_iff_exists'.1 hne
  obtain ⟨c', hc'⟩ := (h.installed g hg).2
  have := h.mutex c' (holds_of_submitting hc')
  obtain rfl : c = c' := Option.some.inj ((h.mutex c hc).symm.trans this)
  rw [hs] at hc'
  cases hc'

end Inv

/-- The worker's part of two contexts is the same. -/
structure SameWork (s s' : Context) : Prop where
  submission : s'.submission = s.submission
  epoch : s'.epoch = s.epoch
  submitted : s'.submitted = s.submitted
  workers : s'.workers = s.workers
  submissions : s'.submissions = s.submissions

theorem Inv.client_step (h : Inv s) (hsame : SameWork s s')
    (hmutex : ∀ c, (s'.clients c).holds = true → s'.submissionMutex = some c)
    (hclients : ∀ c, (s'.clients c).submitting = (s.clients c).submitting) : Inv s' := by
  obtain ⟨h₁, h₂, h₃, h₄, h₅⟩ := hsame
  have hpassed : ∀ g w, s'.Passed g w ↔ s.Passed g w := by
    intro g w; simp only [Context.Passed, Context.Pending, h₁, h₃, h₄]
  have harrived : ∀ g w, s'.Arrived g w ↔ s.Arrived g w := by
    intro g w; simp only [Context.Arrived, hpassed, h₄]
  exact
    { mutex := hmutex
      client := fun c g hc => by rw [h₁]; exact h.client c g (hclients c ▸ hc)
      installed := fun g hg => by
        obtain ⟨hn, c, hc⟩ := h.installed g (h₁ ▸ hg)
        exact ⟨h₃ ▸ hn, c, (hclients c).trans hc⟩
      epoch := by rw [h₂, h₃]; exact h.epoch
      seen := fun w => by rw [h₃, h₄]; exact h.seen w
      current := fun w g hw => by
        rw [h₄] at hw
        rw [h₁, h₃, h₄, h₅]
        exact h.current w g hw
      completed := fun g hg => by
        rw [h₅, below_congr fun w _ => hpassed g w]
        exact h.completed g (h₃ ▸ hg)
      preflights := fun g hg hp => by
        rw [h₅] at hp ⊢
        rw [below_congr fun w _ => harrived g w]
        exact h.preflights g (h₃ ▸ hg) hp
      executing := fun w g hw he hp => by
        rw [h₄] at hw he
        rw [h₅] at hp ⊢
        exact h.executing w g hw he hp }

/-- Everything but the workers and the submissions is the same. -/
structure SameClients (s s' : Context) : Prop where
  submission : s'.submission = s.submission
  epoch : s'.epoch = s.epoch
  submitted : s'.submitted = s.submitted
  mutex : s'.submissionMutex = s.submissionMutex
  clients : s'.clients = s.clients

theorem Inv.clients_kept (h : Inv s) (hsame : SameClients s s') :
    Inv { s' with workers := s.workers, submissions := s.submissions } :=
  h.client_step ⟨hsame.submission, hsame.epoch, hsame.submitted, rfl, rfl⟩
    (fun c hc => hsame.mutex.trans (h.mutex c (hsame.clients ▸ hc)))
    fun c => by rw [hsame.clients]

theorem passed_congr (hsame : SameClients s s') {x : ℕ} (hx : s'.workers x = s.workers x) (g : ℕ) :
    s'.Passed g x ↔ s.Passed g x := by
  simp only [Context.Passed, Context.Pending, hsame.submission, hsame.submitted, hx]

theorem arrived_congr (hsame : SameClients s s') {x : ℕ} (hx : s'.workers x = s.workers x) (g : ℕ) :
    s'.Arrived g x ↔ s.Arrived g x := by
  simp only [Context.Arrived, passed_congr hsame hx, hx]

theorem Inv.wait_step (h : Inv s) (hsame : SameClients s s') (hsub : s'.submissions = s.submissions)
    (hother : ∀ x, x ≠ w → s'.workers x = s.workers x) (hnone : (s.workers w).pc.current = none)
    (hseen : (s'.workers w).seen ≤ s.submitted ∧
      (s'.workers w).observedEpoch = (s'.workers w).seen % 2 ^ 64)
    (hcurrent : ∀ g, (s'.workers w).pc.current = some g → s.submission = some g ∧
      w < (s.submissions g).activeThreads ∧ (s'.workers w).seen = s.submitted)
    (hrecorded : (s'.workers w).pc.recorded = false)
    (hpassed : ∀ g, w < (s.submissions g).activeThreads → (s'.Passed g w ↔ s.Passed g w)) :
    Inv s' := by
  have hall : ∀ g, ∀ x < (s.submissions g).activeThreads, (s'.Passed g x ↔ s.Passed g x) := by
    intro g x hx
    by_cases hxw : x = w
    · subst hxw; exact hpassed g hx
    · exact passed_congr hsame (hother x hxw) g
  have harrived : ∀ g, ∀ x < (s.submissions g).activeThreads, (s'.Arrived g x ↔ s.Arrived g x) := by
    intro g x hx
    by_cases hxw : x = w
    · subst hxw
      simp only [Context.Arrived, hpassed g hx, hrecorded, hnone, Bool.false_eq_true, and_false,
        reduceCtorEq, false_and]
    · exact arrived_congr hsame (hother x hxw) g
  have hexecuting : (s'.workers w).pc.executing = false := by
    revert hrecorded
    cases (s'.workers w).pc with
    | calling g callback n => cases callback <;> simp [WorkerPc.recorded, WorkerPc.executing]
    | _ => simp [WorkerPc.recorded, WorkerPc.executing]
  have hkept := h.clients_kept hsame
  exact
    { mutex := hkept.mutex
      client := hkept.client
      installed := hkept.installed
      epoch := hkept.epoch
      seen := fun x => by
        rw [hsame.submitted]
        by_cases hxw : x = w
        · subst hxw; exact hseen
        · rw [hother x hxw]; exact h.seen x
      current := fun x g hx => by
        rw [hsame.submission, hsame.submitted, hsub]
        by_cases hxw : x = w
        · subst hxw; exact hcurrent g hx
        · rw [hother x hxw] at hx ⊢; exact h.current x g hx
      completed := fun g hg => by
        rw [hsub, below_congr (hall g)]; exact h.completed g (hsame.submitted ▸ hg)
      preflights := fun g hg hp => by
        rw [hsub] at hp ⊢
        rw [below_congr (harrived g)]; exact h.preflights g (hsame.submitted ▸ hg) hp
      executing := fun x g hx he hp => by
        rw [hsub] at hp ⊢
        by_cases hxw : x = w
        · subst hxw; rw [hexecuting] at he; cases he
        · rw [hother x hxw] at hx he; exact h.executing x g hx he hp }

theorem Inv.move_step (h : Inv s) (hsame : SameClients s s')
    (hother : ∀ x, x ≠ w → s'.workers x = s.workers x)
    (hseen : (s'.workers w).seen = (s.workers w).seen ∧
      (s'.workers w).observedEpoch = (s.workers w).observedEpoch)
    (hcurrent : (s.workers w).pc.current = some g) (hcurrent' : (s'.workers w).pc.current = some g)
    (hsubs : ∀ g', g' ≠ g → s'.submissions g' = s.submissions g')
    (hactive : (s'.submissions g).activeThreads = (s.submissions g).activeThreads)
    (hpreflight : (s'.submissions g).preflight = (s.submissions g).preflight)
    (hcompleted : (s'.submissions g).completedWorkers = (s.submissions g).completedWorkers)
    (hcount : (s.submissions g).preflight = true →
      ((s'.workers w).pc.recorded = (s.workers w).pc.recorded ∧
        (s'.submissions g).completedPreflights = (s.submissions g).completedPreflights) ∨
      ((s.workers w).pc.recorded = false ∧ (s'.workers w).pc.recorded = true ∧
        (s'.submissions g).completedPreflights = (s.submissions g).completedPreflights + 1))
    (hfailed : (s.workers w).pc.recorded = true →
      (s'.submissions g).preflightFailed = (s.submissions g).preflightFailed)
    (hexecuting : (s'.workers w).pc.executing = true → (s.submissions g).preflight = true →
      (s'.submissions g).completedPreflights = (s.submissions g).activeThreads ∧
        (s'.submissions g).preflightFailed = false) : Inv s' := by
  obtain ⟨hg, hw, hsw⟩ := h.current w g hcurrent
  have hpassed : ∀ g' x, s'.Passed g' x ↔ s.Passed g' x := by
    intro g' x
    by_cases hxw : x = w
    · subst hxw
      simp only [Context.Passed, Context.Pending, hsame.submission, hsame.submitted, hseen.1,
        hcurrent, hcurrent']
    · exact passed_congr hsame (hother x hxw) g'
  have harrived : ∀ g' x, g' ≠ g ∨ x ≠ w → (s'.Arrived g' x ↔ s.Arrived g' x) := by
    intro g' x hne
    by_cases hxw : x = w
    · subst hxw
      have hg' : some g ≠ some g' := fun he =>
        hne.elim (fun hn => hn (Option.some.inj he).symm) fun hn => hn rfl
      simp only [Context.Arrived, hpassed, hcurrent, hcurrent', hg', false_and]
    · exact arrived_congr hsame (hother x hxw) g'
  have harrived_self : ∀ {t : Context}, (t.workers w).pc.current = some g →
      (t.Arrived g w ↔ (t.workers w).pc.recorded = true) := by
    intro t ht
    simp only [Context.Arrived, Context.Passed, ht, ne_eq, not_true_eq_false, and_false, false_or,
      true_and]
  have hkept := h.clients_kept hsame
  refine
    { mutex := hkept.mutex
      client := hkept.client
      installed := hkept.installed
      epoch := hkept.epoch
      seen := fun x => by
        rw [hsame.submitted]
        by_cases hxw : x = w
        · subst hxw; rw [hseen.1, hseen.2]; exact h.seen x
        · rw [hother x hxw]; exact h.seen x
      current := fun x g' hx => ?_
      completed := fun g' hg' => ?_
      preflights := fun g' hg' hp => ?_
      executing := fun x g' hx he hp => ?_ }
  · rw [hsame.submission, hsame.submitted]
    by_cases hxw : x = w
    · subst hxw
      obtain rfl := Option.some.inj (hcurrent'.symm.trans hx)
      exact ⟨hg, hactive ▸ hw, hseen.1.trans hsw⟩
    · rw [hother x hxw] at hx ⊢
      obtain ⟨h₁, h₂, h₃⟩ := h.current x g' hx
      obtain rfl := Option.some.inj (hg.symm.trans h₁)
      exact ⟨h₁, hactive ▸ h₂, h₃⟩
  · rw [hsame.submitted] at hg'
    rw [below_congr fun x _ => hpassed g' x]
    by_cases hne : g' = g
    · subst hne; rw [hactive, hcompleted]; exact h.completed _ hg'
    · rw [hsubs g' hne]; exact h.completed g' hg'
  · rw [hsame.submitted] at hg'
    by_cases hne : g' = g
    swap
    · rw [hsubs g' hne] at hp ⊢
      rw [below_congr fun x _ => harrived g' x (.inl hne)]
      exact h.preflights g' hg' hp
    subst hne
    rw [hpreflight] at hp
    rw [hactive]
    rcases hcount hp with ⟨hr, hc⟩ | ⟨hr, hr', hc⟩
    · rw [hc, h.preflights g' hg' hp]
      refine below_congr fun x _ => ?_
      by_cases hxw : x = w
      · subst hxw; rw [harrived_self hcurrent, harrived_self hcurrent', hr]
      · exact (harrived g' x (.inr hxw)).symm
    · rw [hc, h.preflights g' hg' hp]
      refine (below_gain hw ?_ ?_ fun x hx => harrived g' x (.inr hx)).symm
      · rw [harrived_self hcurrent, hr]; exact Bool.false_ne_true
      · rw [harrived_self hcurrent']; exact hr'
  · by_cases hxw : x = w
    · subst hxw
      obtain rfl := Option.some.inj (hcurrent'.symm.trans hx)
      rw [hactive]
      exact hexecuting he (hpreflight ▸ hp)
    · rw [hother x hxw] at hx he
      obtain rfl := Option.some.inj (hg.symm.trans (h.current x g' hx).1)
      rw [hpreflight] at hp
      obtain ⟨hfull, hok⟩ := h.executing x g hx he hp
      -- the barrier is full, so the worker has recorded its own preflight
      have hr : (s.workers w).pc.recorded = true := by
        rw [← harrived_self hcurrent]
        rw [h.preflights g (h.lt_submitted hg) hp] at hfull
        exact below_eq_iff.1 hfull w hw
      rw [hactive, hfailed hr, hok]
      rcases hcount hp with ⟨-, hc⟩ | ⟨hr', -⟩
      · exact ⟨hc.trans hfull, rfl⟩
      · rw [hr] at hr'; cases hr'

variable {t : Context}

theorem Inv.moveWorker (h : Inv s) (pc : WorkerPc) (hsame : SameClients s t)
    (hworkers : t.workers = s.workers) (hsubs : t.submissions = s.submissions)
    (hcurrent : (s.workers w).pc.current = some g) (hcurrent' : pc.current = some g)
    (hrecorded : (s.submissions g).preflight = true → pc.recorded = (s.workers w).pc.recorded)
    (hexecuting : pc.executing = true → (s.submissions g).preflight = true →
      (s.submissions g).completedPreflights = (s.submissions g).activeThreads ∧
        (s.submissions g).preflightFailed = false) : Inv (t.moveWorker w pc) := by
  have hsubs' : (t.moveWorker w pc).submissions = s.submissions := hsubs
  have hself : (t.moveWorker w pc).workers w = { s.workers w with pc } := by
    rw [Context.moveWorker_self, hworkers]
  refine h.move_step (w := w) (g := g) ⟨hsame.submission, hsame.epoch, hsame.submitted, hsame.mutex,
    hsame.clients⟩ (fun x hx => (Context.moveWorker_of_ne hx).trans (by rw [hworkers])) ?_ hcurrent ?_
    (fun _ _ => by rw [hsubs']) (by rw [hsubs']) (by rw [hsubs']) (by rw [hsubs']) ?_
    (fun _ => by rw [hsubs']) ?_
  · rw [hself]; exact ⟨rfl, rfl⟩
  · rw [hself]; exact hcurrent'
  · rw [hself, hsubs']; exact fun hp => .inl ⟨hrecorded hp, rfl⟩
  · rw [hself, hsubs']; exact hexecuting

theorem sameClients_recordPreflight (s : Context) (g w : ℕ) (status : Status) :
    SameClients s (s.recordPreflight g w status) := by
  unfold Context.recordPreflight
  dsimp only
  split <;> exact ⟨rfl, rfl, rfl, rfl, rfl⟩

theorem Inv.record (h : Inv s) {status : Status} (hpc : (s.workers w).pc = .preflighted g status) :
    Inv (s.recordPreflight g w status) := by
  obtain ⟨pc, hworkers, hsubs, hbranch⟩ := recordPreflight_fields s g w status
  have hself : (s.recordPreflight g w status).workers w = { s.workers w with pc } := by
    rw [hworkers, update_self]
  have hsub : (s.recordPreflight g w status).submissions g = (s.submissions g).record status := by
    rw [hsubs, update_self]
  have hsame := sameClients_recordPreflight s g w status
  have hpc' : pc.current = some g ∧ pc.recorded = true ∧ (pc.executing = true →
      ((s.submissions g).record status).completedPreflights = (s.submissions g).activeThreads ∧
        ((s.submissions g).record status).preflightFailed = false) := by
    rcases hbranch with ⟨hfull, rfl, -⟩ | ⟨-, rfl, -⟩
    · split
      · exact ⟨rfl, rfl, nofun⟩
      · rename_i hok
        exact ⟨rfl, rfl, fun _ => ⟨hfull, by simpa using hok⟩⟩
    · exact ⟨rfl, rfl, nofun⟩
  have hrecorded : (s.workers w).pc.recorded = false := by rw [hpc]; rfl
  refine h.move_step (w := w) (g := g) hsame
    (fun x hx => by rw [hworkers, update_of_ne hx]) ?_ (by rw [hpc]; rfl) ?_
    (fun g' hg' => by rw [hsubs, update_of_ne hg']) (by rw [hsub]; rfl) (by rw [hsub]; rfl)
    (by rw [hsub]; rfl) (fun _ => .inr ⟨hrecorded, ?_, by rw [hsub]; rfl⟩)
    (fun hr => by rw [hrecorded] at hr; cases hr) ?_
  · rw [hself]; exact ⟨rfl, rfl⟩
  · rw [hself]; exact hpc'.1
  · rw [hself]; exact hpc'.2.1
  · rw [hself, hsub]; exact fun he _ => hpc'.2.2 he

theorem finishWorker_fields (s : Context) (g w : ℕ) :
    SameClients s (s.finishWorker g w) ∧
      (s.finishWorker g w).workers =
        update s.workers w { s.workers w with pc := .waiting } ∧
      (s.finishWorker g w).submissions = update s.submissions g { s.submissions g with
        completedWorkers := (s.submissions g).completedWorkers + 1 } := by
  unfold Context.finishWorker
  dsimp only
  split
  · split <;> exact ⟨⟨rfl, rfl, rfl, rfl, rfl⟩, rfl, rfl⟩
  · exact ⟨⟨rfl, rfl, rfl, rfl, rfl⟩, rfl, rfl⟩

theorem Inv.finish (h : Inv s) (hpc : (s.workers w).pc = .finishing g) :
    Inv (s.finishWorker g w) := by
  obtain ⟨hsame, hworkers, hsubs⟩ := finishWorker_fields s g w
  set t := s.finishWorker g w
  have hcurrent : (s.workers w).pc.current = some g := by rw [hpc]; rfl
  have hwait : WorkerPc.waiting.current = none := rfl
  obtain ⟨hg, hw, hsw⟩ := h.current w g hcurrent
  have hself : t.workers w = { s.workers w with pc := .waiting } := by
    rw [hworkers, update_self]
  have hother : ∀ x, x ≠ w → t.workers x = s.workers x := fun x hx => by
    rw [hworkers, update_of_ne hx]
  have hsub : t.submissions g = { s.submissions g with
      completedWorkers := (s.submissions g).completedWorkers + 1 } := by
    rw [hsubs, update_self]
  have hsubs' : ∀ g', g' ≠ g → t.submissions g' = s.submissions g' :=
    fun g' hg' => by rw [hsubs, update_of_ne hg']
  have hpassed : ∀ g' x, g' ≠ g ∨ x ≠ w → (t.Passed g' x ↔ s.Passed g' x) := by
    intro g' x hne
    by_cases hxw : x = w
    · subst hxw
      have hg' : ¬ g = g' := fun he => hne.elim (fun hn => hn he.symm) fun hn => hn rfl
      simp only [Context.Passed, Context.Pending, hsame.submission, hsame.submitted, hself,
        hcurrent, hwait, ne_eq, Option.some.injEq, hg', not_false_eq_true, reduceCtorEq]
    · exact passed_congr hsame (hother x hxw) g'
  have hpass : t.Passed g w := by
    refine ⟨fun hp => hp.2 ?_, by rw [hself]; exact nofun⟩
    rw [hself, hsame.submitted]
    exact hsw
  have harrived : ∀ g' x, t.Arrived g' x ↔ s.Arrived g' x := by
    intro g' x
    by_cases hne : g' ≠ g ∨ x ≠ w
    · by_cases hxw : x = w
      · subst hxw
        have hg' : ¬ g = g' := fun he => hne.elim (fun hn => hn he.symm) fun hn => hn rfl
        simp only [Context.Arrived, hpassed g' x hne, hself, hcurrent, Option.some.injEq, hg',
          hwait, reduceCtorEq, false_and]
      · exact arrived_congr hsame (hother x hxw) g'
    · simp only [not_or, not_not] at hne
      obtain ⟨rfl, rfl⟩ := hne
      exact iff_of_true (.inl hpass) (.inr ⟨hcurrent, by rw [hpc]; rfl⟩)
  have hcounts : ∀ g', (t.submissions g').activeThreads =
        (s.submissions g').activeThreads ∧
      (t.submissions g').preflight = (s.submissions g').preflight ∧
      (t.submissions g').completedPreflights =
        (s.submissions g').completedPreflights ∧
      (t.submissions g').preflightFailed = (s.submissions g').preflightFailed := by
    intro g'
    by_cases hg' : g' = g
    · subst hg'; rw [hsub]; exact ⟨rfl, rfl, rfl, rfl⟩
    · rw [hsubs' g' hg']; exact ⟨rfl, rfl, rfl, rfl⟩
  have hkept := h.clients_kept hsame
  refine
    { mutex := hkept.mutex
      client := hkept.client
      installed := hkept.installed
      epoch := hkept.epoch
      seen := fun x => by
        rw [hsame.submitted]
        by_cases hxw : x = w
        · subst hxw; rw [hself]; exact h.seen x
        · rw [hother x hxw]; exact h.seen x
      current := fun x g' hx => ?_
      completed := fun g' hg' => ?_
      preflights := fun g' hg' hp => ?_
      executing := fun x g' hx he hp => ?_ }
  · rw [hsame.submission, hsame.submitted, (hcounts g').1]
    by_cases hxw : x = w
    · subst hxw; rw [hself] at hx; cases hx
    · rw [hother x hxw] at hx ⊢; exact h.current x g' hx
  · rw [hsame.submitted] at hg'
    rw [(hcounts g').1]
    by_cases hne : g' = g
    · subst hne
      rw [hsub]
      rw [h.completed g' hg']
      exact (below_gain hw (fun hp => hp.2 hcurrent) hpass fun x hx => hpassed g' x (.inr hx)).symm
    · rw [hsubs' g' hne, below_congr fun x _ => hpassed g' x (.inl hne)]
      exact h.completed g' hg'
  · rw [(hcounts g').2.1] at hp
    rw [(hcounts g').1, (hcounts g').2.2.1, below_congr fun x _ => harrived g' x]
    exact h.preflights g' (hsame.submitted ▸ hg') hp
  · rw [(hcounts g').2.1] at hp
    rw [(hcounts g').1, (hcounts g').2.2.1, (hcounts g').2.2.2]
    by_cases hxw : x = w
    · subst hxw; rw [hself] at hx; cases hx
    · rw [hother x hxw] at hx he; exact h.executing x g' hx he hp

theorem Inv.current_none (h : Inv s) (hnone : s.submission = none) (w : ℕ) :
    (s.workers w).pc.current = none := by
  by_contra hne
  obtain ⟨g, hg⟩ := Option.ne_none_iff_exists'.1 hne
  have := (h.current w g hg).1
  rw [hnone] at this
  cases this

variable {c : ℕ}

theorem Inv.install (h : Inv s) {request : Request} (hpc : s.clients c = .locked request) :
    Inv (s.install c request) := by
  have hnone : s.submission = none :=
    h.none_of_holds (c := c) (by rw [hpc]; rfl) (by rw [hpc]; rfl)
  have hcurrent := h.current_none hnone
  set t := s.install c request with ht
  have hself : t.clients c = .notifying s.submitted := moveClient_self
  have hother : ∀ c', c' ≠ c → t.clients c' = s.clients c' := fun c' hc' =>
    moveClient_of_ne hc'
  have hsub : t.submissions s.submitted =
      ⟨request.taskCount, request.activeThreads, request.preflight, 0, false, 0⟩ :=
    update_self s.submitted _ s.submissions
  have hsubs : ∀ g, g ≠ s.submitted → t.submissions g = s.submissions g := fun g hg =>
    update_of_ne hg _ s.submissions
  have hworkers : t.workers = s.workers := rfl
  have hsubmission : t.submission = some s.submitted := rfl
  have hsubmitted : t.submitted = s.submitted + 1 := rfl
  -- the new submission is pending for every worker
  have hpending : ∀ x, t.Pending s.submitted x := fun x =>
    ⟨rfl, by have := (h.seen x).1; rw [hworkers, hsubmitted]; omega⟩
  have hpassed : ∀ g, g ≠ s.submitted → ∀ x, (t.Passed g x ↔ s.Passed g x) := by
    intro g hg x
    simp only [Context.Passed, Context.Pending, hsubmission, hnone, hworkers, Option.some.injEq,
      hg.symm, false_and, reduceCtorEq]
  have harrived : ∀ g, g ≠ s.submitted → ∀ x, (t.Arrived g x ↔ s.Arrived g x) := by
    intro g hg x
    simp only [Context.Arrived, hpassed g hg x, hworkers]
  have hnotPassed : ∀ x, ¬ t.Passed s.submitted x := fun x hp => hp.1 (hpending x)
  have hnotArrived : ∀ x, ¬ t.Arrived s.submitted x := by
    rintro x (hp | ⟨hp, -⟩)
    · exact hnotPassed x hp
    · rw [hworkers, hcurrent x] at hp; cases hp
  exact
    { mutex := fun c' hc' => by
        by_cases hcc : c' = c
        · subst hcc; exact h.mutex c' (by rw [hpc]; rfl)
        · rw [hother c' hcc] at hc'; exact h.mutex c' hc'
      client := fun c' g hc' => by
        by_cases hcc : c' = c
        · subst hcc; rw [hself] at hc'; exact hc'
        · rw [hother c' hcc] at hc'
          have := h.client c' g hc'
          rw [hnone] at this; cases this
      installed := fun g hg => by
        obtain rfl := Option.some.inj hg
        exact ⟨rfl, c, by rw [hself]; rfl⟩
      epoch := by
        have := h.epoch
        have ht' : t.epoch = (s.epoch + 1) % 2 ^ 64 := rfl
        rw [ht', hsubmitted, this, Nat.mod_add_mod]
      seen := fun x => ⟨(h.seen x).1.trans (Nat.le_succ _), (h.seen x).2⟩
      current := fun x g hx => by
        rw [hworkers, hcurrent x] at hx; cases hx
      completed := fun g hg => by
        by_cases hgn : g = s.submitted
        · subst hgn; rw [hsub, below_eq_zero fun x _ => hnotPassed x]
        · rw [hsubs g hgn, below_congr fun x _ => hpassed g hgn x]
          exact h.completed g (by omega)
      preflights := fun g hg hp => by
        by_cases hgn : g = s.submitted
        · subst hgn; rw [hsub, below_eq_zero fun x _ => hnotArrived x]
        · rw [hsubs g hgn] at hp ⊢
          rw [below_congr fun x _ => harrived g hgn x]
          exact h.preflights g (by omega) hp
      executing := fun x g hx => by
        rw [hworkers, hcurrent x] at hx; cases hx }

theorem Inv.complete (h : Inv s) (hpc : s.clients c = .waiting g)
    (hfull : (s.submissions g).completedWorkers = (s.submissions g).activeThreads) :
    Inv ({ s with submission := none }.moveClient c (.returning g)) := by
  have hsubmitting : (s.clients c).submitting = some g := by rw [hpc]; rfl
  have hg := h.client c g hsubmitting
  have hall : ∀ x < (s.submissions g).activeThreads, s.Passed g x := by
    rw [h.completed g (h.lt_submitted hg)] at hfull
    exact below_eq_iff.1 hfull
  have hcurrent : ∀ x, (s.workers x).pc.current = none := by
    intro x
    by_contra hne
    obtain ⟨g', hg'⟩ := Option.ne_none_iff_exists'.1 hne
    obtain ⟨h₁, h₂, -⟩ := h.current x g' hg'
    obtain rfl := Option.some.inj (hg.symm.trans h₁)
    exact (hall x h₂).2 hg'
  set t := ({ s with submission := none }.moveClient c (.returning g)) with ht
  have hself : t.clients c = .returning g := moveClient_self
  have hother : ∀ c', c' ≠ c → t.clients c' = s.clients c' := fun c' hc' =>
    moveClient_of_ne hc'
  have hnone : t.submission = none := rfl
  have hworkers : t.workers = s.workers := rfl
  have hpassed : ∀ g' x, t.Passed g' x := by
    refine fun g' x => ⟨fun hp => ?_, ?_⟩
    · have := hp.1
      rw [hnone] at this; cases this
    · rw [hworkers, hcurrent x]; exact nofun
  have hpassed' : ∀ g', ∀ x < (s.submissions g').activeThreads, (t.Passed g' x ↔ s.Passed g' x) := by
    intro g' x hx
    refine iff_of_true (hpassed g' x) ?_
    by_cases hne : g' = g
    · subst hne; exact hall x hx
    · refine ⟨fun hp => hne (Option.some.inj (hp.1.symm.trans hg)), ?_⟩
      rw [hcurrent x]; exact nofun
  exact
    { mutex := fun c' hc' => by
        by_cases hcc : c' = c
        · subst hcc; exact h.mutex c' (holds_of_submitting hsubmitting)
        · rw [hother c' hcc] at hc'; exact h.mutex c' hc'
      client := fun c' g' hc' => by
        by_cases hcc : c' = c
        · subst hcc; rw [hself] at hc'; cases hc'
        · rw [hother c' hcc] at hc'
          have h₁ := h.mutex c' (holds_of_submitting hc')
          have h₂ := h.mutex c (holds_of_submitting hsubmitting)
          exact absurd (Option.some.inj (h₁.symm.trans h₂)) hcc
      installed := fun g' hg' => by rw [hnone] at hg'; cases hg'
      epoch := h.epoch
      seen := h.seen
      current := fun x g' hx => by
        rw [hworkers, hcurrent x] at hx; cases hx
      completed := fun g' hg' => (h.completed g' hg').trans
        (below_congr fun x hx => (hpassed' g' x hx).symm)
      preflights := fun g' hg' hp => (h.preflights g' hg' hp).trans
        (below_congr fun x hx => iff_of_true (.inl ((hpassed' g' x hx).1 (hpassed g' x)))
          (.inl (hpassed g' x)))
      executing := fun x g' hx => by
        rw [hworkers, hcurrent x] at hx; cases hx }

/-- The holders of the mutex behind a step of the one outside thread that may hold it. -/
theorem Inv.mutex_step (h : Inv s) (hclients : t.clients = s.clients)
    (hmutex : t.submissionMutex = s.submissionMutex ∧ (pc.holds = true → (s.clients c).holds = true) ∨
      s.submissionMutex = none ∧ t.submissionMutex = some c ∨
      (s.clients c).holds = true ∧ pc.holds = false) :
    ∀ c', ((t.moveClient c pc).clients c').holds = true →
      (t.moveClient c pc).submissionMutex = some c' := by
  intro c' hc'
  have hm : (t.moveClient c pc).submissionMutex = t.submissionMutex := rfl
  rw [hm]
  by_cases hcc : c' = c
  · subst hcc
    rw [moveClient_self] at hc'
    rcases hmutex with ⟨h₁, h₂⟩ | ⟨-, h₂⟩ | ⟨-, h₂⟩
    · rw [h₁]; exact h.mutex c' (h₂ hc')
    · exact h₂
    · rw [h₂] at hc'; cases hc'
  · rw [moveClient_of_ne hcc, hclients] at hc'
    have hown := h.mutex c' hc'
    rcases hmutex with ⟨h₁, -⟩ | ⟨h₁, -⟩ | ⟨h₁, -⟩
    · rw [h₁]; exact hown
    · rw [h₁] at hown; cases hown
    · exact absurd (Option.some.inj (hown.symm.trans (h.mutex c h₁))) hcc

theorem Inv.moveClient (h : Inv s) (hsame : SameWork s t) (hclients : t.clients = s.clients)
    (hsubmitting : pc.submitting = (s.clients c).submitting)
    (hmutex : t.submissionMutex = s.submissionMutex ∧ (pc.holds = true → (s.clients c).holds = true) ∨
      s.submissionMutex = none ∧ t.submissionMutex = some c ∨
      (s.clients c).holds = true ∧ pc.holds = false) : Inv (t.moveClient c pc) := by
  refine h.client_step ⟨hsame.submission, hsame.epoch, hsame.submitted, hsame.workers,
    hsame.submissions⟩ (h.mutex_step hclients hmutex) fun c' => ?_
  by_cases hcc : c' = c
  · subst hcc; rw [moveClient_self, hsubmitting]
  · rw [moveClient_of_ne hcc, hclients]

theorem Inv.unseen (h : Inv s) (hepoch : s.epoch ≠ (s.workers w).observedEpoch) :
    (s.workers w).seen ≠ s.submitted := by
  intro he
  rw [h.epoch, (h.seen w).2, he] at hepoch
  exact hepoch rfl

variable {es : List Event}

theorem inv_step (h : Inv s) (hs : Step s es s') : Inv s' := by
  have sameWork : SameWork s s := ⟨rfl, rfl, rfl, rfl, rfl⟩
  have same : SameClients s s := ⟨rfl, rfl, rfl, rfl, rfl⟩
  cases hs with
  | sleep | sleepBarrier | sleepClient | wake =>
    exact h.client_step ⟨rfl, rfl, rfl, rfl, rfl⟩ h.mutex fun _ => rfl
  | reject => exact h
  | @exit w pc stopping epoch =>
    have hnone : (s.workers w).pc.current = none := by rw [pc]; rfl
    have hself : (s.moveWorker w .exited).workers w = { s.workers w with pc := .exited } :=
      Context.moveWorker_self
    refine h.wait_step (w := w) ⟨rfl, rfl, rfl, rfl, rfl⟩ rfl
      (fun x hx => Context.moveWorker_of_ne hx) hnone ?_ ?_ ?_ fun g _ => ?_
    · rw [hself]; exact h.seen w
    · rw [hself]; exact nofun
    · rw [hself]; rfl
    · simp only [Context.Passed, Context.Pending, hself, hnone]
      rfl
  | @join w g pc epoch installed active =>
    have hnone : (s.workers w).pc.current = none := by rw [pc]; rfl
    have hself := setWorker_self (s := s) (w := w) ⟨.joined g, s.epoch, s.submitted⟩
    refine h.wait_step (w := w) ⟨rfl, rfl, rfl, rfl, rfl⟩ rfl
      (fun x hx => Context.setWorker_of_ne _ hx) hnone ?_ ?_ ?_ fun g' _ => ?_
    · rw [hself]; exact ⟨le_rfl, h.epoch⟩
    · rw [hself]
      intro g' hg'
      obtain rfl := Option.some.inj hg'
      exact ⟨installed, active, rfl⟩
    · rw [hself]; rfl
    -- of `g` it was waiting and is now current: it has passed it neither before nor after
    · by_cases hne : g' = g
      · subst hne
        refine iff_of_false (fun hp => hp.2 (by rw [hself]; rfl)) fun hp => hp.1 ⟨installed, ?_⟩
        exact h.unseen epoch
      · refine iff_of_true ⟨fun hp => hne ?_, ?_⟩ ⟨fun hp => hne ?_, by rw [hnone]; exact nofun⟩
        · exact Option.some.inj (hp.1.symm.trans installed)
        · rw [hself]; exact fun he => hne (Option.some.inj he).symm
        · exact Option.some.inj (hp.1.symm.trans installed)
  | @pass w es pc epoch inactive events pc' left =>
    have hnone : (s.workers w).pc.current = none := by rw [pc]; rfl
    have hself := setWorker_self (s := s) (w := w) ⟨pc', s.epoch, s.submitted⟩
    have hpc' : pc'.current = none ∧ pc'.recorded = false := by
      rcases left with rfl | ⟨rfl, -⟩ <;> exact ⟨rfl, rfl⟩
    refine h.wait_step (w := w) ⟨rfl, rfl, rfl, rfl, rfl⟩ rfl
      (fun x hx => Context.setWorker_of_ne _ hx) hnone ?_ ?_ ?_ fun g hw => ?_
    · rw [hself]; exact ⟨le_rfl, h.epoch⟩
    · rw [hself, hpc'.1]; exact nofun
    · rw [hself]; exact hpc'.2
    · have hg : s.submission ≠ some g := fun hg => absurd hw (Nat.not_lt.2 (inactive g hg))
      refine iff_of_true ⟨fun hp => hg hp.1, ?_⟩ ⟨fun hp => hg hp.1, by rw [hnone]; exact nofun⟩
      rw [hself, hpc'.1]
      exact nofun
  | @startPreflight w g pc preflight =>
    exact h.moveWorker (.calling g .preflight false) same rfl rfl (current_of pc) rfl
      (fun _ => by rw [pc]; rfl) nofun
  | @startLoop w g pc preflight =>
    refine h.moveWorker (.looping g w) same rfl rfl (current_of pc) rfl (fun hp => ?_) fun _ hp => ?_
    all_goals rw [preflight] at hp; cases hp
  | record pc => exact h.record pc
  | @passBarrier w g pc full =>
    unfold Context.execute
    split
    · exact h.moveWorker (.finishing g) same rfl rfl (current_of pc) rfl (fun _ => by rw [pc]; rfl)
        nofun
    · rename_i hok
      exact h.moveWorker (.looping g w) same rfl rfl (current_of pc) rfl (fun _ => by rw [pc]; rfl)
        fun _ _ => ⟨full, by simpa using hok⟩
  | @startTask w g i pc more =>
    have hcurrent := current_of pc
    exact h.moveWorker (.calling g (.task i) false) same rfl rfl hcurrent rfl
      (fun _ => by rw [pc]; rfl) fun _ => h.executing w g hcurrent (by rw [pc]; rfl)
  | @endLoop w g i pc done =>
    exact h.moveWorker (.finishing g) same rfl rfl (current_of pc) rfl (fun _ => by rw [pc]; rfl)
      nofun
  | finishWorker pc => exact h.finish pc
  | @preflightDone w g status pc =>
    exact h.moveWorker (.preflighted g status) same rfl rfl (current_of pc) rfl
      (fun _ => by rw [pc]; rfl) nofun
  | @taskDone w g i pc =>
    have hcurrent := current_of pc
    exact h.moveWorker (.looping g _) same rfl rfl hcurrent rfl (fun _ => by rw [pc]; rfl)
      fun _ => h.executing w g hcurrent (by rw [pc]; rfl)
  | @taskFailed w g i status pc failed =>
    exact h.moveWorker (t := s.setResult w ⟨status, i⟩) (.finishing g) ⟨rfl, rfl, rfl, rfl, rfl⟩ rfl
      rfl (current_of pc) rfl (fun _ => by rw [pc]; rfl) nofun
  | @nestedShutdown w g callback pc =>
    have hcurrent := current_of pc
    refine h.moveWorker (t := { s with stopping := true }) (.calling g callback true)
      ⟨rfl, rfl, rfl, rfl, rfl⟩ rfl rfl hcurrent rfl ?_ fun he => ?_
    · rw [pc]; cases callback <;> exact fun _ => rfl
    · refine h.executing w g hcurrent ?_
      rw [pc]; cases callback <;> exact he
  | @nestedNotify w g callback pc =>
    have hcurrent := current_of pc
    refine h.moveWorker (t := s.notifyWork) (.calling g callback false)
      ⟨rfl, rfl, rfl, rfl, rfl⟩ rfl rfl hcurrent rfl ?_ fun he => ?_
    · rw [pc]; cases callback <;> exact fun _ => rfl
    · refine h.executing w g hcurrent ?_
      rw [pc]; cases callback <;> exact he
  | enter idle entered =>
    refine h.moveClient sameWork rfl ?_ (.inl ⟨rfl, ?_⟩)
    all_goals rcases entered with rfl | ⟨request, rfl, -⟩
    all_goals first
      | (rw [idle]; rfl)
      | exact nofun
  | lock free locked =>
    refine h.moveClient ⟨rfl, rfl, rfl, rfl, rfl⟩ rfl ?_ (.inr (.inl ⟨free, rfl⟩))
    rcases locked with ⟨pc, rfl⟩ | ⟨request, pc, rfl⟩ <;> rw [pc] <;> rfl
  | refuse pc stopping | giveBack pc =>
    exact h.moveClient ⟨rfl, rfl, rfl, rfl, rfl⟩ rfl (by rw [pc]; rfl)
      (.inr (.inr ⟨by rw [pc]; rfl, rfl⟩))
  | accept pc stopping => exact h.install pc
  | notify pc | stop pc | notifyStop pc =>
    exact h.moveClient ⟨rfl, rfl, rfl, rfl, rfl⟩ rfl (by rw [pc]; rfl)
      (.inl ⟨rfl, fun _ => by rw [pc]; rfl⟩)
  | complete pc full => exact h.complete pc full
  | @leave c empty pc =>
    have hholds : (s.clients c).holds = true ∧ none = (s.clients c).submitting := by
      rcases pc with pc | pc <;> rw [pc] <;> exact ⟨rfl, rfl⟩
    exact h.moveClient ⟨rfl, rfl, rfl, rfl, rfl⟩ rfl hholds.2 (.inr (.inr ⟨hholds.1, rfl⟩))

/-! ### What no step changes -/

/-- The arguments of a submission. -/
def Submission.arguments (submission : Submission) : ℕ × ℕ × Bool :=
  (submission.taskCount, submission.activeThreads, submission.preflight)

/-- What a step keeps: the number of workers, a stop, and the arguments of every submission. -/
structure Keeps (s s' : Context) : Prop where
  workerCount : s'.workerCount = s.workerCount
  stopping : s.stopping = true → s'.stopping = true
  submitted : s.submitted ≤ s'.submitted
  arguments : ∀ g < s.submitted, (s'.submissions g).arguments = (s.submissions g).arguments

theorem step_keeps (hs : Step s es s') : Keeps s s' := by
  have of_eq : ∀ {t : Context}, t.workerCount = s.workerCount →
      (s.stopping = true → t.stopping = true) → t.submitted = s.submitted →
      t.submissions = s.submissions → Keeps s t := fun h₁ h₂ h₃ h₄ =>
    ⟨h₁, h₂, h₃.symm.le, fun g _ => by rw [h₄]⟩
  have of_update : ∀ {t : Context} {g : ℕ} {submission : Submission},
      t.workerCount = s.workerCount → t.stopping = s.stopping → t.submitted = s.submitted →
      t.submissions = update s.submissions g submission →
      submission.arguments = (s.submissions g).arguments → Keeps s t := by
    intro t g submission h₁ h₂ h₃ h₄ h₅
    refine ⟨h₁, fun h => h₂.trans h, h₃.symm.le, fun g' _ => ?_⟩
    rw [h₄]
    by_cases hg : g' = g
    · rw [hg, update_self, h₅]
    · rw [update_of_ne hg]
  cases hs with
  | @record w g status pc =>
    obtain ⟨pc', -, hsubs, -⟩ := recordPreflight_fields s g w status
    refine of_update ?_ ?_ ?_ hsubs rfl
    all_goals
      unfold Context.recordPreflight
      dsimp only
      split <;> rfl
  | @finishWorker w g pc =>
    refine of_update ?_ ?_ ?_ (finishWorker_fields s g w).2.2 rfl
    all_goals
      unfold Context.finishWorker
      dsimp only
      split
      · split <;> rfl
      · rfl
  | accept pc stopping =>
    exact ⟨rfl, id, Nat.le_succ _, fun g hg => congrArg Submission.arguments
      (update_of_ne (Nat.ne_of_lt hg) _ s.submissions)⟩
  | nestedShutdown | stop => exact of_eq rfl (fun _ => rfl) rfl rfl
  | _ => exact of_eq rfl id rfl rfl

/-- What a step makes of the outside thread that it moves. -/
inductive ClientMove (s : Context) (c : ℕ) (es : List Event) (s' : Context) :
    ClientPc → ClientPc → Prop where
  | enter {pc : ClientPc} (entered : pc = .lockingShutdown ∨
      ∃ request, pc = .locking request ∧ request.check s.workerCount false = none) :
      ClientMove s c es s' .idle pc
  | lock {request : Request} : ClientMove s c es s' (.locking request) (.locked request)
  | lockShutdown : ClientMove s c es s' .lockingShutdown .shuttingDown
  | refuse {request : Request} : ClientMove s c es s' (.locked request) .idle
  | accept {request : Request} : ClientMove s c es s' (.locked request) (.notifying s.submitted)
  | notify {g : ℕ} (awake : ∀ w, s'.workAvailable w = false) :
      ClientMove s c es s' (.notifying g) (.waiting g)
  | complete {g : ℕ} : ClientMove s c es s' (.waiting g) (.returning g)
  | giveBack {g : ℕ} {status : Status} (shown : .returned g status ∈ es) :
      ClientMove s c es s' (.returning g) .idle
  | stop : ClientMove s c es s' .shuttingDown .notifyingShutdown
  | notifyStop : ClientMove s c es s' .notifyingShutdown .joining
  | leave {pc : ClientPc} (left : pc = .shuttingDown ∨ pc = .joining) :
      ClientMove s c es s' pc .idle

theorem client_move (hs : Step s es s') (c : ℕ) :
    s'.clients c = s.clients c ∨ ClientMove s c es s' (s.clients c) (s'.clients c) := by
  have moved : ∀ {t : Context} {c' : ℕ} {pc pc' : ClientPc}, s' = t.moveClient c' pc' →
      t.clients = s.clients → s.clients c' = pc → ClientMove s c' es s' pc pc' →
      s'.clients c = s.clients c ∨ ClientMove s c es s' (s.clients c) (s'.clients c) := by
    rintro t c' _ pc' hmoved hclients rfl hmove
    by_cases hcc : c = c'
    · subst hcc
      rw [hmoved, moveClient_self, ← hmoved]
      exact .inr hmove
    · rw [hmoved, moveClient_of_ne hcc, hclients]
      exact .inl rfl
  cases hs with
  | enter idle entered => exact moved rfl rfl idle (.enter entered)
  | lock free locked =>
    rcases locked with ⟨pc, rfl⟩ | ⟨request, pc, rfl⟩
    · exact moved rfl rfl pc .lockShutdown
    · exact moved rfl rfl pc .lock
  | refuse pc => exact moved rfl rfl pc .refuse
  | @accept c' request pc =>
    obtain ⟨t, hinstall, hclients⟩ : ∃ t : Context,
        s.install c' request = t.moveClient c' (.notifying s.submitted) ∧ t.clients = s.clients :=
      ⟨_, rfl, rfl⟩
    exact moved hinstall hclients pc .accept
  | notify pc => exact moved rfl rfl pc (.notify fun _ => rfl)
  | complete pc => exact moved rfl rfl pc .complete
  | giveBack pc => exact moved rfl rfl pc (.giveBack (List.mem_singleton.2 rfl))
  | stop pc => exact moved rfl rfl pc .stop
  | notifyStop pc => exact moved rfl rfl pc .notifyStop
  | leave pc => exact moved rfl rfl rfl (.leave pc)
  | @record w g' status pc =>
      exact .inl (congrFun (sameClients_recordPreflight s g' w status).clients c)
  | @finishWorker w g' pc => exact .inl (congrFun (finishWorker_fields s g' w).1.clients c)
  | _ => exact .inl rfl

/-- The submission behind a step is that before, none, or the one that the step accepted. -/
theorem submission_step (hs : Step s es s') :
    s'.submitted = s.submitted ∧ (s'.submission = s.submission ∨ s'.submission = none) ∨
      ∃ c request, s.clients c = .locked request ∧ s.stopping = false ∧
        s' = s.install c request ∧ es = [.accepted s.submitted c request] := by
  cases hs with
  | accept pc stopping => exact .inr ⟨_, _, pc, stopping, rfl, rfl⟩
  | complete => exact .inl ⟨rfl, .inr rfl⟩
  | @record w g' status pc =>
    have hsame := sameClients_recordPreflight s g' w status
    exact .inl ⟨hsame.submitted, .inl hsame.submission⟩
  | @finishWorker w g' pc =>
    have hsame := (finishWorker_fields s g' w).1
    exact .inl ⟨hsame.submitted, .inl hsame.submission⟩
  | _ => exact .inl ⟨rfl, .inl rfl⟩

/-- Every request that waits has passed its check, and every submission has its bounds. -/
structure Checked (s : Context) : Prop where
  requests : ∀ c r, s.clients c = .locking r ∨ s.clients c = .locked r →
    r.check s.workerCount false = none
  submissions : ∀ g < s.submitted, 0 < (s.submissions g).activeThreads ∧
    (s.submissions g).activeThreads ≤ s.workerCount ∧
    (s.submissions g).taskCount + (s.submissions g).activeThreads ≤ sizeMax + 1

theorem bounds_of_check {r : Request} {n : ℕ} (h : r.check n false = none) :
    0 < r.activeThreads ∧ r.activeThreads ≤ n := by
  unfold Request.check at h
  split at h
  · cases h
  · omega

theorem checked_step (h : Checked s) (hs : Step s es s') : Checked s' := by
  have hkeeps := step_keeps hs
  refine ⟨fun c r hr => ?_, fun g hg => ?_⟩
  · rw [hkeeps.workerCount]
    rcases client_move hs c with hsame | hmove
    · exact h.requests c r (hsame ▸ hr)
    · generalize hpc : s.clients c = pc, s'.clients c = pc' at hmove hr
      cases hmove with
      | enter entered =>
        rcases entered with rfl | ⟨request, rfl, hcheck⟩ <;> rcases hr with hr | hr <;> cases hr
        exact hcheck
      | lock =>
        rcases hr with hr | hr <;> cases hr
        exact h.requests c _ (.inl hpc)
      | _ => rcases hr with hr | hr <;> cases hr
  · rw [hkeeps.workerCount]
    rcases submission_step hs with ⟨hsubmitted, -⟩ | ⟨c, request, pc, -, rfl, -⟩
    · rw [hsubmitted] at hg
      have harg := hkeeps.arguments g hg
      simp only [Submission.arguments, Prod.mk.injEq] at harg
      rw [harg.1, harg.2.1]
      exact h.submissions g hg
    · by_cases hg' : g = s.submitted
      · subst hg'
        rw [show (s.install c request).submissions s.submitted = _ from
          update_self s.submitted _ s.submissions]
        have hchecked := bounds_of_check (h.requests c request (.inr pc))
        exact ⟨hchecked.1, hchecked.2, request.noWrap⟩
      · rw [show (s.install c request).submissions g = _ from
          update_of_ne hg' _ s.submissions]
        refine h.submissions g ?_
        have : (s.install c request).submitted = s.submitted + 1 := rfl
        omega

end Matcore.Parallel
