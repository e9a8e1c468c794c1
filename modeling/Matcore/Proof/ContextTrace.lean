import Matcore.Proof.ContextInv

/-!
# What a run of the context shows

Every step keeps `TraceInv`, what the log tells of the workers.
-/

namespace Matcore.Parallel

open List (mem_singleton mem_map flatMap_eq_nil_iff mem_append_left append_nil mem_append)
open Function (update_of_ne update_self)
open Count
open Context (moveWorker_self setWorker_self)

/-- The tasks of a submission that a worker has begun. -/
def tasksOf (es : List Event) (g w : ℕ) : List ℕ :=
  es.flatMap fun
    | .task g' i w' => if g' = g ∧ w' = w then [i] else []
    | _ => []

/-- The statuses of the preflights of a submission that a worker has run. -/
def preflightsOf (es : List Event) (g w : ℕ) : List Status :=
  es.flatMap fun
    | .preflightDone g' w' status => if g' = g ∧ w' = w then [status] else []
    | _ => []

@[simp] theorem tasksOf_append (es es' : List Event) (g w : ℕ) :
    tasksOf (es ++ es') g w = tasksOf es g w ++ tasksOf es' g w :=
  List.flatMap_append

@[simp] theorem preflightsOf_append (es es' : List Event) (g w : ℕ) :
    preflightsOf (es ++ es') g w = preflightsOf es g w ++ preflightsOf es' g w :=
  List.flatMap_append

theorem count_tasksOf (es : List Event) (g i w : ℕ) :
    es.count (.task g i w) = (tasksOf es g w).count i := by
  induction es with
  | nil => rfl
  | cons e es ih =>
    rw [List.count_cons, ih, show tasksOf (e :: es) g w = tasksOf [e] g w ++ tasksOf es g w from
      tasksOf_append [e] es g w, List.count_append, Nat.add_comm]
    congr 1
    cases e with
    | task g' i' w' =>
      by_cases hgw : g' = g ∧ w' = w
      · obtain ⟨rfl, rfl⟩ := hgw
        simp [tasksOf, List.count_singleton]
      · have hne : ¬ (g' = g ∧ i' = i ∧ w' = w) := fun h => hgw ⟨h.1, h.2.2⟩
        simp [tasksOf, hgw, hne]
    | _ => simp [tasksOf]

variable {status : Status}

theorem mem_preflightsOf {es : List Event} {g w : ℕ} :
    status ∈ preflightsOf es g w ↔ .preflightDone g w status ∈ es := by
  unfold preflightsOf
  rw [List.mem_flatMap]
  constructor
  · rintro ⟨e, he, hs⟩
    cases e with
    | preflightDone g' w' status' =>
      dsimp only at hs
      split at hs
      · rename_i hgw
        obtain ⟨rfl, rfl⟩ := hgw
        rwa [mem_singleton.1 hs]
      · cases hs
    | _ => cases hs
  · exact fun h => ⟨_, h, by simp⟩

/-- Every `a`-th index from `w` on, `k` of them. -/
def stride (w a k : ℕ) : List ℕ := (List.range k).map fun j => w + j * a

theorem stride_succ (w a k : ℕ) : stride w a (k + 1) = stride w a k ++ [w + k * a] := by
  simp [stride, List.range_succ]

variable {a : ℕ}

theorem nodup_stride (ha : 0 < a) (w k : ℕ) : (stride w a k).Nodup :=
  List.Nodup.map (fun i j hij => Nat.eq_of_mul_eq_mul_right ha (by simpa using hij))
    List.nodup_range

variable {i : ℕ}

theorem mod_of_mem_stride {w k : ℕ} (hw : w < a) (hi : i ∈ stride w a k) : i % a = w := by
  obtain ⟨j, -, rfl⟩ := mem_map.1 hi
  rw [Nat.add_mul_mod_self_right, Nat.mod_eq_of_lt hw]

/-- A stride that has reached `n` holds every index below `n` of its class. -/
theorem mem_stride {w k n : ℕ} (hn : n ≤ w + k * a) (hi : i < n) (him : i % a = w) :
    i ∈ stride w a k := by
  have hdiv := Nat.mod_add_div i a
  refine mem_map.2 ⟨i / a, List.mem_range.2 ?_, ?_⟩
  · by_contra hk
    have := Nat.mul_le_mul_right a (Nat.le_of_not_lt hk)
    rw [Nat.mul_comm (i / a)] at this
    omega
  · rw [← him, Nat.mul_comm]; exact hdiv

/-- A callback of the submission has failed. -/
def Failed (es : List Event) (g : ℕ) : Prop :=
  (∃ w status, .preflightDone g w status ∈ es ∧ status ≠ .success) ∨
    ∃ i w status, .taskDone g i w status ∈ es ∧ status ≠ .success

/-- The next task of a worker, until it has left the task loop. -/
def WorkerPc.position (a w : ℕ) : WorkerPc → Option ℕ
  | joined _ | calling _ .preflight _ | preflighted _ _ | barrier _ => some w
  | looping _ i => some i
  | calling _ (.task i) _ => some (i + a)
  | finishing _ | waiting | exited => none

/-- The next task of a worker in a submission. -/
def Context.position (s : Context) (g w : ℕ) : Option ℕ :=
  if s.Pending g w then some w
  else if (s.workers w).pc.current = some g then
    (s.workers w).pc.position (s.submissions g).activeThreads w
  else none

/-- The status of a preflight that is not recorded yet. -/
def Context.unrecorded (s : Context) (g w : ℕ) : List Status :=
  match (s.workers w).pc with
  | .preflighted g' status => if g' = g then [status] else []
  | _ => []

/-- A worker has begun the tasks of its class in order, up to its next one. -/
def TasksInv (es : List Event) (s : Context) (g w : ℕ) : Prop :=
  ∃ k, tasksOf es g w = stride w (s.submissions g).activeThreads k ∧
    (∀ j < k, w + j * (s.submissions g).activeThreads < (s.submissions g).taskCount) ∧
    (∀ p, s.position g w = some p → p = w + k * (s.submissions g).activeThreads) ∧
    (s.position g w = none →
      (s.submissions g).taskCount ≤ w + k * (s.submissions g).activeThreads ∨ Failed es g)

/-- A worker has run its preflight once if it has recorded one, and a failure is kept. -/
def PreflightInv (es : List Event) (s : Context) (g w : ℕ) : Prop :=
  s.Arrived g w ∧ (∃ status, preflightsOf es g w = [status] ∧
      (status ≠ .success → (s.submissions g).preflightFailed = true)) ∨
    ¬ s.Arrived g w ∧ preflightsOf es g w = s.unrecorded g w

/-- A worker takes every `active_threads`-th task from its own index on, and records one preflight
before. -/
structure TraceInv (es : List Event) (s : Context) : Prop where
  returning : ∀ c g, s.clients c = .returning g → g < s.submitted
  preflighted : ∀ w g status, (s.workers w).pc = .preflighted g status →
    .preflightDone g w status ∈ es
  accepted : ∀ g c r, .accepted g c r ∈ es → g < s.submitted ∧
    (s.submissions g).taskCount = r.taskCount ∧
    (s.submissions g).activeThreads = r.activeThreads ∧
    (s.submissions g).preflight = r.preflight
  returned : ∀ g status, .returned g status ∈ es → g < s.submitted ∧ s.submission ≠ some g
  stop : .stop ∈ es → s.stopping = true
  outside : ∀ g w, s.submitted ≤ g ∨ (s.submissions g).activeThreads ≤ w →
    tasksOf es g w = [] ∧ preflightsOf es g w = []
  tasks : ∀ g < s.submitted, ∀ w < (s.submissions g).activeThreads, TasksInv es s g w
  preflights : ∀ g < s.submitted, (s.submissions g).preflight = true →
    ∀ w < (s.submissions g).activeThreads, PreflightInv es s g w
  failed : ∀ g, (s.submissions g).preflightFailed = true → Failed es g

variable {s s' : Context} {es : List Event} {g w x : ℕ}

/-- A step leaves the share of a worker in a submission alone. -/
structure SameShare (s s' : Context) (g w : ℕ) : Prop where
  position : s'.position g w = s.position g w
  arrived : s'.Arrived g w ↔ s.Arrived g w
  unrecorded : s'.unrecorded g w = s.unrecorded g w

theorem position_congr (hpending : s'.Pending g w ↔ s.Pending g w)
    (hpc : (s'.workers w).pc = (s.workers w).pc)
    (hactive : (s'.submissions g).activeThreads = (s.submissions g).activeThreads) :
    s'.position g w = s.position g w := by
  unfold Context.position
  rw [hpc, hactive]
  exact if_congr hpending rfl rfl

theorem share_client (h : SameWork s s') (g w : ℕ) : SameShare s s' g w := by
  obtain ⟨h₁, -, h₃, h₄, h₅⟩ := h
  refine ⟨position_congr ?_ (by rw [h₄]) (by rw [h₅]), ?_, ?_⟩
  all_goals simp only [Context.Arrived, Context.Passed, Context.Pending, Context.unrecorded, h₁, h₃,
    h₄]

theorem share_other (h : SameClients s s') (hx : s'.workers x = s.workers x)
    (hactive : (s'.submissions g).activeThreads = (s.submissions g).activeThreads) :
    SameShare s s' g x := by
  refine ⟨position_congr ?_ (by rw [hx]) hactive, arrived_congr h hx g, ?_⟩
  · simp only [Context.Pending, h.submission, h.submitted, hx]
  · simp only [Context.unrecorded, hx]

theorem unrecorded_of_current (h : (s.workers w).pc.current ≠ some g) : s.unrecorded g w = [] := by
  unfold Context.unrecorded
  split
  · rename_i g' status hpc
    rw [hpc] at h
    exact if_neg fun hg => h (congrArg some hg)
  · rfl

/-- The share of a worker that moves, in a submission that it has nothing to do with. -/
theorem share_apart (h : SameClients s s')
    (hseen : (s'.workers w).seen = (s.workers w).seen ∨ s.submission ≠ some g)
    (hcurrent : (s.workers w).pc.current ≠ some g) (hcurrent' : (s'.workers w).pc.current ≠ some g) :
    SameShare s s' g w := by
  have hpending : s'.Pending g w ↔ s.Pending g w := by
    simp only [Context.Pending, h.submission, h.submitted]
    refine and_congr_right fun hg => ?_
    rw [hseen.resolve_right (not_not.2 hg)]
  refine ⟨?_, ?_, ?_⟩
  · unfold Context.position
    rw [if_neg hcurrent, if_neg hcurrent']
    exact if_congr hpending rfl rfl
  · simp only [Context.Arrived, Context.Passed, hpending, ne_eq, hcurrent, hcurrent',
      not_false_eq_true, false_and]
  · rw [unrecorded_of_current hcurrent, unrecorded_of_current hcurrent']

variable {g' : ℕ}

/-- The shares that a moving worker leaves alone: all but that in its submission. -/
theorem share_move (h : SameClients s s') (hother : ∀ y, y ≠ w → s'.workers y = s.workers y)
    (hseen : (s'.workers w).seen = (s.workers w).seen)
    (hcurrent : (s.workers w).pc.current = some g)
    (hcurrent' : (s'.workers w).pc.current = some g ∨ (s'.workers w).pc.current = none)
    (hactive : ∀ g', (s'.submissions g').activeThreads = (s.submissions g').activeThreads)
    (hne : ¬ (g' = g ∧ x = w)) : SameShare s s' g' x := by
  by_cases hxw : x = w
  · subst hxw
    have hg : g ≠ g' := fun he => hne ⟨he.symm, rfl⟩
    refine share_apart h (.inl hseen) ?_ ?_
    · rw [hcurrent]; exact fun he => hg (Option.some.inj he)
    · rcases hcurrent' with hc | hc <;> rw [hc]
      · exact fun he => hg (Option.some.inj he)
      · exact nofun
  · exact share_other h (hother x hxw) (hactive g')

variable {pc : WorkerPc}

theorem share_moveWorker {t : Context} (h : SameClients s t) (hworkers : t.workers = s.workers)
    (hsubs : t.submissions = s.submissions) (hcurrent : (s.workers w).pc.current = some g)
    (hcurrent' : pc.current = some g) (hne : ¬ (g' = g ∧ x = w)) :
    SameShare s (t.moveWorker w pc) g' x := by
  have hself : (t.moveWorker w pc).workers w = { s.workers w with pc } := by
    rw [moveWorker_self, hworkers]
  have hother : ∀ y, y ≠ w → (t.moveWorker w pc).workers y = s.workers y := fun y hy => by
    rw [Context.moveWorker_of_ne hy, hworkers]
  have hsame : SameClients s (t.moveWorker w pc) :=
    ⟨h.submission, h.epoch, h.submitted, h.mutex, h.clients⟩
  refine share_move hsame hother ?_ hcurrent (.inl ?_) (fun g' => ?_) hne
  · rw [hself]
  · rw [hself]; exact hcurrent'
  · rw [show (t.moveWorker w pc).submissions = s.submissions from hsubs]

theorem position_of_current (hi : Inv s) (hcurrent : (s.workers w).pc.current = some g) :
    s.position g w = (s.workers w).pc.position (s.submissions g).activeThreads w := by
  have hnot : ¬ s.Pending g w := fun hp => hp.2 (hi.current w g hcurrent).2.2
  unfold Context.position
  rw [if_neg hnot, if_pos hcurrent]

/-- What a step can do to the tasks of a worker. -/
inductive TasksStep (es : List Event) (s s' : Context) (g w : ℕ) : Prop where
  | same (tasks : tasksOf es g w = []) (position : s'.position g w = s.position g w)
  | begin {i : ℕ} (tasks : tasksOf es g w = [i]) (before : s.position g w = some i)
      (after : s'.position g w = some (i + (s.submissions g).activeThreads))
      (more : i < (s.submissions g).taskCount)
  | advance {p : ℕ} (tasks : tasksOf es g w = []) (before : s.position g w = some p)
      (far : (s.submissions g).activeThreads ≤ p)
      (after : s'.position g w = some (p % (sizeMax + 1)))
  | leave {p : ℕ} (tasks : tasksOf es g w = []) (before : s.position g w = some p)
      (after : s'.position g w = none)
      (reason : (s.submissions g).taskCount ≤ p ∨ Failed es g ∨
        (s'.submissions g).preflightFailed = true)

theorem tasksOf_other {w' : ℕ} (hne : ¬ (g' = g ∧ w' = w)) (es : List Event) :
    tasksOf (es ++ [.task g i w]) g' w' = tasksOf es g' w' := by
  have : ¬ (g = g' ∧ w = w') := fun h => hne ⟨h.1.symm, h.2.symm⟩
  simp [tasksOf, this]

/-- The submissions behind a step of a worker take the arguments they had. -/
theorem active_of_keeps (hk : Keeps s s') (hg : g < s.submitted) :
    (s'.submissions g).taskCount = (s.submissions g).taskCount ∧
      (s'.submissions g).activeThreads = (s.submissions g).activeThreads ∧
      (s'.submissions g).preflight = (s.submissions g).preflight := by
  have := hk.arguments g hg
  simpa only [Submission.arguments, Prod.mk.injEq] using this

/-- The next task of a worker that has moved in the submission that it has. -/
theorem position_moveWorker {t : Context} (hi : Inv (t.moveWorker w pc))
    (hcurrent : pc.current = some g) :
    (t.moveWorker w pc).position g w = pc.position (t.submissions g).activeThreads w := by
  have hself : ((t.moveWorker w pc).workers w).pc = pc := by rw [moveWorker_self]
  rw [position_of_current hi (by rw [hself]; exact hcurrent), hself]
  rfl

section

variable (hpc : (s.workers w).pc = .waiting)

include hpc

/-- The shares that a waiting worker leaves alone. -/
theorem share_waiting {worker : Worker}
    (hself : x = w → (worker.seen = (s.workers w).seen ∨ s.submission ≠ some g) ∧
      worker.pc.current ≠ some g) : SameShare s (s.setWorker w worker) g x := by
  have hsame : SameClients s (s.setWorker w worker) := ⟨rfl, rfl, rfl, rfl, rfl⟩
  by_cases hxw : x = w
  · subst hxw
    obtain ⟨hseen, hcurrent⟩ := hself rfl
    refine share_apart hsame ?_ ?_ ?_
    · rw [setWorker_self]; exact hseen
    · rw [hpc]; exact nofun
    · rw [setWorker_self]; exact hcurrent
  · exact share_other hsame (Context.setWorker_of_ne _ hxw) rfl

theorem share_exit :
    SameShare s (s.moveWorker w .exited) g x := share_waiting hpc fun _ => ⟨.inl rfl, nofun⟩

theorem share_pass {pc' : WorkerPc} {stopping : Prop}
    (inactive : ∀ g, s.submission = some g → (s.submissions g).activeThreads ≤ w)
    (left : pc' = .waiting ∨ pc' = .exited ∧ stopping) (hx : x < (s.submissions g).activeThreads) :
    SameShare s (s.setWorker w ⟨pc', s.epoch, s.submitted⟩) g x := by
  refine share_waiting hpc fun hxw => ⟨.inr fun hg => ?_, ?_⟩
  · exact absurd (hxw ▸ hx) (Nat.not_lt.2 (inactive g hg))
  · rcases left with rfl | ⟨rfl, -⟩ <;> exact nofun

theorem share_join (hg : s.submission = some g') (hne : ¬ (g = g' ∧ x = w)) :
    SameShare s (s.setWorker w ⟨.joined g', s.epoch, s.submitted⟩) g x := by
  refine share_waiting hpc fun hxw => ?_
  have hgg : some g' ≠ some g := fun he => hne ⟨(Option.some.inj he).symm, hxw⟩
  exact ⟨.inr (hg ▸ hgg), hgg⟩

end

theorem share_idle (hworkers : s'.workers = s.workers)
    (hactive : (s'.submissions g).activeThreads = (s.submissions g).activeThreads)
    (hpending : ¬ s.Pending g x) (hpending' : ¬ s'.Pending g x) : SameShare s s' g x := by
  have hiff := iff_of_false hpending' hpending
  refine ⟨position_congr hiff (by rw [hworkers]) hactive, ?_, ?_⟩
  · simp only [Context.Arrived, Context.Passed, hiff, hworkers]
  · simp only [Context.unrecorded, hworkers]

variable {c : ℕ} {request : Request}

theorem share_accept (hi : Inv s) (hpc : s.clients c = .locked request) (hg : g < s.submitted)
    (x : ℕ) : SameShare s (s.install c request) g x := by
  have hnone : s.submission = none :=
    hi.none_of_holds (c := c) (by rw [hpc]; rfl) (by rw [hpc]; rfl)
  have hne : g ≠ s.submitted := Nat.ne_of_lt hg
  refine share_idle rfl ?_ (fun hp => ?_) fun hp => ?_
  · rw [show (s.install c request).submissions g = s.submissions g from
      update_of_ne hne _ s.submissions]
  · have := hp.1
    rw [hnone] at this; cases this
  · exact hne (Option.some.inj hp.1).symm

theorem share_complete (hi : Inv s) (hpc : s.clients c = .waiting g')
    (hfull : (s.submissions g').completedWorkers = (s.submissions g').activeThreads)
    (hx : x < (s.submissions g).activeThreads) :
    SameShare s ({ s with submission := none }.moveClient c (.returning g')) g x := by
  have hg' := hi.client c g' (by rw [hpc]; rfl)
  refine share_idle rfl rfl (fun hp => ?_) fun hp => by cases hp.1
  obtain rfl := Option.some.inj (hg'.symm.trans hp.1)
  rw [hi.completed g' (hi.lt_submitted hg')] at hfull
  exact (below_eq_iff.1 hfull x hx).1 hp

theorem share_record (pc : (s.workers w).pc = .preflighted g' status) (hne : ¬ (g = g' ∧ x = w)) :
    SameShare s (s.recordPreflight g' w status) g x := by
  obtain ⟨pc', hworkers, hsubs, hbranch⟩ := recordPreflight_fields s g' w status
  have hself : (s.recordPreflight g' w status).workers w = { s.workers w with pc := pc' } := by
    rw [hworkers, update_self]
  refine share_move (sameClients_recordPreflight s g' w status)
    (fun y hy => by rw [hworkers, update_of_ne hy]) ?_ (current_of pc) (.inl ?_)
    (fun g => ?_) hne
  · rw [hself]
  · rw [hself]
    rcases hbranch with ⟨-, rfl, -⟩ | ⟨-, rfl, -⟩
    · split <;> rfl
    · rfl
  · rw [hsubs]
    by_cases hg : g = g'
    · rw [hg, update_self]; rfl
    · rw [update_of_ne hg]

theorem share_finish (pc : (s.workers w).pc = .finishing g') (hne : ¬ (g = g' ∧ x = w)) :
    SameShare s (s.finishWorker g' w) g x := by
  obtain ⟨hsame, hworkers, hsubs⟩ := finishWorker_fields s g' w
  have hself : (s.finishWorker g' w).workers w = { s.workers w with pc := .waiting } := by
    rw [hworkers, update_self]
  refine share_move hsame (fun y hy => by rw [hworkers, update_of_ne hy]) ?_
    (current_of pc) (.inr ?_) (fun g => ?_) hne
  · rw [hself]
  · rw [hself]; rfl
  · rw [hsubs]
    by_cases hg : g = g'
    · rw [hg, update_self]
    · rw [update_of_ne hg]

/-- **What a step does to the tasks of a worker.** -/
theorem tasks_step (hi : Inv s) (hs : Step s es s') (hg : g < s.submitted)
    (hx : x < (s.submissions g).activeThreads) : TasksStep es s s' g x := by
  have hi' := inv_step hi hs
  have same : SameClients s s := ⟨rfl, rfl, rfl, rfl, rfl⟩
  have client : SameWork s s' → tasksOf es g x = [] → TasksStep es s s' g x := fun h ht =>
    .same ht (share_client h g x).position
  -- a worker that stays in its submission, where only its own tasks change
  have moved : ∀ {t : Context} {w g' : ℕ} {pc pc' : WorkerPc}, s' = t.moveWorker w pc' →
      SameClients s t → t.workers = s.workers → t.submissions = s.submissions →
      (s.workers w).pc = pc → pc.current = some g' → pc'.current = some g' →
      (¬ (g = g' ∧ x = w) → tasksOf es g x = []) →
      (g = g' → x = w → s.position g' w = pc.position (s.submissions g').activeThreads w →
        s'.position g' w = pc'.position (s.submissions g').activeThreads w →
        TasksStep es s s' g' w) → TasksStep es s s' g x := by
    intro t w g' pc pc' ht hsame hworkers hsubs hpc hcurrent hcurrent' htasks hself
    subst ht hpc
    by_cases heq : g = g' ∧ x = w
    · obtain ⟨rfl, rfl⟩ := heq
      refine hself rfl rfl (position_of_current hi hcurrent) ?_
      rw [position_moveWorker hi' hcurrent', hsubs]
    · exact .same (htasks heq) (share_moveWorker hsame hworkers hsubs hcurrent hcurrent' heq).position
  cases hs with
  | sleep | sleepBarrier | sleepClient | wake => exact client ⟨rfl, rfl, rfl, rfl, rfl⟩ rfl
  | reject => exact .same rfl rfl
  | enter | lock | refuse | notify | giveBack | stop | notifyStop | leave =>
    exact client ⟨rfl, rfl, rfl, rfl, rfl⟩ rfl
  | @exit w pc stopping epoch =>
    exact .same rfl (share_exit pc).position
  | @pass w es pc epoch inactive events pc' left =>
    have htasks : tasksOf es g x = [] := by
      unfold tasksOf
      rw [flatMap_eq_nil_iff]
      intro e he
      obtain ⟨g', -, rfl⟩ := events e he
      rfl
    exact .same htasks (share_pass pc inactive left hx).position
  | @join w g' pc epoch installed active =>
    refine .same rfl ?_
    by_cases heq : g = g' ∧ x = w
    · obtain ⟨rfl, rfl⟩ := heq
      have hpending : s.Pending g x := ⟨installed, hi.unseen epoch⟩
      rw [position_of_current hi' (by rw [setWorker_self]; rfl), setWorker_self]
      exact (if_pos hpending).symm
    · exact (share_join pc installed heq).position
  | startPreflight pc preflight | startLoop pc preflight | preflightDone pc =>
    exact moved rfl same rfl rfl pc rfl rfl (fun _ => rfl) fun _ _ before after =>
      .same rfl (after.trans before.symm)
  | @nestedShutdown w g' callback pc | @nestedNotify w g' callback pc =>
    refine moved rfl ⟨rfl, rfl, rfl, rfl, rfl⟩ rfl rfl pc rfl rfl (fun _ => rfl)
      fun _ _ before after => .same rfl (after.trans ((Eq.symm ?_).trans before.symm))
    cases callback <;> rfl
  | @record w g' status pc =>
    by_cases heq : g = g' ∧ x = w
    swap
    · exact .same rfl (share_record pc heq).position
    obtain ⟨rfl, rfl⟩ := heq
    have hbefore : s.position g x = some x := by
      rw [position_of_current hi (current_of pc), pc]; rfl
    obtain ⟨pc', hworkers, hsubs, hbranch⟩ := recordPreflight_fields s g x status
    have hself : ((s.recordPreflight g x status).workers x).pc = pc' := by
      rw [hworkers, update_self]
    have hafter : ∀ p, pc'.current = some g → pc'.position (s.submissions g).activeThreads x = p →
        (s.recordPreflight g x status).position g x = p := by
      intro p hcurrent' hp
      rw [position_of_current hi' (by rw [hself]; exact hcurrent'), hself, hsubs,
        update_self]
      exact hp
    rcases hbranch with ⟨-, rfl, -⟩ | ⟨-, rfl, -⟩
    · split at hafter
      · rename_i hfailed
        refine .leave rfl hbefore (hafter none rfl rfl) (.inr (.inr ?_))
        rw [hsubs, update_self]
        exact hfailed
      · exact .same rfl ((hafter _ rfl rfl).trans hbefore.symm)
    · exact .same rfl ((hafter _ rfl rfl).trans hbefore.symm)
  | @passBarrier w g' pc full =>
    by_cases hfailed : (s.submissions g').preflightFailed = true
    · exact moved (congrArg (s.moveWorker w) (if_pos hfailed)) same rfl rfl pc rfl rfl (fun _ => rfl)
        fun _ _ before after => .leave rfl before after (.inr (.inr hfailed))
    · exact moved (congrArg (s.moveWorker w) (if_neg hfailed)) same rfl rfl pc rfl rfl (fun _ => rfl)
        fun _ _ before after => .same rfl (after.trans before.symm)
  | @startTask w g' i pc more =>
    refine moved rfl same rfl rfl pc rfl rfl (fun hne => tasksOf_other hne [.access g' w])
      fun _ _ before after => .begin ?_ before after more
    simp [tasksOf]
  | endLoop pc done =>
    exact moved rfl same rfl rfl pc rfl rfl (fun _ => rfl) fun _ _ before after =>
      .leave rfl before after (.inl done)
  | @finishWorker w g' pc =>
    refine .same rfl ?_
    by_cases heq : g = g' ∧ x = w
    · obtain ⟨rfl, rfl⟩ := heq
      obtain ⟨hsame, hworkers, -⟩ := finishWorker_fields s g x
      have hself : (s.finishWorker g x).workers x = { s.workers x with pc := .waiting } := by
        rw [hworkers, update_self]
      have hcurrent := current_of pc
      have hnot : ¬ (s.finishWorker g x).Pending g x := fun hp => hp.2 (by
        rw [hself, hsame.submitted]; exact (hi.current x g hcurrent).2.2)
      rw [position_of_current hi hcurrent, pc]
      unfold Context.position
      rw [if_neg hnot, hself]
      rfl
    · exact (share_finish pc heq).position
  | taskDone pc =>
    exact moved rfl same rfl rfl pc rfl rfl (fun _ => rfl) fun _ _ before after =>
      .advance rfl before (Nat.le_add_left _ _) after
  | @taskFailed w g' i status pc failed =>
    exact moved rfl ⟨rfl, rfl, rfl, rfl, rfl⟩ rfl rfl pc rfl rfl (fun _ => rfl)
      fun _ _ before after =>
        .leave rfl before after (.inr (.inl (.inr ⟨i, w, status, mem_singleton.2 rfl, failed⟩)))
  | accept pc stopping => exact .same rfl (share_accept hi pc hg x).position
  | complete pc full => exact .same rfl (share_complete hi pc full hx).position

/-- What a step can do to the preflight of a worker. -/
inductive PreflightStep (es : List Event) (s s' : Context) (g w : ℕ) : Prop where
  | same (preflights : preflightsOf es g w = []) (arrived : s'.Arrived g w ↔ s.Arrived g w)
      (unrecorded : s'.unrecorded g w = s.unrecorded g w)
  | run {status : Status} (preflights : preflightsOf es g w = [status]) (before : ¬ s.Arrived g w)
      (after : ¬ s'.Arrived g w) (none : s.unrecorded g w = [])
      (unrecorded : s'.unrecorded g w = [status])
  | record {status : Status} (preflights : preflightsOf es g w = []) (before : ¬ s.Arrived g w)
      (after : s'.Arrived g w) (unrecorded : s.unrecorded g w = [status])
      (kept : status ≠ .success → (s'.submissions g).preflightFailed = true)

theorem SameShare.preflight (h : SameShare s s' g w) (hes : preflightsOf es g w = []) :
    PreflightStep es s s' g w := .same hes h.arrived h.unrecorded

/-- A worker in its submission has arrived if it has recorded its preflight. -/
theorem arrived_of_current (hcurrent : (s.workers w).pc.current = some g) :
    s.Arrived g w ↔ (s.workers w).pc.recorded = true := by
  simp only [Context.Arrived, Context.Passed, hcurrent, ne_eq, not_true_eq_false, and_false,
    false_or, true_and]

theorem unrecorded_eq (hpc : (s.workers w).pc = pc) (hne : ∀ g status, pc ≠ .preflighted g status) :
    s.unrecorded g w = [] := by
  unfold Context.unrecorded
  rw [hpc]
  split
  · exact absurd rfl (hne _ _)
  · rfl

theorem unrecorded_preflighted (hpc : (s.workers w).pc = .preflighted g status) :
    s.unrecorded g w = [status] := by
  unfold Context.unrecorded
  rw [hpc]
  exact if_pos rfl

/-- **What a step does to the preflight of a worker.** -/
theorem preflight_step (hi : Inv s) (hs : Step s es s') (hpre : (s.submissions g).preflight = true)
    (hx : x < (s.submissions g).activeThreads) (hg : g < s.submitted) :
    PreflightStep es s s' g x := by
  have same : SameClients s s := ⟨rfl, rfl, rfl, rfl, rfl⟩
  have client : SameWork s s' → preflightsOf es g x = [] → PreflightStep es s s' g x := fun h he =>
    (share_client h g x).preflight he
  -- a worker that stays on its side of the barrier
  have stay : ∀ {t : Context} {w g' : ℕ} {pc pc' : WorkerPc}, s' = t.moveWorker w pc' →
      SameClients s t → t.workers = s.workers → t.submissions = s.submissions →
      (s.workers w).pc = pc → pc.current = some g' → pc'.current = some g' →
      (g = g' ∧ x = w → pc'.recorded = pc.recorded) → (∀ g status, pc ≠ .preflighted g status) →
      (∀ g status, pc' ≠ .preflighted g status) →
      preflightsOf es g x = [] → PreflightStep es s s' g x := by
    intro t w g' pc pc' ht hsame hworkers hsubs hpc hcurrent hcurrent' hrecorded hne hne' hes
    subst ht hpc
    by_cases heq : g = g' ∧ x = w
    · obtain ⟨rfl, rfl⟩ := heq
      have hself : ((t.moveWorker x pc').workers x).pc = pc' := by rw [moveWorker_self]
      refine .same hes ?_ ?_
      · rw [arrived_of_current hcurrent, arrived_of_current (by rw [hself]; exact hcurrent'), hself,
          hrecorded ⟨rfl, rfl⟩]
      · rw [unrecorded_eq rfl hne, unrecorded_eq hself hne']
    · exact (share_moveWorker hsame hworkers hsubs hcurrent hcurrent' heq).preflight hes
  cases hs with
  | sleep | sleepBarrier | sleepClient | wake => exact client ⟨rfl, rfl, rfl, rfl, rfl⟩ rfl
  | reject => exact .same rfl Iff.rfl rfl
  | enter | lock | refuse | notify | giveBack | stop | notifyStop | leave =>
    exact client ⟨rfl, rfl, rfl, rfl, rfl⟩ rfl
  | @exit w pc stopping epoch =>
    exact (share_exit pc).preflight rfl
  | @pass w es pc epoch inactive events pc' left =>
    have hes : preflightsOf es g x = [] := by
      unfold preflightsOf
      rw [flatMap_eq_nil_iff]
      intro e he
      obtain ⟨g', -, rfl⟩ := events e he
      rfl
    exact (share_pass pc inactive left hx).preflight hes
  | @join w g' pc epoch installed active =>
    by_cases heq : g = g' ∧ x = w
    · obtain ⟨rfl, rfl⟩ := heq
      have hself := setWorker_self (s := s) (w := x) ⟨.joined g, s.epoch, s.submitted⟩
      refine .same rfl (iff_of_false ?_ ?_) ?_
      · rw [arrived_of_current (by rw [hself]; rfl), hself]; exact nofun
      · rintro (hp | ⟨hp, -⟩)
        · exact hp.1 ⟨installed, hi.unseen epoch⟩
        · rw [pc] at hp; cases hp
      · rw [unrecorded_eq (congrArg Worker.pc hself) nofun, unrecorded_eq pc nofun]
    · exact (share_join pc installed heq).preflight rfl
  | startPreflight pc | startTask pc | endLoop pc | taskDone pc =>
    exact stay rfl same rfl rfl pc rfl rfl (fun _ => rfl) nofun nofun rfl
  | startLoop pc preflight =>
    refine stay rfl same rfl rfl pc rfl rfl (fun heq => ?_) nofun nofun rfl
    rw [heq.1, preflight] at hpre; cases hpre
  | @nestedShutdown w g' callback pc | @nestedNotify w g' callback pc =>
    refine stay rfl ⟨rfl, rfl, rfl, rfl, rfl⟩ rfl rfl pc rfl rfl (fun _ => ?_) nofun nofun rfl
    cases callback <;> rfl
  | passBarrier pc full =>
    refine stay rfl same rfl rfl pc rfl ?_ (fun _ => ?_) nofun ?_ rfl
    · split <;> rfl
    · split <;> rfl
    · split <;> exact nofun
  | taskFailed pc failed =>
    exact stay rfl ⟨rfl, rfl, rfl, rfl, rfl⟩ rfl rfl pc rfl rfl (fun _ => rfl) nofun nofun rfl
  | @preflightDone w g' status pc =>
    by_cases heq : g = g' ∧ x = w
    · obtain ⟨rfl, rfl⟩ := heq
      have hself : ((s.moveWorker x (.preflighted g status)).workers x).pc = .preflighted g status := by
        rw [moveWorker_self]
      refine .run (by simp [preflightsOf]) ?_ ?_ (unrecorded_eq pc nofun)
        (unrecorded_preflighted hself)
      · rw [arrived_of_current (current_of pc), pc]; exact nofun
      · rw [arrived_of_current (by rw [hself]; rfl), hself]; exact nofun
    · have hne : ¬ (g' = g ∧ w = x) := fun h => heq ⟨h.1.symm, h.2.symm⟩
      exact (share_moveWorker same rfl rfl (current_of pc) rfl heq).preflight
        (by simp [preflightsOf, hne])
  | @record w g' status pc =>
    by_cases heq : g = g' ∧ x = w
    swap
    · exact (share_record pc heq).preflight rfl
    obtain ⟨rfl, rfl⟩ := heq
    obtain ⟨pc', hworkers, hsubs, hbranch⟩ := recordPreflight_fields s g x status
    have hself : ((s.recordPreflight g x status).workers x).pc = pc' := by
      rw [hworkers, update_self]
    have hpc' : pc'.current = some g ∧ pc'.recorded = true := by
      rcases hbranch with ⟨-, rfl, -⟩ | ⟨-, rfl, -⟩
      · split <;> exact ⟨rfl, rfl⟩
      · exact ⟨rfl, rfl⟩
    refine .record rfl ?_ ?_ (unrecorded_preflighted pc) fun hne => ?_
    · rw [arrived_of_current (current_of pc), pc]; exact nofun
    · rw [arrived_of_current (by rw [hself]; exact hpc'.1), hself]; exact hpc'.2
    · rw [hsubs, update_self]; exact if_neg hne
  | @finishWorker w g' pc =>
    by_cases heq : g = g' ∧ x = w
    · obtain ⟨rfl, rfl⟩ := heq
      obtain ⟨hsame, hworkers, -⟩ := finishWorker_fields s g x
      have hself : (s.finishWorker g x).workers x = { s.workers x with pc := .waiting } := by
        rw [hworkers, update_self]
      have hcurrent := current_of pc
      refine .same rfl (iff_of_true (.inl ⟨fun hp => hp.2 ?_, ?_⟩) (.inr ⟨hcurrent, ?_⟩)) ?_
      · rw [hself, hsame.submitted]; exact (hi.current x g hcurrent).2.2
      · rw [hself]; exact nofun
      · rw [pc]; rfl
      · rw [unrecorded_eq (congrArg Worker.pc hself) nofun, unrecorded_eq pc nofun]
    · exact (share_finish pc heq).preflight rfl
  | accept pc stopping => exact (share_accept hi pc hg x).preflight rfl
  | complete pc full => exact (share_complete hi pc full hx).preflight rfl

/-- A preflight failure is kept, and stems from a failed preflight. -/
theorem failed_step (hs : Step s es s') (g : ℕ) :
    (g < s.submitted → (s.submissions g).preflightFailed = true →
      (s'.submissions g).preflightFailed = true) ∧
    ((s'.submissions g).preflightFailed = true → (s.submissions g).preflightFailed = true ∨
      ∃ w status, (s.workers w).pc = .preflighted g status ∧ status ≠ .success) := by
  cases hs with
  | @record w g' status pc =>
    obtain ⟨pc', -, hsubs, -⟩ := recordPreflight_fields s g' w status
    rw [hsubs]
    by_cases hg : g = g'
    · subst hg
      rw [update_self]
      by_cases hst : status = .success
      · have hkept : ((s.submissions g).record status).preflightFailed =
            (s.submissions g).preflightFailed := if_pos hst
        rw [hkept]
        exact ⟨fun _ => id, .inl⟩
      · exact ⟨fun _ _ => if_neg hst, fun _ => .inr ⟨w, status, pc, hst⟩⟩
    · rw [update_of_ne hg]
      exact ⟨fun _ => id, .inl⟩
  | @finishWorker w g' pc =>
    rw [(finishWorker_fields s g' w).2.2]
    by_cases hg : g = g'
    · subst hg; rw [update_self]; exact ⟨fun _ => id, .inl⟩
    · rw [update_of_ne hg]; exact ⟨fun _ => id, .inl⟩
  | @accept c request pc stopping =>
    by_cases hg : g = s.submitted
    · subst hg
      rw [show (s.install c request).submissions s.submitted = _ from
        update_self s.submitted _ s.submissions]
      exact ⟨fun h => absurd h (lt_irrefl _), nofun⟩
    · rw [show (s.install c request).submissions g = _ from update_of_ne hg _ s.submissions]
      exact ⟨fun _ => id, .inl⟩
  | _ => exact ⟨fun _ => id, .inl⟩

/-- Only an active worker of an accepted submission begins a task or ends a preflight. -/
theorem outside_step (hi : Inv s) (hs : Step s es s')
    (hout : s.submitted ≤ g ∨ (s.submissions g).activeThreads ≤ w) :
    tasksOf es g w = [] ∧ preflightsOf es g w = [] := by
  have hne : ∀ {g' w' : ℕ}, (s.workers w').pc.current = some g' → ¬ (g' = g ∧ w' = w) := by
    rintro g' w' hcurrent ⟨rfl, rfl⟩
    obtain ⟨h₁, h₂, -⟩ := hi.current w' g' hcurrent
    have := hi.lt_submitted h₁
    omega
  cases hs with
  | startTask pc more | preflightDone pc =>
    have := hne (current_of pc)
    simp [tasksOf, preflightsOf, this]
  | pass pc epoch inactive events left =>
    unfold tasksOf preflightsOf
    rw [flatMap_eq_nil_iff, flatMap_eq_nil_iff]
    constructor
    all_goals
      intro e he
      obtain ⟨g', -, rfl⟩ := events e he
      rfl
  | _ => exact ⟨rfl, rfl⟩

theorem Failed.append (h : Failed es g) (es' : List Event) : Failed (es ++ es') g := by
  rcases h with ⟨w, status, h, hne⟩ | ⟨i, w, status, h, hne⟩
  · exact .inl ⟨w, status, mem_append_left _ h, hne⟩
  · exact .inr ⟨i, w, status, mem_append_left _ h, hne⟩

theorem Failed.of_append (h : Failed es g) (es' : List Event) : Failed (es' ++ es) g := by
  rcases h with ⟨w, status, h, hne⟩ | ⟨i, w, status, h, hne⟩
  · exact .inl ⟨w, status, List.mem_append_right _ h, hne⟩
  · exact .inr ⟨i, w, status, List.mem_append_right _ h, hne⟩

variable {tr : List Event}

theorem TasksInv.step (h : TasksInv tr s g w) (hk : Keeps s s') (hg : g < s.submitted)
    (hw : w < (s.submissions g).activeThreads)
    (hbound : (s.submissions g).taskCount + (s.submissions g).activeThreads ≤ sizeMax + 1)
    (hfailed : (s'.submissions g).preflightFailed = true → Failed (tr ++ es) g)
    (hs : TasksStep es s s' g w) : TasksInv (tr ++ es) s' g w := by
  obtain ⟨htasks, hactive, -⟩ := active_of_keeps hk hg
  obtain ⟨k, hk₁, hk₂, hk₃, hk₄⟩ := h
  unfold TasksInv
  rw [htasks, hactive, tasksOf_append, hk₁]
  cases hs with
  | same tasks position =>
    rw [tasks, position, append_nil]
    exact ⟨k, rfl, hk₂, hk₃, fun hp => (hk₄ hp).imp_right fun h => h.append es⟩
  | @begin i tasks before after more =>
    have hi := hk₃ i before
    refine ⟨k + 1, ?_, fun j hj => ?_, fun p hp => ?_, fun hp => ?_⟩
    · rw [tasks, stride_succ, hi]
    · rcases Nat.lt_succ_iff_lt_or_eq.1 hj with hj | rfl
      · exact hk₂ j hj
      · exact hi ▸ more
    · rw [after] at hp
      obtain rfl := Option.some.inj hp
      rw [hi, Nat.succ_mul, Nat.add_assoc]
    · rw [after] at hp; cases hp
  | @advance p tasks before far after =>
    have hp := hk₃ p before
    -- the task before is below the count, so the sum has not wrapped
    have hlt : p < sizeMax + 1 := by
      rcases k with - | k
      · omega
      · have := hk₂ k (Nat.lt_succ_self k)
        rw [Nat.succ_mul] at hp
        omega
    refine ⟨k, by rw [tasks, append_nil], hk₂, fun q hq => ?_, fun hq => ?_⟩
    · rw [after] at hq
      obtain rfl := Option.some.inj hq
      rw [← hp, Nat.mod_eq_of_lt hlt]
    · rw [after] at hq; cases hq
  | @leave p tasks before after reason =>
    refine ⟨k, by rw [tasks, append_nil], hk₂, fun q hq => ?_, fun _ => ?_⟩
    · rw [after] at hq; cases hq
    · rw [← hk₃ p before]
      rcases reason with h | h | h
      · exact .inl h
      · exact .inr (h.of_append tr)
      · exact .inr (hfailed h)

theorem PreflightInv.step (h : PreflightInv tr s g w) (hg : g < s.submitted) (hs : Step s es s')
    (hstep : PreflightStep es s s' g w) : PreflightInv (tr ++ es) s' g w := by
  unfold PreflightInv at h ⊢
  rw [preflightsOf_append]
  cases hstep with
  | same preflights arrived unrecorded =>
    rw [preflights, unrecorded, arrived, append_nil]
    exact h.imp_left fun ⟨ha, status, hst, hfailed⟩ => ⟨ha, status, hst, fun hne =>
      (failed_step hs g).1 hg (hfailed hne)⟩
  | run preflights before after none unrecorded =>
    obtain ⟨-, hst⟩ := h.resolve_left fun h => before h.1
    rw [hst, none, preflights, unrecorded]
    exact .inr ⟨after, rfl⟩
  | record preflights before after unrecorded kept =>
    obtain ⟨-, hst⟩ := h.resolve_left fun h => before h.1
    rw [hst, preflights, unrecorded]
    exact .inl ⟨after, _, rfl, kept⟩

/-- The submission whose preflight the worker has begun and not passed. -/
def WorkerPc.checking : WorkerPc → Option ℕ
  | calling g .preflight _ | preflighted g _ | barrier g => some g
  | waiting | joined _ | calling _ (.task _) _ | looping _ _ | finishing _ | exited => none

theorem checking_step (hs : Step s es s') (h : (s'.workers x).pc.checking = some g) :
    (s'.workers x).pc = (s.workers x).pc ∨
      ((s.workers x).pc.checking = some g ∨
          (s.workers x).pc = .joined g ∧ (s.submissions g).preflight = true) ∧
        ∀ status, (s'.workers x).pc = .preflighted g status → .preflightDone g x status ∈ es := by
  have moved : ∀ {t : Context} {w : ℕ} {worker : Worker}, t.workers = s.workers →
      (∀ g, worker.pc.checking = some g →
        ((s.workers w).pc.checking = some g ∨
            (s.workers w).pc = .joined g ∧ (s.submissions g).preflight = true) ∧
          ∀ status, worker.pc = .preflighted g status → .preflightDone g w status ∈ es) →
      ((t.setWorker w worker).workers x).pc.checking = some g →
      ((t.setWorker w worker).workers x).pc = (s.workers x).pc ∨
        ((s.workers x).pc.checking = some g ∨
            (s.workers x).pc = .joined g ∧ (s.submissions g).preflight = true) ∧
          ∀ status, ((t.setWorker w worker).workers x).pc = .preflighted g status →
            .preflightDone g x status ∈ es := by
    intro t w worker hworkers hnew hx
    by_cases hxw : x = w
    · subst hxw
      rw [setWorker_self] at hx ⊢
      exact .inr (hnew g hx)
    · rw [Context.setWorker_of_ne _ hxw, hworkers]
      exact .inl rfl
  cases hs with
  | exit | startLoop | startTask | endLoop | taskDone | taskFailed | join =>
    exact moved rfl nofun h
  | pass pc epoch inactive events left =>
    exact moved rfl (by rcases left with rfl | ⟨rfl, -⟩ <;> exact nofun) h
  | passBarrier pc full => exact moved rfl (by dsimp only; split <;> exact nofun) h
  | startPreflight pc preflight =>
    refine moved rfl (fun g' hg' => ⟨.inr ?_, nofun⟩) h
    cases hg'
    exact ⟨pc, preflight⟩
  | preflightDone pc =>
    refine moved rfl (fun g' hg' => ⟨.inl ?_, fun status' hst => ?_⟩) h
    · cases hg'
      rw [pc]
      rfl
    · cases hst
      exact mem_singleton.2 rfl
  | @nestedShutdown w g' callback pc | @nestedNotify w g' callback pc =>
    refine moved rfl (fun g' hg' => ⟨.inl ?_, nofun⟩) h
    rw [pc]
    cases callback with
    | preflight => exact hg'
    | task i => cases hg'
  | @record w g' status' pc =>
    obtain ⟨pc', hworkers, -, hbranch⟩ := recordPreflight_fields s g' w status'
    rw [hworkers] at h ⊢
    by_cases hxw : x = w
    · subst hxw
      rw [update_self] at h ⊢
      rcases hbranch with ⟨-, rfl, -⟩ | ⟨-, rfl, -⟩
      · dsimp only at h
        split at h <;> cases h
      · cases h
        exact .inr ⟨.inl (by rw [pc]; rfl), nofun⟩
    · rw [update_of_ne hxw]
      exact .inl rfl
  | @finishWorker w g' pc =>
    rw [(finishWorker_fields s g' w).2.1] at h ⊢
    by_cases hxw : x = w
    · subst hxw
      rw [update_self] at h
      cases h
    · rw [update_of_ne hxw]
      exact .inl rfl
  | _ => exact .inl rfl

theorem preflighted_step (hs : Step s es s') (h : (s'.workers x).pc = .preflighted g status) :
    (s.workers x).pc = .preflighted g status ∨ .preflightDone g x status ∈ es := by
  rcases checking_step (g := g) hs (by rw [h]; rfl) with hsame | ⟨-, hdone⟩
  · exact .inl (hsame ▸ h)
  · exact .inr (hdone status h)

theorem returning_step (hs : Step s es s') (h : s'.clients c = .returning g) :
    s.clients c = .returning g ∨ s.clients c = .waiting g := by
  rcases client_move hs c with hsame | hmove
  · exact .inl (hsame ▸ h)
  · rw [h] at hmove
    generalize s.clients c = pc at hmove ⊢
    cases hmove with
    | enter entered => rcases entered with entered | ⟨_, entered, -⟩ <;> cases entered
    | complete => exact .inr rfl

/-- The events of a step: an acceptance, a return, or a stop that is stored. -/
theorem events_step (hi : Inv s) (hs : Step s es s') :
    (∀ g c r, .accepted g c r ∈ es → g = s.submitted ∧ s' = s.install c r) ∧
    (∀ g status, .returned g status ∈ es → s'.submission = none ∧ ∃ c, s.clients c = .returning g) ∧
    (.stop ∈ es → s'.stopping = true) := by
  have absent : ∀ {es : List Event}, (∀ e ∈ es, ∃ g w, e = .access g w) →
      (∀ g c r, .accepted g c r ∈ es → g = s.submitted ∧ s' = s.install c r) ∧
      (∀ g status, .returned g status ∈ es → s'.submission = none ∧ ∃ c, s.clients c = .returning g) ∧
      (.stop ∈ es → s'.stopping = true) := by
    intro es h
    refine ⟨fun g c r he => ?_, fun g status he => ?_, fun he => ?_⟩
    all_goals
      obtain ⟨g', w', h'⟩ := h _ he
      cases h'
  cases hs with
  | pass pc epoch inactive events left =>
    exact absent fun e he => by obtain ⟨g, -, rfl⟩ := events e he; exact ⟨g, _, rfl⟩
  | accept pc stopping =>
    refine ⟨fun g c r he => ?_, fun g status he => ?_, fun he => ?_⟩
    · cases mem_singleton.1 he
      exact ⟨rfl, rfl⟩
    · cases mem_singleton.1 he
    · cases mem_singleton.1 he
  | @giveBack c g' status pc =>
    refine ⟨fun g c r he => ?_, fun g status he => ?_, fun he => ?_⟩
    · cases mem_singleton.1 he
    · cases mem_singleton.1 he
      exact ⟨hi.none_of_holds (c := c) (by rw [pc]; rfl) (by rw [pc]; rfl), c, pc⟩
    · cases mem_singleton.1 he
  | nestedShutdown | stop => exact ⟨by simp, by simp, fun _ => rfl⟩
  | _ => exact ⟨by simp, by simp, by simp⟩

theorem share_new (hi : Inv s) (hpc : s.clients c = .locked request) (w : ℕ) :
    (s.install c request).position s.submitted w = some w ∧
      ¬ (s.install c request).Arrived s.submitted w ∧
      (s.install c request).unrecorded s.submitted w = [] := by
  have hnone : s.submission = none :=
    hi.none_of_holds (c := c) (by rw [hpc]; rfl) (by rw [hpc]; rfl)
  have hcurrent : ((s.install c request).workers w).pc.current = none := hi.current_none hnone w
  have hpending : (s.install c request).Pending s.submitted w :=
    ⟨rfl, Nat.ne_of_lt (Nat.lt_succ_of_le (hi.seen w).1)⟩
  refine ⟨if_pos hpending, ?_, unrecorded_of_current (by rw [hcurrent]; exact nofun)⟩
  rintro (hp | ⟨hp, -⟩)
  · exact hp.1 hpending
  · rw [hcurrent] at hp; cases hp

theorem trace_step (h : TraceInv tr s) (hi : Inv s) (hc : Checked s) (hs : Step s es s') :
    TraceInv (tr ++ es) s' := by
  have hk := step_keeps hs
  obtain ⟨haccepted, hreturned, hstop⟩ := events_step hi hs
  have hfailed : ∀ g, (s'.submissions g).preflightFailed = true → Failed (tr ++ es) g := by
    intro g hg
    rcases (failed_step hs g).2 hg with hg | ⟨w, status, hpc, hne⟩
    · exact (h.failed g hg).append es
    · exact .inl ⟨w, status, mem_append_left _ (h.preflighted w g status hpc), hne⟩
  -- a submission that is new was installed by this step
  have hnew : ∀ g, ¬ g < s.submitted → g < s'.submitted → g = s.submitted ∧
      ∃ c request, s.clients c = .locked request ∧ s' = s.install c request := by
    intro g hge hlt
    rcases submission_step hs with ⟨heq, -⟩ | ⟨c, request, hpc, -, rfl, -⟩
    · rw [heq] at hlt; exact absurd hlt hge
    · have : (s.install c request).submitted = s.submitted + 1 := rfl
      exact ⟨by omega, c, request, hpc, rfl⟩
  refine
    { returning := fun c g hg => ?_
      preflighted := fun w g status hpc => ?_
      accepted := fun g c r he => ?_
      returned := fun g status he => ?_
      stop := fun he => ?_
      outside := fun g w hout => ?_
      tasks := fun g hg w hw => ?_
      preflights := fun g hg hp w hw => ?_
      failed := hfailed }
  · rcases returning_step hs hg with hg | hg
    · exact (h.returning c g hg).trans_le hk.submitted
    · exact (hi.lt_submitted (hi.client c g (by rw [hg]; rfl))).trans_le hk.submitted
  · rcases preflighted_step hs hpc with hpc | he
    · exact mem_append_left _ (h.preflighted w g status hpc)
    · exact List.mem_append_right _ he
  · rcases mem_append.1 he with he | he
    · obtain ⟨hlt, h₁, h₂, h₃⟩ := h.accepted g c r he
      obtain ⟨h₁', h₂', h₃'⟩ := active_of_keeps hk hlt
      exact ⟨hlt.trans_le hk.submitted, h₁'.trans h₁, h₂'.trans h₂, h₃'.trans h₃⟩
    · obtain ⟨rfl, rfl⟩ := haccepted g c r he
      have hsub : (s.install c r).submissions s.submitted =
          ⟨r.taskCount, r.activeThreads, r.preflight, 0, false, 0⟩ :=
        update_self s.submitted _ s.submissions
      rw [hsub]
      exact ⟨Nat.lt_succ_self _, rfl, rfl, rfl⟩
  · rcases mem_append.1 he with he | he
    · obtain ⟨hlt, hne⟩ := h.returned g status he
      refine ⟨hlt.trans_le hk.submitted, ?_⟩
      rcases submission_step hs with ⟨-, hsub | hsub⟩ | ⟨c, request, -, -, rfl, -⟩
      · rw [hsub]; exact hne
      · rw [hsub]; exact nofun
      · exact fun heq => Nat.ne_of_lt hlt (Option.some.inj heq).symm
    · obtain ⟨hnone, c, hpc⟩ := hreturned g status he
      refine ⟨(h.returning c g hpc).trans_le hk.submitted, ?_⟩
      rw [hnone]; exact nofun
  · rcases mem_append.1 he with he | he
    · exact hk.stopping (h.stop he)
    · exact hstop he
  · have hout : s.submitted ≤ g ∨ (s.submissions g).activeThreads ≤ w := by
      by_cases hg : g < s.submitted
      · rw [(active_of_keeps hk hg).2.1] at hout
        exact hout.imp_left (hk.submitted.trans ·)
      · exact .inl (Nat.le_of_not_lt hg)
    obtain ⟨h₁, h₂⟩ := h.outside g w hout
    obtain ⟨h₃, h₄⟩ := outside_step hi hs hout
    rw [tasksOf_append, preflightsOf_append, h₁, h₂, h₃, h₄]
    exact ⟨rfl, rfl⟩
  · by_cases hlt : g < s.submitted
    · rw [(active_of_keeps hk hlt).2.1] at hw
      exact (h.tasks g hlt w hw).step hk hlt hw (hc.submissions g hlt).2.2 (hfailed g)
        (tasks_step hi hs hlt hw)
    · obtain ⟨rfl, c, request, hpc, rfl⟩ := hnew g hlt hg
      have htasks : tasksOf (tr ++ es) s.submitted w = [] := by
        rw [tasksOf_append, (h.outside _ w (.inl le_rfl)).1, (outside_step hi hs (.inl le_rfl)).1]
        rfl
      refine ⟨0, htasks, nofun, fun p hp => ?_, fun hp => ?_⟩
      all_goals rw [(share_new hi hpc w).1] at hp
      · obtain rfl := Option.some.inj hp
        rw [Nat.zero_mul, Nat.add_zero]
      · cases hp
  · by_cases hlt : g < s.submitted
    · obtain ⟨-, hactive, hpre⟩ := active_of_keeps hk hlt
      rw [hactive] at hw
      rw [hpre] at hp
      exact (h.preflights g hlt hp w hw).step hlt hs (preflight_step hi hs hp hw hlt)
    · obtain ⟨rfl, c, request, hpc, rfl⟩ := hnew g hlt hg
      obtain ⟨-, harrived, hunrecorded⟩ := share_new hi hpc w
      refine .inr ⟨harrived, ?_⟩
      rw [hunrecorded, preflightsOf_append, (h.outside _ w (.inl le_rfl)).2,
        (outside_step hi hs (.inl le_rfl)).2]
      rfl

/-- What holds behind every run of a fresh context. -/
structure Reached (tr : List Event) (s : Context) : Prop where
  inv : Inv s
  checked : Checked s
  trace : TraceInv tr s

theorem reached_create (workerCount : ℕ) : Reached [] (.create workerCount) where
  inv := inv_create workerCount
  checked := ⟨fun c r h => (by rcases h with h | h <;> cases h), nofun⟩
  trace :=
    { returning := nofun, preflighted := nofun, accepted := nofun, returned := nofun, stop := nofun
      outside := fun _ _ _ => ⟨rfl, rfl⟩
      tasks := nofun, preflights := nofun, failed := nofun }

theorem Reached.step (h : Reached tr s) {a : Action} (hn : s.next a = some (s', es)) :
    Reached (tr ++ es) s' :=
  have hs := step_of_next hn
  ⟨inv_step h.inv hs, checked_step h.checked hs, trace_step h.trace h.inv h.checked hs⟩

end Matcore.Parallel
