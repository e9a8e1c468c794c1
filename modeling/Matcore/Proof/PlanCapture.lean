import Matcore.Gpu.PlanCapture
import Matcore.Lib.Handles

/-!
# What a call that fails leaves behind

No capture stays open. `capture_iff` and `execute_iff` say when a call keeps this, `step_iff` when a
step does.
-/

namespace Matcore.Gpu.PlanCapture

open Option (bind_some bind_eq_bind bind_eq_some_iff)
open Function (update update_self update_of_ne update_eq_self update_idem)
open Handles (Ledger)
open GraphMode (RuntimeTensorView)

/-- What a plan records about its executable. -/
structure MatcorePlan.Fits (plan : MatcorePlan) (driver : Driver) : Prop where
  captured : plan.graphCaptured = plan.graphExec.isSome
  recorded : ∀ exec, plan.graphExec = some exec → driver.recorded exec = plan.capturedPtrs
  stream : plan.hasExecution = true → plan.plan.graphMode = true → plan.graphStream.isSome

def State.execHeld (s : State) (name : ℕ) : Option ℕ := (s.plans name).bind (·.graphExec)

def State.streamHeld (s : State) (name : ℕ) : Option ℕ := (s.plans name).bind (·.graphStream)

/-- No call has left anything behind. -/
structure Sound (s : State) : Prop where
  thread : s.thread = {}
  idle : ∀ stream, s.driver.capturing stream = false
  execs : Ledger s.driver.execs s.driver.destroyedExecs s.execHeld
  streams : Ledger s.driver.streams s.driver.destroyedStreams s.streamHeld
  plans : ∀ name plan, s.plans name = some plan → plan.Fits s.driver

/-- A step that throws leaves the plans as they were. -/
def Restores (s : State) (result : State × Option String) : Prop :=
  result.2.isSome = true → result.1.plans = s.plans

theorem sound_init : Sound {} :=
  ⟨rfl, fun _ => rfl, Ledger.empty, Ledger.empty, nofun⟩

variable {s : State} {name : ℕ} {plan : MatcorePlan} {tensors : List RuntimeTensorView}
  {o : Outcomes}

theorem setPlan_plans (s : State) (name : ℕ) (plan : Option MatcorePlan) :
    (s.setPlan name plan).plans = update s.plans name plan := rfl

theorem execHeld_setPlan (s : State) (name : ℕ) (plan : Option MatcorePlan) :
    (s.setPlan name plan).execHeld = update s.execHeld name (plan.bind (·.graphExec)) := by
  funext n
  unfold State.execHeld
  rw [setPlan_plans]
  by_cases hn : n = name
  · rw [hn, update_self, update_self]
  · rw [update_of_ne hn, update_of_ne hn]

theorem streamHeld_setPlan (s : State) (name : ℕ) (plan : Option MatcorePlan) :
    (s.setPlan name plan).streamHeld =
      update s.streamHeld name (plan.bind (·.graphStream)) := by
  funext n
  unfold State.streamHeld
  rw [setPlan_plans]
  by_cases hn : n = name
  · rw [hn, update_self, update_self]
  · rw [update_of_ne hn, update_of_ne hn]

theorem fits_setPlan {new : Option MatcorePlan} (driver : Driver)
    (h : ∀ n p, s.plans n = some p → n ≠ name → p.Fits driver)
    (hnew : ∀ p, new = some p → p.Fits driver) :
    ∀ n p, (s.setPlan name new).plans n = some p → p.Fits driver := by
  intro n p hp
  rw [setPlan_plans] at hp
  by_cases hn : n = name
  · rw [hn, update_self] at hp
    exact hnew p hp
  · rw [update_of_ne hn] at hp
    exact h n p hp hn

theorem Sound.warmup (h : Sound s) : (s.setGraphWarmup true).setGraphWarmup false = s := by
  have hthread : ({ s.thread with warmup := false } : ThreadState) = s.thread := by rw [h.thread]
  unfold State.setGraphWarmup
  simp only [hthread]

/-- The override is set and cleared, and a capture begun and ended between. -/
theorem Sound.captured (h : Sound s) (stream : ℕ) :
    (((s.setCaptureStreamOverride (some stream)).setCapturing stream true).setCaptureStreamOverride
      none).setCapturing stream false = s := by
  have hthread : ({ s.thread with captureStreamOverride := none, active := false } : ThreadState) =
      s.thread := by rw [h.thread]
  have hcapturing : update s.driver.capturing stream false = s.driver.capturing := by
    rw [← h.idle stream, update_eq_self]
  unfold State.setCaptureStreamOverride State.setCapturing
  simp only [Option.isSome_none, update_idem, hcapturing, hthread]

theorem not_sound_of_thread (h : s.thread ≠ {}) : ¬ Sound s := fun hsound => h hsound.thread

theorem Sound.spend (h : Sound s) (ptrs : List ℕ) :
    Sound ((s.newExec ptrs).graphExecDestroy s.driver.execs) := by
  refine ⟨h.thread, h.idle, h.execs.spend, h.streams, fun n p hp => ?_⟩
  have hfits := h.plans n p hp
  refine ⟨hfits.captured, fun exec hexec => ?_, hfits.stream⟩
  have hlt : exec < s.driver.execs := (h.execs.live n exec (by
    rw [State.execHeld, show s.plans n = some p from hp]
    exact hexec)).1
  have hne : exec ≠ s.driver.execs := by omega
  exact (update_of_ne hne _ _).trans (hfits.recorded exec hexec)

theorem Sound.take (h : Sound s) (hplan : s.plans name = some plan) (hexec : plan.graphExec = none)
    (ptrs : List ℕ) :
    Sound ((s.newExec ptrs).setPlan name (some { plan with
      graphExec := some s.driver.execs, graphCaptured := true, capturedPtrs := ptrs })) := by
  have hheld : s.execHeld name = none := by rw [State.execHeld, hplan, bind_some, hexec]
  have hstream : (s.newExec ptrs).streamHeld name = plan.graphStream := by
    rw [State.streamHeld, show (s.newExec ptrs).plans name = some plan from hplan, bind_some]
  refine ⟨h.thread, h.idle, ?_, ?_, fits_setPlan _ (fun n p hp _ => ?_) ?_⟩
  · rw [execHeld_setPlan]
    exact h.execs.take hheld
  · rw [streamHeld_setPlan, bind_some, ← hstream, update_eq_self]
    exact h.streams
  · have hfits := h.plans n p hp
    refine ⟨hfits.captured, fun exec he => ?_, hfits.stream⟩
    have hlt : exec < s.driver.execs := (h.execs.live n exec (by
      rw [State.execHeld, show s.plans n = some p from hp]
      exact he)).1
    have hne : exec ≠ s.driver.execs := by omega
    exact (update_of_ne hne _ _).trans (hfits.recorded exec he)
  · rintro p ⟨⟩
    refine ⟨rfl, fun exec he => ?_, (h.plans name plan hplan).stream⟩
    obtain rfl := Option.some.inj he
    exact update_self _ _ _

/-- Nothing throws while the override is set, the capture is ended, and the graph that it leaves is
waited for. -/
structure CarefulCapture (needsOutputZeroing : Bool) (o : Outcomes) : Prop where
  beginCapture : o.beginCapture = none
  zeroOnStream : needsOutputZeroing = true → o.zeroOnStream = none
  captureInvoke : ∀ message, o.captureInvoke ≠ .throws message
  endCapture : ∀ message, o.endCapture ≠ .contextFails message
  synchronize : o.captureInvoke = .ok → o.endCapture = .ok → o.synchronize = none

theorem graphEndCapture_fails (s : State) (stream : ℕ) (ptrs : List ℕ) {result : EndResult}
    (hcontext : ∀ m, result ≠ .contextFails m) (hok : result ≠ .ok) :
    ∃ m, s.graphEndCapture stream ptrs result = (s.setCapturing stream false, .error m) := by
  cases result with
  | contextFails m => exact absurd rfl (hcontext m)
  | endFails m => exact ⟨m, rfl⟩
  | nullGraph => exact ⟨_, rfl⟩
  | instantiateFails m => exact ⟨m, rfl⟩
  | ok => exact absurd rfl hok

theorem capture_iff (h : Sound s) (hplan : s.plans name = some plan)
    (hexec : plan.graphExec = none) {stream : ℕ} (hstream : plan.graphStream = some stream) :
    Sound (s.capture name plan tensors o).1 ∧ Restores s (s.capture name plan tensors o) ↔
      CarefulCapture plan.plan.needsOutputZeroing o := by
  have hset : ∀ s' : State, s'.thread.active = true → ¬ Sound s' := fun s' hactive =>
    not_sound_of_thread fun hthread => by rw [hthread] at hactive; cases hactive
  unfold State.capture
  simp only [hstream]
  cases hbegin : o.beginCapture with
  | some message =>
    exact iff_of_false (fun hkeep => hset _ rfl hkeep.1) fun hcareful => by
      rw [hcareful.beginCapture] at hbegin
      cases hbegin
  | none =>
    cases hzero : (if plan.plan.needsOutputZeroing = true then o.zeroOnStream else none) with
    | some message =>
      refine iff_of_false (fun hkeep => hset _ rfl hkeep.1) fun hcareful => ?_
      split at hzero
      · rename_i hneeds
        rw [hcareful.zeroOnStream hneeds] at hzero
        cases hzero
      · cases hzero
    | none =>
      have hzeroes : plan.plan.needsOutputZeroing = true → o.zeroOnStream = none := by
        intro hneeds
        rwa [if_pos hneeds] at hzero
      by_cases hcontext : ∃ m, o.endCapture = .contextFails m
      · obtain ⟨m, hend⟩ := hcontext
        refine iff_of_false (fun hkeep => ?_) fun hcareful => hcareful.endCapture m hend
        cases hinvoke : o.captureInvoke with
        | throws message =>
          rw [hinvoke] at hkeep
          exact hset _ rfl hkeep.1
        | _ =>
          have hidle := hkeep.1.idle stream
          simp [hinvoke, hend, State.graphEndCapture, State.setCaptureStreamOverride,
            State.setCapturing] at hidle
      have hends : ∀ m, o.endCapture ≠ .contextFails m := fun m hm => hcontext ⟨m, hm⟩
      cases hinvoke : o.captureInvoke with
      | throws message =>
        exact iff_of_false (fun hkeep => hset _ rfl hkeep.1) fun hcareful =>
          hcareful.captureInvoke message hinvoke
      | error message =>
        have hthrows : ∀ m, o.captureInvoke ≠ .throws m := by
          rw [hinvoke]
          exact nofun
        have hok : o.captureInvoke = .ok → o.endCapture = .ok → o.synchronize = none := by
          rw [hinvoke]
          exact nofun
        refine iff_of_true ?_ ⟨hbegin, hzeroes, hthrows, hends, hok⟩
        by_cases hexecs : o.endCapture = .ok
        · rw [hexecs]
          simp only [State.graphEndCapture, h.captured stream]
          exact ⟨h.spend _, fun _ => rfl⟩
        · obtain ⟨m, hfails⟩ := graphEndCapture_fails _ stream (tensors.map (·.data)) hends hexecs
          rw [hfails, h.captured stream]
          exact ⟨h, fun _ => rfl⟩
      | ok =>
        have hthrows : ∀ m, o.captureInvoke ≠ .throws m := by
          rw [hinvoke]
          exact nofun
        by_cases hexecs : o.endCapture = .ok
        · have htake := h.take hplan hexec (tensors.map (·.data))
          rw [hstream] at htake
          rw [hexecs]
          simp only [State.graphEndCapture, h.captured stream]
          constructor
          · rintro ⟨-, hrestores⟩
            refine ⟨hbegin, hzeroes, hthrows, hends, fun _ _ => ?_⟩
            by_contra hsync
            -- the plan has the executable, although the call throws
            have hsame := congrFun (hrestores (Option.isSome_iff_ne_none.2 hsync)) name
            rw [hplan, setPlan_plans, update_self] at hsame
            have hheld := congrArg MatcorePlan.graphExec (Option.some.inj hsame)
            rw [hexec] at hheld
            cases hheld
          · intro hcareful
            refine ⟨htake, fun hthrown => ?_⟩
            rw [show o.synchronize = none from hcareful.synchronize hinvoke hexecs] at hthrown
            cases hthrown
        · obtain ⟨m, hfails⟩ := graphEndCapture_fails _ stream (tensors.map (·.data)) hends hexecs
          rw [hfails, h.captured stream]
          exact iff_of_true ⟨h, fun _ => rfl⟩
            ⟨hbegin, hzeroes, hthrows, hends, fun _ hok => absurd hok hexecs⟩

/-- Nothing throws while the warm-up flag is set, and then nothing while the plan is captured. -/
structure CarefulWarmup (needsOutputZeroing : Bool) (o : Outcomes) : Prop where
  zero : needsOutputZeroing = true → o.zero = none
  invoke : ∀ message, o.invoke ≠ .throws message
  capture : o.invoke = .ok → CarefulCapture needsOutputZeroing o

theorem execute_iff (h : Sound s) (hplan : s.plans name = some plan)
    (hexecution : plan.hasExecution = true) :
    Sound (s.execute name plan tensors o).1 ∧ Restores s (s.execute name plan tensors o) ↔
      (plan.plan.validateTensors tensors = none → plan.plan.graphMode = true →
        plan.graphCaptured = false → CarefulWarmup plan.plan.needsOutputZeroing o) := by
  -- an exception between the two settings of the warm-up flag leaves it on
  have hset : ∀ s' : State, s'.thread.warmup = true → ¬ Sound s' := fun s' hwarmup =>
    not_sound_of_thread fun hthread => by rw [hthread] at hwarmup; cases hwarmup
  have hsame : ∀ thrown : Option String, Sound s ∧ Restores s (s, thrown) :=
    fun _ => ⟨h, fun _ => rfl⟩
  unfold State.execute
  cases hvalid : plan.plan.validateTensors tensors with
  | some message => exact iff_of_true (hsame _) nofun
  | none =>
    simp only
    by_cases hgraph : plan.plan.graphMode = true
    · rw [if_pos hgraph]
      by_cases hcaptured : plan.graphCaptured = true
      · rw [if_pos hcaptured]
        refine iff_of_true ?_ fun _ _ hnot => by rw [hcaptured] at hnot; cases hnot
        split
        · exact hsame _
        · exact hsame _
      · rw [if_neg hcaptured]
        have hcaptured : plan.graphCaptured = false := Bool.eq_false_iff.2 hcaptured
        have hfits := h.plans name plan hplan
        have hexec : plan.graphExec = none := by
          have := hfits.captured
          rw [hcaptured, eq_comm, Option.isSome_eq_false_iff, Option.isNone_iff_eq_none] at this
          exact this
        obtain ⟨stream, hstream⟩ := Option.isSome_iff_exists.1 (hfits.stream hexecution hgraph)
        simp only [forall_const, hgraph, hcaptured]
        cases hzero : (if plan.plan.needsOutputZeroing = true then o.zero else none) with
        | some message =>
          refine iff_of_false (fun hkeep => hset _ rfl hkeep.1) fun hcareful => ?_
          split at hzero
          · rename_i hneeds
            rw [hcareful.zero hneeds] at hzero
            cases hzero
          · cases hzero
        | none =>
          have hzeroes : plan.plan.needsOutputZeroing = true → o.zero = none := by
            intro hneeds
            rwa [if_pos hneeds] at hzero
          cases hinvoke : o.invoke with
          | throws message =>
            exact iff_of_false (fun hkeep => hset _ rfl hkeep.1) fun hcareful =>
              hcareful.invoke message hinvoke
          | error message =>
            simp only [h.warmup]
            refine iff_of_true (hsame _) ⟨hzeroes, ?_, ?_⟩
            · rw [hinvoke]
              exact nofun
            · rw [hinvoke]
              exact nofun
          | ok =>
            simp only [h.warmup]
            rw [capture_iff h hplan hexec hstream]
            constructor
            · intro hcareful
              refine ⟨hzeroes, ?_, fun _ => hcareful⟩
              rw [hinvoke]
              exact nofun
            · intro hcareful
              exact hcareful.capture hinvoke
    · rw [if_neg hgraph]
      refine iff_of_true ?_ fun _ hgraph' => absurd hgraph' hgraph
      split
      · exact hsame _
      · split
        · exact hsame _
        · exact hsame _
        · exact hsame _

theorem Sound.destroy (h : Sound s) (hplan : s.plans name = some plan) :
    Sound ((s.destroyGraph plan).setPlan name none) := by
  have hrest : (s.destroyGraph plan).driver.destroyedExecs =
        plan.graphExec.toList ++ s.driver.destroyedExecs ∧
      (s.destroyGraph plan).driver.destroyedStreams =
        plan.graphStream.toList ++ s.driver.destroyedStreams ∧
      (s.destroyGraph plan).thread = s.thread ∧ (s.destroyGraph plan).plans = s.plans ∧
      (s.destroyGraph plan).driver.capturing = s.driver.capturing ∧
      (s.destroyGraph plan).driver.execs = s.driver.execs ∧
      (s.destroyGraph plan).driver.streams = s.driver.streams ∧
      (s.destroyGraph plan).driver.recorded = s.driver.recorded := by
    unfold State.destroyGraph
    cases plan.graphExec <;> cases plan.graphStream <;>
      exact ⟨rfl, rfl, rfl, rfl, rfl, rfl, rfl, rfl⟩
  obtain ⟨hexecs, hstreams, hthread, hplans, hcapturing, hexecCount, hstreamCount, hrecorded⟩ := hrest
  have hexecHeld : (s.destroyGraph plan).execHeld = s.execHeld := by
    funext n
    rw [State.execHeld, State.execHeld, hplans]
  have hstreamHeld : (s.destroyGraph plan).streamHeld = s.streamHeld := by
    funext n
    rw [State.streamHeld, State.streamHeld, hplans]
  refine ⟨hthread.trans h.thread, fun stream => (congrFun hcapturing stream).trans (h.idle stream),
    ?_, ?_, fits_setPlan _ (fun n p hp _ => ?_) nofun⟩
  · have hdrop := h.execs.drop name
    rw [State.execHeld, hplan, bind_some, ← hexecs, ← hexecCount, ← hexecHeld] at hdrop
    rw [execHeld_setPlan]
    exact hdrop
  · have hdrop := h.streams.drop name
    rw [State.streamHeld, hplan, bind_some, ← hstreams, ← hstreamCount, ← hstreamHeld]
      at hdrop
    rw [streamHeld_setPlan]
    exact hdrop
  · rw [hplans] at hp
    have hfits := h.plans n p hp
    refine ⟨hfits.captured, fun exec hexec => ?_, hfits.stream⟩
    exact (congrFun hrecorded exec).trans (hfits.recorded exec hexec)

theorem Sound.move (h : Sound s) {source : ℕ} (hne : name ≠ source) (hname : s.plans name = none)
    (hplan : s.plans source = some plan) :
    Sound ((s.setPlan name (some plan)).setPlan source (some (State.movedFrom plan))) := by
  have hfits := h.plans source plan hplan
  refine ⟨h.thread, h.idle, ?_, ?_, fits_setPlan _ (fun n p hp _ => ?_) ?_⟩
  · have hmove := h.execs.move hne (by rw [State.execHeld, hname]; rfl)
    rw [State.execHeld, hplan, bind_some] at hmove
    rw [execHeld_setPlan, execHeld_setPlan]
    exact hmove
  · have hmove := h.streams.move hne (by rw [State.streamHeld, hname]; rfl)
    rw [State.streamHeld, hplan, bind_some] at hmove
    rw [streamHeld_setPlan, streamHeld_setPlan]
    exact hmove
  · exact fits_setPlan _ (fun n p hp _ => h.plans n p hp)
      (fun p hp => Option.some.inj hp ▸ hfits) n p hp
  · rintro p ⟨⟩
    exact ⟨rfl, nofun, nofun⟩

/-- The condition on a step: in a call that captures, nothing throws between what is set and what is
cleared. -/
def Careful (s : State) : State.Action → Prop
  | .execute name tensors o => ∀ plan, s.plans name = some plan → plan.hasExecution = true →
      plan.plan.validateTensors tensors = none → plan.plan.graphMode = true →
      plan.graphCaptured = false → CarefulWarmup plan.plan.needsOutputZeroing o
  | _ => True

theorem step_iff (h : Sound s) {action : State.Action} {result : State × Option String}
    (hstep : s.step action = some result) :
    Sound result.1 ∧ Restores s result ↔ Careful s action := by
  cases action with
  | create name plan fails =>
    refine iff_of_true ?_ trivial
    simp only [State.step] at hstep
    split at hstep
    · cases hstep
    · rename_i hnone
      have hname : s.plans name = none := by simpa using hnone
      have hexec : s.execHeld name = none := by rw [State.execHeld, hname]; rfl
      have hstream : s.streamHeld name = none := by rw [State.streamHeld, hname]; rfl
      split at hstep
      · split at hstep
        · cases hstep
          exact ⟨h, fun _ => rfl⟩
        · cases hstep
          refine ⟨⟨h.thread, h.idle, ?_, ?_, fits_setPlan _ (fun n p hp _ => ?_) ?_⟩, nofun⟩
          · have hsame : update s.execHeld name none = s.execHeld := by
              rw [← hexec, update_eq_self]
            rw [execHeld_setPlan]
            show Ledger s.driver.execs s.driver.destroyedExecs (update s.execHeld name none)
            rw [hsame]
            exact h.execs
          · rw [streamHeld_setPlan]
            exact h.streams.take hstream
          · have hfits := h.plans n p hp
            exact ⟨hfits.captured, hfits.recorded, hfits.stream⟩
          · rintro p ⟨⟩
            exact ⟨rfl, nofun, fun _ _ => rfl⟩
      · rename_i hgraph
        cases hstep
        refine ⟨⟨h.thread, h.idle, ?_, ?_, fits_setPlan _ (fun n p hp _ => h.plans n p hp) ?_⟩, nofun⟩
        · rw [execHeld_setPlan, bind_some, ← hexec, update_eq_self]
          exact h.execs
        · rw [streamHeld_setPlan, bind_some, ← hstream, update_eq_self]
          exact h.streams
        · rintro p ⟨⟩
          exact ⟨rfl, nofun, fun _ hgraph' => absurd hgraph' hgraph⟩
  | execute name tensors o =>
    rw [State.step, bind_eq_bind, bind_eq_some_iff] at hstep
    obtain ⟨plan, hplan, hstep⟩ := hstep
    split at hstep
    · rename_i hexecution
      cases hstep
      rw [execute_iff h hplan hexecution]
      constructor
      · intro hcareful plan' hplan' _
        obtain rfl := Option.some.inj (hplan.symm.trans hplan')
        exact hcareful
      · intro hcareful
        exact hcareful plan hplan hexecution
    · cases hstep
  | moveConstruct name source =>
    refine iff_of_true ?_ trivial
    rw [State.step, bind_eq_bind, bind_eq_some_iff] at hstep
    obtain ⟨plan, hplan, hstep⟩ := hstep
    split at hstep
    · cases hstep
    · rename_i hnone
      cases hstep
      have hname : s.plans name = none := by simpa using hnone
      have hne : name ≠ source := fun heq => by rw [heq, hplan] at hname; cases hname
      exact ⟨h.move hne hname hplan, nofun⟩
  | moveAssign name source =>
    refine iff_of_true ?_ trivial
    simp only [State.step, bind_eq_bind, bind_eq_some_iff] at hstep
    obtain ⟨own, hown, plan, hplan, hstep⟩ := hstep
    split at hstep
    · cases hstep
      exact ⟨h, nofun⟩
    · rename_i hne
      cases hstep
      -- the own plan is destroyed, and the other one moved to its place
      have hdestroyed := h.destroy hown
      have hplans : (s.destroyGraph own).plans = s.plans := by
        unfold State.destroyGraph
        cases own.graphExec <;> cases own.graphStream <;> rfl
      have hsource : ((s.destroyGraph own).setPlan name none).plans source = some plan := by
        rw [setPlan_plans, update_of_ne (Ne.symm hne), hplans, hplan]
      have hmove := hdestroyed.move hne (by rw [setPlan_plans, update_self]) hsource
      have hsame : ((s.destroyGraph own).setPlan name none).setPlan name (some plan) =
          (s.destroyGraph own).setPlan name (some plan) := by
        unfold State.setPlan
        simp only [update_idem]
      rw [hsame] at hmove
      exact ⟨hmove, nofun⟩
  | destroy name =>
    refine iff_of_true ?_ trivial
    rw [State.step, bind_eq_bind, bind_eq_some_iff] at hstep
    obtain ⟨plan, hplan, hstep⟩ := hstep
    cases hstep
    exact ⟨h.destroy hplan, nofun⟩

/-- Every step of a run leaves nothing behind, up to one that cannot be taken. -/
def LeavesNothing : State → List State.Action → Prop
  | _, [] => True
  | s, action :: run => ∀ result, s.step action = some result →
      (Sound result.1 ∧ Restores s result) ∧ LeavesNothing result.1 run

/-- Every step of a run meets the condition. -/
def CarefulRun : State → List State.Action → Prop
  | _, [] => True
  | s, action :: run => ∀ result, s.step action = some result →
      Careful s action ∧ CarefulRun result.1 run

/-- **A run of plans leaves nothing behind** where every call that captures is careful. -/
theorem leavesNothing_iff (h : Sound s) (run : List State.Action) :
    LeavesNothing s run ↔ CarefulRun s run := by
  induction run generalizing s with
  | nil => exact iff_of_true trivial trivial
  | cons action run ih =>
    constructor
    · intro hleaves result hstep
      obtain ⟨hkeep, hrest⟩ := hleaves result hstep
      exact ⟨(step_iff h hstep).1 hkeep, (ih hkeep.1).1 hrest⟩
    · intro hcareful result hstep
      obtain ⟨hnow, hrest⟩ := hcareful result hstep
      have hkeep := (step_iff h hstep).2 hnow
      exact ⟨hkeep, (ih hkeep.1).2 hrest⟩

/-- **From the start of a thread.** -/
theorem plans_leave_nothing (run : List State.Action) :
    LeavesNothing {} run ↔ CarefulRun {} run :=
  leavesNothing_iff sound_init run

/-- A matrix on the device. -/
def deviceMatrix (data : ℕ) (rows columns : ℤ) : RuntimeTensorView :=
  ⟨data, .float32, [rows, columns], [columns, 1], true, {}⟩

/-- The operands of a product, and its result. -/
def productTensors : List RuntimeTensorView :=
  [deviceMatrix 4096 2 3, deviceMatrix 8192 3 4, deviceMatrix 12288 2 4]

/-- The plan of the product, in graph mode. Its result is zeroed in front of each invocation. -/
def productPlan : GraphMode.Plan where
  frozenMeta := productTensors.zipIdx.map fun (t, i) =>
    ⟨t.dtype, t.shape, t.strides, t.isDeviceResident, i = 2, t.quantization⟩
  needsOutputZeroing := true
  program := []
  graphMode := true

/-- **A warm-up that throws leaves its flag on.** -/
theorem throwing_warmup_stays_on :
    ¬ LeavesNothing {} [.create 0 productPlan none,
      .execute 0 productTensors { invoke := .throws "cuLaunchKernel" }] := by
  intro hleaves
  have hcreated := (hleaves _ rfl).2
  have hexecuted := (hcreated _ rfl).1.1
  have hflag := congrArg ThreadState.warmup hexecuted.thread
  cases hflag

end Matcore.Gpu.PlanCapture
