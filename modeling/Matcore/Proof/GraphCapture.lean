import Matcore.Gpu.GraphMode
import Matcore.Lib.Except

/-!
# What host code issues, executed and captured

Host code in a capture issues the work of the calls it makes outside, with one function in place of
all of them.
-/

namespace Matcore.Gpu.GraphMode

open List (append_assoc mem_cons mem_cons_self mem_cons_of_mem)
open Option (isSome_none)
open Bool (false_eq_true)
open Except (bind_eq_ok ok_bind then_eq_ok)
open StreamOrder (Event)

variable {driver : Driver}

namespace Call

/-- The module that a call loads. -/
def load? : Call → Option Module
  | moduleLoad image => some ⟨image, none⟩
  | moduleLoadJIT image optLevel => some ⟨image, some optLevel⟩
  | _ => none

/-- The function that a call fetches. -/
def fetch? (modules : List Module) : Call → Option Function
  | moduleGetFunction module name => modules[module]?.map (⟨·, name⟩)
  | _ => none

/-- The work that a call issues. -/
def work (driver : Driver) (functions : List Function) : Call → Option Work
  | launchKernel function grid block smem _ params => functions[function]?.map fun function =>
      .kernel function (unsigned3 grid) (unsigned3 block) (unsigned smem) params
  | memcpy dst src sizeBytes _ =>
    if sizeBytes = 0 ∨ dst = src then none
    else (copyKind driver dst src).map (.copy · dst src sizeBytes)
  | memset32 dst value count _ => some (.memset32 dst value count)
  | memset16 dst value count _ => some (.memset16 dst value count)
  | _ => none

/-- The stream on which a call issues its work. -/
def target : Call → ℕ
  | launchKernel _ _ _ _ stream _ | memcpy _ _ _ stream => stream
  | memset32 _ _ _ stream | memset16 _ _ _ stream | streamSynchronize stream => stream
  | _ => 0

/-- What a call issues, with its stream by number. -/
def event (driver : Driver) (functions : List Function) (call : Call) : Option (Event ℕ Operation) :=
  match call with
  | streamSynchronize stream => some (.synchronize stream)
  | call => (call.work driver functions).map fun work => .work call.target (.work work)

/-- The handles that a call reads are some that were obtained. -/
def Defined (frame : Frame) : Call → Prop
  | moduleGetFunction module _ => module < frame.modules.length
  | launchKernel function _ _ _ stream _ =>
    function < frame.functions.length ∧ stream < frame.streams.length
  | memcpy _ _ _ stream | memset32 _ _ _ stream | memset16 _ _ _ stream
  | streamSynchronize stream => stream < frame.streams.length
  | _ => True

/-- A call of host code whose tensors are all on the device: no buffer is staged. -/
def Resident (driver : Driver) : Call → Prop
  | memAlloc .. => False
  | memcpy dst src _ _ => driver.isDevice dst = true ∧ driver.isDevice src = true
  | _ => True

end Call

/-- The modules that host code loads and the functions that it fetches. -/
def loads (program : List Call) : List Module := program.filterMap Call.load?

def fetched (program : List Call) : List Function := program.filterMap (Call.fetch? (loads program))

/-- A stream by its number. -/
def streamAt (streams : List Stream) (i : ℕ) : Stream := streams.getD i .null

/-- What a call issues in a frame. -/
def issuedBy (driver : Driver) (frame : Frame) (call : Call) : Option (Event Stream Operation) :=
  (call.event driver frame.functions).map (·.onStreams (streamAt frame.streams))

variable {i : ℕ}

theorem handle_eq_ok {α : Type} {handles : List α} {a : α} :
    handle handles i = .ok a ↔ handles[i]? = some a := by
  unfold handle
  cases handles[i]? <;> simp

theorem handle_lt {α : Type} {handles : List α} {a : α} (h : handle handles i = .ok a) :
    i < handles.length :=
  (List.getElem?_eq_some_iff.1 (handle_eq_ok.1 h)).1

/-- What a call does outside of a capture. -/
structure Stepped (driver : Driver) (frame : Frame) (s : State) (call : Call)
    (frame' : Frame) (s' : State) : Prop where
  modules : frame'.modules = frame.modules ++ call.load?.toList
  functions : frame'.functions = frame.functions ++ (call.fetch? frame.modules).toList
  streams : ∃ opened, frame'.streams = frame.streams ++ opened
  fetch : ∀ more, call.fetch? (frame.modules ++ more) = call.fetch? frame.modules
  override : s'.captureStreamOverride = none
  capture : s'.capture = none
  issued : s'.issued = s.issued ++ (issuedBy driver frame call).toList
  cached : s.cache.function = frame.functions.getLast? →
    s'.cache.function = frame'.functions.getLast?
  jit : (s.cache.module.isSome ∨ ∃ image level, call = .moduleLoadJIT image level) →
    s'.cache.module.isSome
  defined : call.Defined frame

theorem issue_plain {s : State} (hcapture : s.capture = none) (stream : Stream) (work : Work) :
    s.issue stream work = s.log (.work stream (.work work)) := by
  unfold State.issue
  rw [hcapture]

theorem synchronize_plain {s : State} (hcapture : s.capture = none) (stream : Stream) :
    s.synchronize stream = s.log (.synchronize stream) := by
  unfold State.synchronize
  rw [hcapture]
  rfl

/-- Outside of a capture and of an override. -/
def State.Idle (s : State) : Prop := s.captureStreamOverride = none ∧ s.capture = none

variable {s s' : State} {frame : Frame} {call : Call} {streams : List Stream}

theorem streamAt_append {i : ℕ} (hi : i < streams.length) (more : List Stream) :
    streamAt (streams ++ more) i = streamAt streams i := by
  unfold streamAt
  rw [List.getD_append _ _ _ _ hi]

theorem Call.Defined.work_append (h : call.Defined frame) (functions : List Function) :
    call.work driver (frame.functions ++ functions) = call.work driver frame.functions := by
  cases call with
  | launchKernel => simp only [Call.work, List.getElem?_append_left h.1]
  | _ => rfl

variable {functions : List Function}

/-- What a call issues stays the same when more is obtained. -/
theorem Call.Defined.issuedBy_append (h : call.Defined frame) {frame' : Frame}
    (hfunctions : frame'.functions = frame.functions ++ functions)
    (hstreams : frame'.streams = frame.streams ++ streams) :
    issuedBy driver frame' call = issuedBy driver frame call := by
  have hwork : call.work driver (frame.functions ++ functions) = _ := h.work_append functions
  rw [← hfunctions] at hwork
  cases call with
  | launchKernel function grid block smem stream params =>
    have hstream := streamAt_append h.2 streams
    rw [← hstreams] at hstream
    simp [issuedBy, Call.event, hwork, Call.target, Event.onStreams, hstream, Function.comp_def]
  | memcpy dst src sizeBytes stream | memset32 dst value count stream | memset16 dst value count stream
  | streamSynchronize stream =>
    have hstream := streamAt_append (show stream < frame.streams.length from h) streams
    rw [← hstreams] at hstream
    simp [issuedBy, Call.event, hwork, Call.target, Event.onStreams, hstream, Function.comp_def]
  | _ => rfl

theorem Stepped.quiet (hload : call.load? = none) (hfetch : ∀ modules, call.fetch? modules = none)
    (hevent : ∀ functions, call.event driver functions = none)
    (hoverride : s'.captureStreamOverride = none) (hcapture : s'.capture = none)
    (hissued : s'.issued = s.issued) (hcache : s'.cache = s.cache)
    (hjit : ∀ image level, call ≠ .moduleLoadJIT image level) (hdefined : call.Defined frame) :
    Stepped driver frame s call frame s' where
  modules := by simp [hload]
  functions := by simp [hfetch]
  streams := ⟨[], (List.append_nil _).symm⟩
  fetch more := by rw [hfetch, hfetch]
  override := hoverride
  capture := hcapture
  issued := by simp [issuedBy, hevent, hissued]
  cached h := by rw [hcache]; exact h
  jit h := by
    rw [hcache]
    exact h.resolve_right fun ⟨image, level, heq⟩ => hjit image level heq
  defined := hdefined

theorem Stepped.log {e : Event Stream Operation} (hidle : s.Idle) (hload : call.load? = none)
    (hfetch : ∀ modules, call.fetch? modules = none) (hevent : issuedBy driver frame call = some e)
    (hjit : ∀ image level, call ≠ .moduleLoadJIT image level) (hdefined : call.Defined frame) :
    Stepped driver frame s call frame (s.log e) where
  modules := by simp [hload]
  functions := by simp [hfetch]
  streams := ⟨[], (List.append_nil _).symm⟩
  fetch more := by rw [hfetch, hfetch]
  override := hidle.1
  capture := hidle.2
  issued := by rw [hevent]; rfl
  cached h := h
  jit h := h.resolve_right fun ⟨image, level, heq⟩ => hjit image level heq
  defined := hdefined

theorem streamAt_of_handle {target : Stream} (h : handle streams i = .ok target) :
    streamAt streams i = target := by
  rw [streamAt, List.getD_eq_getElem?_getD, handle_eq_ok.1 h]
  rfl

variable {frame' : Frame}

/-- A launch that does not throw is issued. -/
theorem launch_eq_ok {function stream : ℕ} {grid block : ℤ × ℤ × ℤ} {smem : ℤ} {params : List ℕ}
    (h : (Call.launchKernel function grid block smem stream params).run driver frame s =
      .ok (frame', s')) :
    ∃ found target, handle frame.functions function = .ok found ∧
      handle frame.streams stream = .ok target ∧ (frame', s') = (frame, s.issue target
        (.kernel found (unsigned3 grid) (unsigned3 block) (unsigned smem) params)) := by
  obtain ⟨found, hfound, h⟩ := bind_eq_ok h
  obtain ⟨target, htarget, h⟩ := bind_eq_ok h
  refine ⟨found, target, hfound, htarget, ?_⟩
  -- its sizes may be checked first
  split at h
  · exact (Except.ok.inj (then_eq_ok h)).symm
  · exact (Except.ok.inj h).symm

/-- **A call outside of a capture.** -/
theorem run_plain (hidle : s.Idle) (hresident : call.Resident driver)
    (h : call.run driver frame s = .ok (frame', s')) :
    Stepped driver frame s call frame' s' := by
  have ⟨hoverride, hcapture⟩ := hidle
  cases call with
  | moduleLoad image =>
    simp only [Call.run, hcapture, isSome_none, false_eq_true, false_and, if_false,
      Except.ok.injEq, Prod.mk.injEq] at h
    obtain ⟨rfl, rfl⟩ := h
    exact ⟨rfl, by simp [Call.fetch?], ⟨[], by simp⟩, fun _ => rfl, hoverride, hcapture,
      by simp [issuedBy, Call.event, Call.work], id, by simp, trivial⟩
  | moduleLoadJIT image level =>
    simp only [Call.run, hoverride, hcapture, isSome_none, false_eq_true, false_and,
      if_false, Except.ok.injEq, Prod.mk.injEq] at h
    obtain ⟨rfl, rfl⟩ := h
    exact ⟨rfl, by simp [Call.fetch?], ⟨[], by simp⟩, fun _ => rfl, rfl, rfl,
      by simp [issuedBy, Call.event, Call.work], id, fun _ => rfl, trivial⟩
  | moduleUnload module =>
    replace h := then_eq_ok h
    cases h
    exact .quiet rfl (fun _ => rfl) (fun _ => rfl) hoverride hcapture rfl rfl nofun trivial
  | streamSynchronize stream =>
    obtain ⟨target, hstream, h⟩ := bind_eq_ok h
    rw [synchronize_plain hcapture] at h
    cases h
    refine .log hidle rfl (fun _ => rfl) ?_ nofun (handle_lt hstream)
    simp [issuedBy, Call.event, Event.onStreams, streamAt_of_handle hstream]
  | moduleGetFunction module name =>
    obtain ⟨found, hfound, h⟩ := bind_eq_ok h
    have hfound := handle_eq_ok.1 hfound
    simp only [hoverride, isSome_none, false_eq_true, false_and,
      if_false, Except.ok.injEq, Prod.mk.injEq] at h
    obtain ⟨rfl, rfl⟩ := h
    have hlt := (List.getElem?_eq_some_iff.1 hfound).1
    exact ⟨by simp [Call.load?], by simp [Call.fetch?, hfound], ⟨[], by simp⟩,
      fun more => by simp [Call.fetch?, List.getElem?_append_left hlt],
      rfl, hcapture, by simp [issuedBy, Call.event, Call.work], fun _ => by simp, by simp, hlt⟩
  | launchKernel function grid block smem stream params =>
    obtain ⟨found, target, hfound, hstream, h⟩ := launch_eq_ok h
    rw [issue_plain hcapture] at h
    cases h
    refine .log hidle rfl (fun _ => rfl) ?_ nofun ⟨handle_lt hfound, handle_lt hstream⟩
    simp [issuedBy, Call.event, Call.work, Call.target, Event.onStreams, handle_eq_ok.1 hfound,
      streamAt_of_handle hstream]
  | streamCreate =>
    simp only [Call.run, hoverride, Except.ok.injEq, Prod.mk.injEq] at h
    obtain ⟨rfl, rfl⟩ := h
    exact ⟨by simp [Call.load?], by simp [Call.fetch?], ⟨_, rfl⟩, fun _ => rfl, rfl,
      hcapture, by simp [issuedBy, Call.event, Call.work], id, by simp, trivial⟩
  | streamDestroy stream =>
    obtain ⟨target, -, h⟩ := bind_eq_ok h
    simp only [hoverride, reduceCtorEq, if_false] at h
    cases target with
    | pooled name =>
      obtain ⟨streams, -, h⟩ := bind_eq_ok h
      cases h
      exact .quiet rfl (fun _ => rfl) (fun _ => rfl) rfl hcapture rfl rfl nofun trivial
    | null | graph =>
      cases h
      exact .quiet rfl (fun _ => rfl) (fun _ => rfl) hoverride hcapture rfl rfl nofun trivial
  | memAlloc => exact hresident.elim
  | memFree ptr stream =>
    replace h := then_eq_ok h
    simp only [hoverride, isSome_none, false_eq_true, if_false] at h
    split at h
    · cases h
      exact .quiet rfl (fun _ => rfl) (fun _ => rfl) hoverride hcapture rfl rfl nofun trivial
    · obtain ⟨_, -, h⟩ := bind_eq_ok h
      cases h
      exact .quiet rfl (fun _ => rfl) (fun _ => rfl) rfl hcapture rfl rfl nofun trivial
  | memcpy dst src sizeBytes stream =>
    obtain ⟨target, hstream, h⟩ := bind_eq_ok h
    obtain ⟨hdst, hsrc⟩ := hresident
    have hkind : copyKind driver dst src = some .dtoD := by
      simp [copyKind, hdst, hsrc]
    by_cases hempty : sizeBytes = 0 ∨ dst = src
    · rw [if_pos hempty] at h
      cases h
      exact .quiet rfl (fun _ => rfl) (fun _ => by simp [Call.event, Call.work, hempty]) hoverride
        hcapture rfl rfl nofun (handle_lt hstream)
    · rw [if_neg hempty, hkind] at h
      simp only [issue_plain hcapture] at h
      cases h
      refine .log hidle rfl (fun _ => rfl) ?_ nofun (handle_lt hstream)
      simp [issuedBy, Call.event, Call.work, Call.target, Event.onStreams, hempty, hkind,
        streamAt_of_handle hstream]
  | memset32 dst value count stream | memset16 dst value count stream =>
    obtain ⟨target, hstream, h⟩ := bind_eq_ok h
    rw [issue_plain hcapture] at h
    cases h
    refine .log hidle rfl (fun _ => rfl) ?_ nofun (handle_lt hstream)
    simp [issuedBy, Call.event, Call.work, Call.target, Event.onStreams, streamAt_of_handle hstream]

theorem filterMap_cons_toList {α β : Type} (f : α → Option β) (a : α) (l : List α) :
    (a :: l).filterMap f = (f a).toList ++ l.filterMap f := by
  cases h : f a <;> simp [h]

/-- What host code does outside of a capture. -/
structure Invoked (driver : Driver) (frame : Frame) (s : State) (program : List Call)
    (frame' : Frame) (s' : State) : Prop where
  modules : frame'.modules = frame.modules ++ loads program
  functions : frame'.functions = frame.functions ++ program.filterMap (Call.fetch? frame'.modules)
  streams : ∃ opened, frame'.streams = frame.streams ++ opened
  override : s'.captureStreamOverride = none
  capture : s'.capture = none
  issued : s'.issued = s.issued ++ program.filterMap (issuedBy driver frame')
  cached : s.cache.function = frame.functions.getLast? →
    s'.cache.function = frame'.functions.getLast?
  jit : (s.cache.module.isSome ∨ ∃ image level, .moduleLoadJIT image level ∈ program) →
    s'.cache.module.isSome
  defined : ∀ call ∈ program, call.Defined frame'

theorem Call.Defined.mono (h : call.Defined frame)
    (hmodules : frame.modules.length ≤ frame'.modules.length)
    (hfunctions : frame.functions.length ≤ frame'.functions.length)
    (hstreams : frame.streams.length ≤ frame'.streams.length) : call.Defined frame' := by
  cases call with
  | moduleGetFunction module name => exact Nat.lt_of_lt_of_le h hmodules
  | launchKernel function grid block smem stream params =>
    exact ⟨Nat.lt_of_lt_of_le h.1 hfunctions, Nat.lt_of_lt_of_le h.2 hstreams⟩
  | memcpy | memset32 | memset16 | streamSynchronize => exact Nat.lt_of_lt_of_le h hstreams
  | _ => trivial

variable {program : List Call} {frame₁ : Frame}

theorem Stepped.cons {s₁ : State} (h : Stepped driver frame s call frame₁ s₁)
    (hrest : Invoked driver frame₁ s₁ program frame' s') :
    Invoked driver frame s (call :: program) frame' s' := by
  have hmodules : frame'.modules = frame.modules ++ (call.load?.toList ++ loads program) := by
    rw [hrest.modules, h.modules, append_assoc]
  have hfetch : call.fetch? frame'.modules = call.fetch? frame.modules := by
    rw [hmodules, h.fetch]
  have hfunctions : frame'.functions = frame.functions ++ ((call.fetch? frame.modules).toList ++
      program.filterMap (Call.fetch? frame'.modules)) := by
    rw [hrest.functions, h.functions, append_assoc]
  obtain ⟨opened, hopened⟩ := h.streams
  obtain ⟨more, hmore⟩ := hrest.streams
  have hstreams : frame'.streams = frame.streams ++ (opened ++ more) := by
    rw [hmore, hopened, append_assoc]
  have hevent : issuedBy driver frame' call = issuedBy driver frame call :=
    h.defined.issuedBy_append hfunctions hstreams
  exact {
    modules := by rw [hmodules, loads, loads, filterMap_cons_toList]
    functions := by rw [filterMap_cons_toList, hfetch, ← hfunctions]
    streams := ⟨opened ++ more, hstreams⟩
    override := hrest.override
    capture := hrest.capture
    issued := by rw [hrest.issued, h.issued, filterMap_cons_toList, hevent, append_assoc]
    cached := fun hc => hrest.cached (h.cached hc)
    jit := by
      rintro (hsome | ⟨image, level, hmem⟩)
      · exact hrest.jit (.inl (h.jit (.inl hsome)))
      · rcases mem_cons.1 hmem with heq | hmem
        · exact hrest.jit (.inl (h.jit (.inr ⟨image, level, heq.symm⟩)))
        · exact hrest.jit (.inr ⟨image, level, hmem⟩)
    defined := fun c hc => by
      rcases mem_cons.1 hc with rfl | hc
      · exact h.defined.mono (by simp [hmodules]) (by simp [hfunctions]) (by simp [hstreams])
      · exact hrest.defined c hc }

/-- **Host code outside of a capture.** -/
theorem runFrom_plain (hidle : s.Idle) (hresident : ∀ call ∈ program, call.Resident driver)
    (h : runFrom driver frame s program = .ok (frame', s')) :
    Invoked driver frame s program frame' s' := by
  induction program generalizing frame s with
  | nil =>
    cases h
    exact ⟨by simp [loads], by simp, ⟨[], by simp⟩, hidle.1, hidle.2, by simp, id, by simp, nofun⟩
  | cons call program ih =>
    obtain ⟨⟨frame₁, s₁⟩, hcall, hrest⟩ := bind_eq_ok h
    have hstep := run_plain hidle (hresident call mem_cons_self) hcall
    exact hstep.cons (ih ⟨hstep.override, hstep.capture⟩
      (fun c hc => hresident c (mem_cons_of_mem _ hc)) hrest)

theorem issue_recache (s : State) (cache : CaptureModuleCache) (stream : Stream) (work : Work) :
    State.issue { s with cache } stream work = { s.issue stream work with cache := cache } := by
  obtain ⟨_, _, _, _, capture, _⟩ := s
  cases capture with
  | none => rfl
  | some works =>
    simp only [State.issue]
    split <;> rfl

theorem synchronize_recache (s : State) (cache : CaptureModuleCache) (stream : Stream) :
    State.synchronize { s with cache } stream = { s.synchronize stream with cache := cache } := by
  unfold State.synchronize
  split <;> rfl

/-- Outside of an override a call does not read the cache. -/
theorem run_recache (hoverride : s.captureStreamOverride = none) (hresident : call.Resident driver)
    (cache : CaptureModuleCache) : ∃ cache', call.run driver frame { s with cache } =
      (call.run driver frame s).map fun r => (r.1, { r.2 with cache := cache' }) := by
  cases call with
  | moduleLoadJIT image level =>
    refine ⟨{ cache with module := some ⟨image, some level⟩ }, ?_⟩
    simp only [Call.run, hoverride, isSome_none, false_eq_true, false_and, if_false]
    split <;> rfl
  | moduleGetFunction module name =>
    simp only [Call.run, hoverride, isSome_none, false_eq_true, false_and, if_false]
    cases handle frame.modules module with
    | error message => exact ⟨cache, rfl⟩
    | ok found => exact ⟨{ cache with function := some ⟨found, name⟩ }, rfl⟩
  | moduleLoad image =>
    refine ⟨cache, ?_⟩
    simp only [Call.run]
    split <;> rfl
  | moduleUnload module =>
    refine ⟨cache, ?_⟩
    simp only [Call.run]
    cases handle frame.modules module <;> rfl
  | launchKernel function grid block smem stream params =>
    refine ⟨cache, ?_⟩
    simp only [Call.run, issue_recache]
    cases handle frame.functions function <;> cases handle frame.streams stream <;> try rfl
    simp only [ok_bind]
    split
    · cases validateLaunch grid block smem <;> rfl
    · rfl
  | streamCreate =>
    refine ⟨cache, ?_⟩
    simp only [Call.run, hoverride]
    rfl
  | streamDestroy stream =>
    obtain ⟨override⟩ := s
    cases (hoverride : override = none)
    refine ⟨cache, ?_⟩
    simp only [Call.run, reduceCtorEq, if_false]
    cases handle frame.streams stream with
    | error message => rfl
    | ok target =>
      cases target with
      | pooled name =>
        simp only [ok_bind]
        cases StreamPool.release _ name <;> rfl
      | null | graph => rfl
  | memAlloc => exact hresident.elim
  | memFree ptr stream =>
    obtain ⟨override⟩ := s
    cases (hoverride : override = none)
    refine ⟨cache, ?_⟩
    simp only [Call.run, isSome_none, false_eq_true, if_false]
    cases handle frame.streams stream with
    | error message => rfl
    | ok target =>
      simp only [ok_bind]
      split
      · rfl
      · cases MemoryPool.Pool.releaseLocked _ ptr none <;> rfl
  | memcpy dst src sizeBytes stream =>
    refine ⟨cache, ?_⟩
    simp only [Call.run, copyKind, hresident.1, hresident.2, issue_recache]
    cases handle frame.streams stream with
    | error message => rfl
    | ok target =>
      simp only [ok_bind]
      split <;> rfl
  | streamSynchronize stream | memset32 dst value count stream | memset16 dst value count stream =>
    refine ⟨cache, ?_⟩
    simp only [Call.run, issue_recache, synchronize_recache]
    cases handle frame.streams stream <;> rfl

theorem runFrom_cons {s₁ : State} (h : call.run driver frame s = .ok (frame₁, s₁))
    (program : List Call) :
    runFrom driver frame s (call :: program) = runFrom driver frame₁ s₁ program := by
  rw [runFrom, h, ok_bind]

/-- Outside of a capture host code does not read the cache. -/
theorem runFrom_recache (hidle : s.Idle) (hresident : ∀ call ∈ program, call.Resident driver)
    (h : runFrom driver frame s program = .ok (frame', s')) (cache : CaptureModuleCache) :
    ∃ cache', runFrom driver frame { s with cache } program =
      .ok (frame', { s' with cache := cache' }) := by
  induction program generalizing frame s cache with
  | nil =>
    cases h
    exact ⟨cache, rfl⟩
  | cons call program ih =>
    obtain ⟨⟨frame₁, s₁⟩, hcall, hrest⟩ := bind_eq_ok h
    have hstep := run_plain hidle (hresident call mem_cons_self) hcall
    obtain ⟨cache₁, hcall'⟩ := run_recache hidle.1 (hresident call mem_cons_self) cache
    rw [hcall] at hcall'
    obtain ⟨cache', hrest'⟩ := ih ⟨hstep.override, hstep.capture⟩
      (fun c hc => hresident c (mem_cons_of_mem _ hc)) hrest cache₁
    exact ⟨cache', (runFrom_cons hcall' program).trans hrest'⟩

/-- Work with another function. -/
def Work.mapFunction (f : Function → Function) : Work → Work
  | kernel function grid block smem params => .kernel (f function) grid block smem params
  | work => work

theorem Call.work_map (call : Call) (functions : List Function) (f : Function → Function) :
    call.work driver (functions.map f) = (call.work driver functions).map (Work.mapFunction f) := by
  cases call with
  | launchKernel function grid block smem stream params =>
    simp [Call.work, Function.comp_def, Work.mapFunction]
  | memcpy dst src sizeBytes stream =>
    by_cases hempty : sizeBytes = 0 ∨ dst = src
    · simp [Call.work, hempty]
    · simp [Call.work, hempty, Function.comp_def, Work.mapFunction]
  | _ => rfl

/-- What a lookup of a function answers in a capture. -/
def answer (cached : Option Function) (function : Function) : Function := cached.getD function

/-- The handles of a capture beside those of an execution. -/
structure Shadow (cached : Option Function) (frame gframe : Frame) : Prop where
  modules : gframe.modules.length = frame.modules.length
  functions : gframe.functions = frame.functions.map (answer cached)
  streams : gframe.streams = frame.streams.map fun _ => .graph

/-- The graph stream is captured. -/
structure Capturing (g : State) (cached : Option Function) (works : List Work) : Prop where
  override : g.captureStreamOverride = some .graph
  active : g.cache.active = true
  function : g.cache.function = cached
  capture : g.capture = some works

/-- The warm-up has prepared a call: a lookup finds what it needs in the cache, and a module that
is not cached can be loaded. -/
structure Ready (driver : Driver) (g : State) (cached : Option Function)
    (call : Call) : Prop where
  load : ∀ image, call = .moduleLoad image → driver.loadsInCapture = true
  jit : ∀ image level, call = .moduleLoadJIT image level → g.cache.module.isSome
  fetch : ∀ module name, call = .moduleGetFunction module name → cached.isSome

variable {cached : Option Function} {works : List Work} {g : State}

theorem Capturing.push (h : Capturing g cached works) (more : List Work) :
    Capturing { g with capture := some (works ++ more) } cached (works ++ more) :=
  ⟨h.override, h.active, h.function, rfl⟩

variable {gframe : Frame}

theorem Capturing.quiet (h : Capturing g cached works) {gframe' : Frame}
    (hrun : call.run driver gframe g = .ok (gframe', g)) (hwork : call.work driver functions = none)
    (hshadow : Shadow cached frame' gframe') :
    ∃ gframe', call.run driver gframe g = .ok (gframe',
        { g with capture := some (works ++ (call.work driver functions).toList) }) ∧
      Shadow cached frame' gframe' := by
  have hself : { g with capture := some (works ++ []) } = g := by
    rw [List.append_nil, ← h.capture]
  refine ⟨gframe', ?_, hshadow⟩
  rw [hwork, Option.toList_none, hself]
  exact hrun

theorem Capturing.issue (h : Capturing g cached works) (work : Work) :
    g.issue .graph work = { g with capture := some (works ++ [work]) } := by
  unfold State.issue
  rw [h.capture]
  rfl

theorem Shadow.stream (h : Shadow cached frame gframe) {stream : Stream}
    (hi : handle frame.streams i = .ok stream) : handle gframe.streams i = .ok .graph := by
  rw [handle_eq_ok] at hi ⊢
  rw [h.streams, List.getElem?_map, hi]
  rfl

theorem Shadow.module (h : Shadow cached frame gframe) {module : Module}
    (hi : handle frame.modules i = .ok module) : ∃ found, handle gframe.modules i = .ok found := by
  rw [handle_eq_ok] at hi
  have hlt : i < gframe.modules.length := by
    rw [h.modules]
    exact (List.getElem?_eq_some_iff.1 hi).1
  exact ⟨gframe.modules[i], handle_eq_ok.2 (List.getElem?_eq_getElem hlt)⟩

/-- **A call in a capture** issues its work to the graph stream, with the function of the cache. -/
theorem run_captured (hidle : s.Idle) (hresident : call.Resident driver)
    (h : call.run driver frame s = .ok (frame', s')) (hshadow : Shadow cached frame gframe)
    (hg : Capturing g cached works) (hready : Ready driver g cached call) :
    ∃ gframe', call.run driver gframe g = .ok (gframe',
        { g with capture := some (works ++
          ((call.work driver frame.functions).map (Work.mapFunction (answer cached))).toList) }) ∧
      Shadow cached frame' gframe' := by
  have ⟨hoverride, hcapture⟩ := hidle
  rw [← Call.work_map]
  cases call with
  | moduleLoad image =>
    simp only [Call.run, hcapture, isSome_none, false_eq_true, false_and, if_false,
      Except.ok.injEq, Prod.mk.injEq] at h
    obtain ⟨rfl, -⟩ := h
    refine hg.quiet (by simp [Call.run, hready.load image rfl]; rfl) rfl ?_
    exact ⟨by simp [hshadow.modules], hshadow.functions, hshadow.streams⟩
  | moduleLoadJIT image level =>
    simp only [Call.run, hoverride, hcapture, isSome_none, false_eq_true, false_and,
      if_false, Except.ok.injEq, Prod.mk.injEq] at h
    obtain ⟨rfl, -⟩ := h
    obtain ⟨module, hmodule⟩ := Option.isSome_iff_exists.1 (hready.jit image level rfl)
    refine hg.quiet (by simp [Call.run, hg.override, hg.active, hmodule]; rfl) rfl ?_
    exact ⟨by simp [hshadow.modules], hshadow.functions, hshadow.streams⟩
  | moduleUnload module =>
    obtain ⟨_, hmodule, h⟩ := bind_eq_ok h
    cases h
    obtain ⟨_, hfound⟩ := hshadow.module hmodule
    exact hg.quiet (by simp [Call.run, hfound, ok_bind]) rfl hshadow
  | moduleGetFunction module name =>
    obtain ⟨found, hmodule, h⟩ := bind_eq_ok h
    obtain ⟨_, hfound⟩ := hshadow.module hmodule
    simp only [hoverride, isSome_none, false_eq_true, false_and,
      if_false, Except.ok.injEq, Prod.mk.injEq] at h
    obtain ⟨rfl, -⟩ := h
    obtain ⟨function, hfunction⟩ := Option.isSome_iff_exists.1 (hready.fetch module name rfl)
    have hcache := hg.function
    rw [hfunction] at hcache
    refine hg.quiet
      (by simp [Call.run, hfound, ok_bind, hg.override, hg.active, hcache]; rfl) rfl ?_
    exact ⟨hshadow.modules, by simp [hshadow.functions, answer, hfunction], hshadow.streams⟩
  | launchKernel function grid block smem stream params =>
    obtain ⟨found, hfunction, h⟩ := bind_eq_ok h
    obtain ⟨target, hstream, h⟩ := bind_eq_ok h
    have hfound : handle gframe.functions function = .ok (answer cached found) := by
      rw [handle_eq_ok] at hfunction ⊢
      simp [hshadow.functions, hfunction]
    have hwork : Call.work driver (frame.functions.map (answer cached))
        (.launchKernel function grid block smem stream params) =
        some (.kernel (answer cached found) (unsigned3 grid) (unsigned3 block) (unsigned smem)
          params) := by
      rw [← hshadow.functions]
      simp [Call.work, handle_eq_ok.1 hfound]
    rw [hwork]
    refine ⟨gframe, ?_, ?_⟩
    · simp only [Call.run, hfound, hshadow.stream hstream, ok_bind, hg.issue]
      split at h
      · rename_i hvalidate
        obtain ⟨_, hvalid, -⟩ := bind_eq_ok h
        rw [if_pos hvalidate, hvalid]
        rfl
      · rename_i hvalidate
        rw [if_neg hvalidate]
        rfl
    · split at h
      · replace h := then_eq_ok h
        cases h
        exact hshadow
      · cases h
        exact hshadow
  | streamCreate =>
    simp only [Call.run, hoverride, Except.ok.injEq, Prod.mk.injEq] at h
    obtain ⟨rfl, -⟩ := h
    refine hg.quiet (by simp [Call.run, hg.override]; rfl) rfl ?_
    exact ⟨hshadow.modules, hshadow.functions, by simp [hshadow.streams]⟩
  | streamDestroy stream =>
    obtain ⟨target, hstream, h⟩ := bind_eq_ok h
    simp only [hoverride, reduceCtorEq, if_false] at h
    refine hg.quiet (by simp [Call.run, hshadow.stream hstream, ok_bind, hg.override]; rfl)
      rfl ?_
    cases target with
    | pooled name =>
      obtain ⟨_, -, h⟩ := bind_eq_ok h
      cases h
      exact hshadow
    | null =>
      cases h
      exact hshadow
    | graph =>
      cases h
      exact hshadow
  | streamSynchronize stream =>
    obtain ⟨_, hstream, h⟩ := bind_eq_ok h
    cases h
    -- a stream that is captured is not waited for
    have hskip : g.synchronize .graph = g := by simp [State.synchronize, hg.capture]
    exact hg.quiet (by simp [Call.run, hshadow.stream hstream, ok_bind, hskip]) rfl hshadow
  | memAlloc => exact hresident.elim
  | memFree ptr stream =>
    obtain ⟨_, hstream, h⟩ := bind_eq_ok h
    refine hg.quiet (by simp [Call.run, hshadow.stream hstream, ok_bind, hg.override]; rfl)
      rfl ?_
    simp only [hoverride, isSome_none, false_eq_true, if_false] at h
    split at h
    · cases h
      exact hshadow
    · obtain ⟨_, -, h⟩ := bind_eq_ok h
      cases h
      exact hshadow
  | memcpy dst src sizeBytes stream =>
    obtain ⟨target, hstream, h⟩ := bind_eq_ok h
    obtain ⟨hdst, hsrc⟩ := hresident
    have hkind : copyKind driver dst src = some .dtoD := by
      simp [copyKind, hdst, hsrc]
    by_cases hempty : sizeBytes = 0 ∨ dst = src
    · rw [if_pos hempty] at h
      cases h
      exact hg.quiet (by simp [Call.run, hshadow.stream hstream, ok_bind, hempty])
        (if_pos hempty) hshadow
    · rw [if_neg hempty, hkind] at h
      cases h
      exact ⟨gframe, by simp [Call.run, hshadow.stream hstream, ok_bind, hempty, Call.work,
        hkind, hg.issue], hshadow⟩
  | memset32 dst value count stream | memset16 dst value count stream =>
    obtain ⟨target, hstream, h⟩ := bind_eq_ok h
    cases h
    exact ⟨gframe, by simp [Call.run, hshadow.stream hstream, ok_bind, Call.work, hg.issue],
      hshadow⟩

/-- **Host code in a capture.** -/
theorem runFrom_captured (hidle : s.Idle) (hresident : ∀ call ∈ program, call.Resident driver)
    (h : runFrom driver frame s program = .ok (frame', s')) (hshadow : Shadow cached frame gframe)
    (hg : Capturing g cached works)
    (hready : ∀ call ∈ program, Ready driver g cached call) :
    ∃ gframe', runFrom driver gframe g program = .ok (gframe',
      { g with capture := some (works ++
        (program.filterMap (Call.work driver frame'.functions)).map
          (Work.mapFunction (answer cached))) }) := by
  induction program generalizing frame gframe s g works with
  | nil => exact ⟨gframe, by simp [runFrom, ← hg.capture]⟩
  | cons call program ih =>
    obtain ⟨⟨frame₁, s₁⟩, hcall, hrest⟩ := bind_eq_ok h
    have hresident' : ∀ c ∈ program, c.Resident driver := fun c hc =>
      hresident c (mem_cons_of_mem _ hc)
    have hstep := run_plain hidle (hresident call mem_cons_self) hcall
    have hidle₁ : s₁.Idle := ⟨hstep.override, hstep.capture⟩
    have hinvoked := runFrom_plain hidle₁ hresident' hrest
    have hwork : call.work driver frame'.functions = call.work driver frame.functions := by
      rw [hinvoked.functions, hstep.functions, append_assoc]
      exact hstep.defined.work_append _
    obtain ⟨gframe₁, hgcall, hshadow₁⟩ := run_captured hidle (hresident call mem_cons_self) hcall
      hshadow hg (hready call mem_cons_self)
    obtain ⟨gframe', hgrest⟩ := ih hidle₁ hresident' hrest hshadow₁
      (hg.push ((call.work driver frame.functions).map
        (Work.mapFunction (answer cached))).toList) fun c hc => ⟨(hready c (mem_cons_of_mem _ hc)).load,
        (hready c (mem_cons_of_mem _ hc)).jit, (hready c (mem_cons_of_mem _ hc)).fetch⟩
    refine ⟨gframe', ?_⟩
    rw [runFrom_cons hgcall, hgrest, filterMap_cons_toList, hwork, List.map_append,
      append_assoc]
    cases call.work driver frame.functions <;> rfl

/-- Where no module can be loaded in a capture, host code that calls `mgpuModuleLoad` cannot be
captured. -/
theorem runFrom_load (hidle : s.Idle) (hresident : ∀ call ∈ program, call.Resident driver)
    (h : runFrom driver frame s program = .ok (frame', s')) (hloads : driver.loadsInCapture = false)
    (hshadow : Shadow cached frame gframe) (hg : Capturing g cached works)
    (hready : ∀ call ∈ program, (∀ image, call ≠ .moduleLoad image) → Ready driver g cached call)
    (hmem : ∃ image, .moduleLoad image ∈ program) (result : Frame × State) :
    runFrom driver gframe g program ≠ .ok result := by
  induction program generalizing frame gframe s g works with
  | nil =>
    obtain ⟨_, hmem⟩ := hmem
    cases hmem
  | cons call program ih =>
    intro hrun
    obtain ⟨⟨frame₁, s₁⟩, hcall, hrest⟩ := bind_eq_ok h
    have hhere := hresident call mem_cons_self
    by_cases hload : ∃ image, call = .moduleLoad image
    · -- the load itself fails
      obtain ⟨image, rfl⟩ := hload
      obtain ⟨_, hfails, -⟩ := bind_eq_ok hrun
      simp [Call.run, hg.capture, hloads] at hfails
    · have hother : ∀ image, call ≠ .moduleLoad image := fun image he => hload ⟨image, he⟩
      have hstep := run_plain hidle hhere hcall
      obtain ⟨gframe₁, hgcall, hshadow₁⟩ := run_captured hidle hhere hcall hshadow hg
        (hready call mem_cons_self hother)
      rw [runFrom_cons hgcall] at hrun
      obtain ⟨image, hmem⟩ := hmem
      have hmem : .moduleLoad image ∈ program :=
        (mem_cons.1 hmem).resolve_left fun he => hother image he.symm
      refine ih ⟨hstep.override, hstep.capture⟩ (fun c hc => hresident c (mem_cons_of_mem _ hc)) hrest
        hshadow₁ (hg.push _) (fun c hc hne => ?_) ⟨image, hmem⟩ hrun
      have hold := hready c (mem_cons_of_mem _ hc) hne
      exact ⟨hold.load, hold.jit, hold.fetch⟩

end Matcore.Gpu.GraphMode
