import Matcore.Gpu.OutputZeroing
import Matcore.Proof.GraphCapture

/-!
# When output zeroing is ordered

A launch is ordered if and only if no kernel accesses an output that is zeroed on the device.
-/

namespace Matcore.Gpu.OutputZeroing

open List (append_nil mem_singleton mem_append mem_of_getElem? mem_cons_self)
open Except (bind_eq_ok then_eq_ok)
open GraphMode
open StreamOrder (Event)

variable {driver : Driver} {frame frame' : Frame} {s s' : State}
  {call : Call}

/-- An event that neither is on the null stream nor waits for it, and zeroes nothing. -/
def OffNull : Event Stream Op → Prop
  | .work stream (.work _) => stream ≠ .null
  | .host (.memcpy _ _ _) => True
  | .synchronize stream => stream ≠ .null
  | _ => False

/-- No handle of an invocation is the null stream. -/
structure Handles (frame : Frame) (s : State) : Prop where
  override : s.captureStreamOverride ≠ some .null
  streams : .null ∉ frame.streams

theorem issue_override (s : State) (stream : Stream) (work : Work) :
    (s.issue stream work).captureStreamOverride = s.captureStreamOverride := by
  unfold State.issue
  cases s.capture with
  | none => rfl
  | some works =>
    simp only
    split <;> rfl

theorem synchronize_override (s : State) (stream : Stream) :
    (s.synchronize stream).captureStreamOverride = s.captureStreamOverride := by
  unfold State.synchronize
  split <;> rfl

/-- The operation that is logged. -/
def Op.operation : Op → Operation
  | .zero ptr width count => .memset ptr (width * count)
  | .work w => .work w
  | .memcpy dst src sizeBytes => .memcpy dst src sizeBytes

def logged : Event Stream Op → Event Stream Operation
  | .work stream op => .work stream op.operation
  | .host op => .host op.operation
  | .synchronize stream => .synchronize stream

/-- What a call does: outside of a capture it logs its events, and it opens streams at most. -/
structure Ran (driver : Driver) (frame : Frame) (s : State) (call : Call) (frame' : Frame)
    (s' : State) : Prop where
  override : s'.captureStreamOverride = s.captureStreamOverride
  streams : ∃ opened, frame'.streams = frame.streams ++ opened ∧
    ∀ stream ∈ opened, s.captureStreamOverride = some stream ∨ stream ≠ .null
  issued : s.capture = none → s'.capture = none ∧
    s'.issued = s.issued ++ (callEvents driver frame s call).map logged

theorem Ran.still (hoverride : s'.captureStreamOverride = s.captureStreamOverride)
    (hcapture : s'.capture = s.capture) (hissued : s'.issued = s.issued)
    (hevents : callEvents driver frame s call = [])
    (hstreams : frame'.streams = frame.streams) : Ran driver frame s call frame' s' :=
  ⟨hoverride, ⟨[], hstreams.trans (append_nil _).symm, nofun⟩, fun h =>
    ⟨hcapture.trans h, by rw [hevents, hissued]; exact (append_nil _).symm⟩⟩

theorem Ran.event (e : Event Stream Op) (hoverride : s'.captureStreamOverride = s.captureStreamOverride)
    (hissued : s.capture = none → callEvents driver frame s call = [e] ∧ s' = s.log (logged e)) :
    Ran driver frame s call frame s' := by
  refine ⟨hoverride, ⟨[], (append_nil _).symm, nofun⟩, fun h => ?_⟩
  obtain ⟨hevents, rfl⟩ := hissued h
  exact ⟨h, by rw [hevents]; rfl⟩

theorem run_cases (hrun : call.run driver frame s = .ok (frame', s')) :
    Ran driver frame s call frame' s' := by
  cases call with
  | moduleLoad image =>
    simp only [Call.run] at hrun
    split at hrun
    · cases hrun
    · cases hrun
      exact .still rfl rfl rfl rfl rfl
  | moduleLoadJIT image level =>
    simp only [Call.run] at hrun
    split at hrun
    · cases hrun
      exact .still rfl rfl rfl rfl rfl
    · split at hrun
      · cases hrun
      · cases hrun
        exact .still rfl rfl rfl rfl rfl
  | moduleUnload module =>
    replace hrun := then_eq_ok hrun
    cases hrun
    exact .still rfl rfl rfl rfl rfl
  | moduleGetFunction module name =>
    obtain ⟨found, -, hrun⟩ := bind_eq_ok hrun
    simp only at hrun
    split at hrun
    · cases hrun
      exact .still rfl rfl rfl rfl rfl
    · cases hrun
      exact .still rfl rfl rfl rfl rfl
  | launchKernel function grid block smem stream params =>
    obtain ⟨found, target, hfound, htarget, hissue⟩ := launch_eq_ok hrun
    cases hissue
    refine .event (.work target (.work _)) (issue_override ..)
      fun hcapture => ⟨?_, issue_plain hcapture ..⟩
    simp only [callEvents, handle_eq_ok.1 hfound, handle_eq_ok.1 htarget]
  | streamCreate =>
    simp only [Call.run] at hrun
    split at hrun
    · rename_i stream hoverride
      -- under an override the stream given out is the override itself
      cases hrun
      refine ⟨rfl, ⟨[stream], rfl, fun other hmem => ?_⟩, fun h => ⟨h, (append_nil _).symm⟩⟩
      rw [mem_singleton.1 hmem]
      exact Or.inl hoverride
    · cases hrun
      refine ⟨rfl, ⟨_, rfl, fun other hmem => ?_⟩, fun h => ⟨h, (append_nil _).symm⟩⟩
      rw [mem_singleton.1 hmem]
      exact Or.inr (by simp)
  | streamDestroy stream =>
    obtain ⟨target, -, hrun⟩ := bind_eq_ok hrun
    split at hrun
    · cases hrun
      exact .still rfl rfl rfl rfl rfl
    · cases target with
      | pooled name =>
        obtain ⟨streams, -, hrun⟩ := bind_eq_ok hrun
        cases hrun
        exact .still rfl rfl rfl rfl rfl
      | null | graph =>
        cases hrun
        exact .still rfl rfl rfl rfl rfl
  | streamSynchronize stream =>
    obtain ⟨target, htarget, hrun⟩ := bind_eq_ok hrun
    cases hrun
    refine .event (.synchronize target) (synchronize_override ..)
      fun hcapture => ⟨?_, synchronize_plain hcapture _⟩
    simp [callEvents, handle_eq_ok.1 htarget, hcapture]
  | memAlloc sizeBytes stream isHostShared =>
    replace hrun := then_eq_ok hrun
    split at hrun
    · cases hrun
    · split at hrun
      · cases hrun
        exact .still rfl rfl rfl rfl rfl
      · split at hrun
        · cases hrun
        · cases hrun
          exact .still rfl rfl rfl rfl rfl
  | memFree ptr stream =>
    replace hrun := then_eq_ok hrun
    split at hrun
    · cases hrun
      exact .still rfl rfl rfl rfl rfl
    · split at hrun
      · cases hrun
        exact .still rfl rfl rfl rfl rfl
      · obtain ⟨_, -, hrun⟩ := bind_eq_ok hrun
        cases hrun
        exact .still rfl rfl rfl rfl rfl
  | memcpy dst src sizeBytes stream =>
    obtain ⟨target, htarget, hrun⟩ := bind_eq_ok hrun
    have htarget := handle_eq_ok.1 htarget
    by_cases hempty : sizeBytes = 0 ∨ dst = src
    · rw [if_pos hempty] at hrun
      cases hrun
      refine .still rfl rfl rfl ?_ rfl
      simp only [callEvents, htarget, if_pos hempty]
    · rw [if_neg hempty] at hrun
      cases hkind : copyKind driver dst src with
      | some kind =>
        rw [hkind] at hrun
        cases hrun
        refine .event (.work target (.work _)) (issue_override ..)
          fun hcapture => ⟨?_, issue_plain hcapture ..⟩
        simp only [callEvents, htarget, if_neg hempty, hkind]
      | none =>
        rw [hkind] at hrun
        cases hrun
        refine .event (.host (.memcpy ..)) rfl fun _ => ⟨?_, rfl⟩
        simp only [callEvents, htarget, if_neg hempty, hkind]
  | memset32 dst value count stream | memset16 dst value count stream =>
    obtain ⟨target, htarget, hrun⟩ := bind_eq_ok hrun
    cases hrun
    refine .event (.work target (.work _)) (issue_override ..)
      fun hcapture => ⟨?_, issue_plain hcapture ..⟩
    simp only [callEvents, handle_eq_ok.1 htarget]

section

variable (h : Handles frame s)

include h

theorem Handles.run (hrun : call.run driver frame s = .ok (frame', s')) :
    Handles frame' s' := by
  obtain ⟨hoverride, ⟨opened, hstreams, hopened⟩, -⟩ := run_cases hrun
  refine ⟨hoverride ▸ h.override, fun hmem => ?_⟩
  rw [hstreams] at hmem
  rcases mem_append.1 hmem with hmem | hmem
  · exact h.streams hmem
  · exact (hopened _ hmem).elim h.override fun hne => hne rfl

theorem Handles.stream {i : ℕ} {stream : Stream}
    (hstream : frame.streams[i]? = some stream) : stream ≠ .null := by
  rintro rfl
  exact h.streams (mem_of_getElem? hstream)

theorem callEvents_offNull :
    ∀ e ∈ callEvents driver frame s call, OffNull e := by
  intro e he
  cases call with
  | launchKernel function grid block smem stream params | memset32 dst value count stream
  | memset16 dst value count stream =>
    simp only [callEvents] at he
    split at he
    · rename_i hstream
      rw [mem_singleton.1 he]
      exact h.stream hstream
    · cases he
  | streamSynchronize stream =>
    simp only [callEvents] at he
    split at he
    · rename_i hstream
      split at he
      · cases he
      · rw [mem_singleton.1 he]
        exact h.stream hstream
    · cases he
  | memcpy dst src sizeBytes stream =>
    simp only [callEvents] at he
    split at he
    · rename_i hstream
      split at he
      · cases he
      · split at he
        · rw [mem_singleton.1 he]
          exact h.stream hstream
        · rw [mem_singleton.1 he]
          trivial
    · cases he
  | _ => cases he

/-- The host code of a kernel issues nothing to the null stream and does not wait for it. -/
theorem programEvents_offNull (program : List Call) :
    ∀ e ∈ programEvents driver frame s program, OffNull e := by
  induction program generalizing frame s with
  | nil => exact nofun
  | cons call program ih =>
    intro e he
    rw [programEvents] at he
    cases hrun : call.run driver frame s with
    | error message =>
      rw [hrun] at he
      cases he
    | ok result =>
      rw [hrun] at he
      rcases mem_append.1 he with he | he
      · exact callEvents_offNull h e he
      · exact ih (h.run hrun) e he

end

/-- **The events of an invocation** are what the thread logs. -/
theorem issued_programEvents {program : List Call} (hcapture : s.capture = none)
    (hrun : runFrom driver frame s program = .ok (frame', s')) :
    s'.issued = s.issued ++ (programEvents driver frame s program).map logged := by
  induction program generalizing frame s with
  | nil =>
    cases hrun
    exact (append_nil _).symm
  | cons call program ih =>
    obtain ⟨⟨frame₁, s₁⟩, hcall, hrest⟩ := bind_eq_ok hrun
    obtain ⟨hcapture₁, hissued⟩ := (run_cases hcall).issued hcapture
    rw [ih hcapture₁ hrest, hissued, programEvents, hcall, List.append_assoc]
    simp only [List.map_append]

/-- The output is zeroed by the device. -/
def OnDevice (out : Output) : Prop :=
  out.isDeviceResident = true ∧ out.data ≠ 0 ∧ out.sizeBytes ≠ 0

/-- What is issued for an output. -/
def Zeroes (out : Output) (e : Event Stream Op) : Prop :=
  e = .host (.zero out.data 1 out.sizeBytes) ∨
    OnDevice out ∧ ∃ width count, e = .work .null (.zero out.data width count)

variable {out : Output} {events : Events}

theorem zeroTensor_zeroes (h : zeroTensor out = .ok events) :
    ∀ e ∈ events, Zeroes out e := by
  intro e he
  unfold zeroTensor at h
  split at h
  · cases h
    cases he
  · rename_i hdata
    split at h
    · rename_i hdevice
      unfold deviceZeroRaw at h
      split at h
      · cases h
        cases he
      · rename_i hempty
        rw [not_or] at hempty
        have hon : OnDevice out := ⟨hdevice, hempty.1, hempty.2⟩
        split at h
        · cases h
          exact .inr ⟨hon, 4, _, mem_singleton.1 he⟩
        · split at h
          · cases h
            exact .inr ⟨hon, 2, _, mem_singleton.1 he⟩
          · cases h
    · cases h
      exact .inl (mem_singleton.1 he)

theorem zeroTensor_onDevice (h : zeroTensor out = .ok events) (hon : OnDevice out) :
    ∃ width count, .work .null (.zero out.data width count) ∈ events := by
  obtain ⟨hdevice, hdata, hsize⟩ := hon
  unfold zeroTensor deviceZeroRaw at h
  rw [if_neg hdata, if_pos hdevice, if_neg (not_or.2 ⟨hdata, hsize⟩)] at h
  split at h
  · cases h
    exact ⟨4, _, List.mem_singleton_self _⟩
  · split at h
    · cases h
      exact ⟨2, _, List.mem_singleton_self _⟩
    · cases h

theorem zeroOutputs_zeroes (outputs : List Output) :
    ∀ e ∈ (zeroOutputs outputs).1, ∃ out ∈ outputs, Zeroes out e := by
  induction outputs with
  | nil => exact nofun
  | cons out outputs ih =>
    intro e he
    rw [zeroOutputs] at he
    cases hzero : zeroTensor out with
    | error message =>
      rw [hzero] at he
      cases he
    | ok events =>
      rw [hzero] at he
      rcases mem_append.1 he with he | he
      · exact ⟨out, mem_cons_self, zeroTensor_zeroes hzero e he⟩
      · obtain ⟨out', hout, hzeroes⟩ := ih e he
        exact ⟨out', List.mem_cons_of_mem _ hout, hzeroes⟩

theorem zeroOutputs_onDevice {outputs : List Output} (h : (zeroOutputs outputs).2 = none)
    (hout : out ∈ outputs) (hon : OnDevice out) :
    ∃ width count, .work .null (.zero out.data width count) ∈ (zeroOutputs outputs).1 := by
  induction outputs with
  | nil => cases hout
  | cons out' outputs ih =>
    rw [zeroOutputs] at h ⊢
    cases hzero : zeroTensor out' with
    | error message =>
      rw [hzero] at h
      cases h
    | ok events =>
      rw [hzero] at h
      rcases List.mem_cons.1 hout with rfl | hout
      · obtain ⟨width, count, hmem⟩ := zeroTensor_onDevice hzero hon
        exact ⟨width, count, List.mem_append_left _ hmem⟩
      · obtain ⟨width, count, hmem⟩ := ih h hout
        exact ⟨width, count, List.mem_append_right _ hmem⟩

variable {accesses : Work → ℕ → Prop}

/-- The condition: no kernel accesses an output that is zeroed on the device. -/
def NothingToOrder (accesses : Work → ℕ → Prop) (outputs : List Output) (events : Events) : Prop :=
  ∀ out ∈ outputs, OnDevice out → ∀ stream function grid block smem params,
    .work stream (.work (.kernel function grid block smem params)) ∈ events →
    ¬ accesses (.kernel function grid block smem params) out.data

variable {launch : Launch}

theorem kernel_in_program (h : Handles {} s) {stream : Stream} {work : Work} {j : ℕ}
    (hj : (launch.events driver s)[j]? = some (.work stream (.work work))) :
    (zeroOutputs launch.outputs).2 = none ∧ (zeroOutputs launch.outputs).1.length ≤ j ∧
      stream ≠ .null := by
  have hnot : .work stream (.work work) ∉ (zeroOutputs launch.outputs).1 := by
    intro hmem
    obtain ⟨out, -, hzeroes⟩ := zeroOutputs_zeroes _ _ hmem
    rcases hzeroes with heq | ⟨-, width, count, heq⟩
    · cases heq
    · cases heq
  unfold Launch.events at hj
  generalize zeroOutputs launch.outputs = zeroing at hj hnot ⊢
  obtain ⟨events, thrown⟩ := zeroing
  cases thrown with
  | some message => exact absurd (mem_of_getElem? hj) hnot
  | none =>
    have hlength : events.length ≤ j := by
      by_contra hlt
      rw [List.getElem?_append_left (by omega)] at hj
      exact hnot (mem_of_getElem? hj)
    rw [List.getElem?_append_right hlength] at hj
    exact ⟨rfl, hlength, programEvents_offNull h _ _ (mem_of_getElem? hj)⟩

theorem zero_in_zeroing (h : Handles {} s) {e : Event Stream Op} {i : ℕ} {ptr width count : ℕ}
    (hi : (launch.events driver s)[i]? = some e) (hzero : e.op = some (.zero ptr width count)) :
    i < (zeroOutputs launch.outputs).1.length ∧ (zeroOutputs launch.outputs).1[i]? = some e := by
  unfold Launch.events at hi
  generalize zeroOutputs launch.outputs = zeroing at hi ⊢
  obtain ⟨events, thrown⟩ := zeroing
  cases thrown with
  | some message => exact ⟨(List.getElem?_eq_some_iff.1 hi).1, hi⟩
  | none =>
    have hlt : i < events.length := by
      by_contra hge
      rw [List.getElem?_append_right (by omega)] at hi
      have hoff := programEvents_offNull h _ _ (mem_of_getElem? hi)
      cases e with
      | synchronize stream => cases hzero
      | host op =>
        cases hzero
        exact hoff
      | work stream op =>
        cases hzero
        exact hoff
    rw [List.getElem?_append_left hlt] at hi
    exact ⟨hlt, hi⟩

theorem not_waited (launch : Launch) (h : Handles {} s) :
    .synchronize .null ∉ launch.events driver s := by
  have hzeroing : .synchronize .null ∉ (zeroOutputs launch.outputs).1 := by
    intro hmem
    obtain ⟨out, -, hzeroes⟩ := zeroOutputs_zeroes _ _ hmem
    rcases hzeroes with heq | ⟨-, width, count, heq⟩
    · cases heq
    · cases heq
  unfold Launch.events
  generalize zeroOutputs launch.outputs = zeroing at hzeroing ⊢
  obtain ⟨events, thrown⟩ := zeroing
  cases thrown with
  | some message => exact hzeroing
  | none =>
    intro hmem
    rcases mem_append.1 hmem with hmem | hmem
    · exact hzeroing hmem
    · exact programEvents_offNull h _ _ hmem rfl

theorem nothing_of_ordered (h : Handles {} s) (hordered : Ordered accesses (launch.events driver s)) :
    NothingToOrder accesses launch.outputs (launch.events driver s) := by
  intro out hout hon stream function grid block smem params hkernel haccess
  obtain ⟨j, hj⟩ := List.mem_iff_getElem?.1 hkernel
  obtain ⟨hthrown, _, hstream⟩ := kernel_in_program h hj
  obtain ⟨width, count, hzero⟩ := zeroOutputs_onDevice hthrown hout hon
  obtain ⟨i, hi⟩ := List.mem_iff_getElem?.1 hzero
  have hzeroing : (launch.events driver s)[i]? = some (.work .null (.zero out.data width count)) := by
    unfold Launch.events
    generalize zeroOutputs launch.outputs = zeroing at hthrown hi ⊢
    obtain ⟨events, thrown⟩ := zeroing
    obtain rfl : thrown = none := hthrown
    exact (List.getElem?_append_left (List.getElem?_eq_some_iff.1 hi).1).trans hi
  -- the null stream may run last
  have hfirst := hordered _ (StreamOrder.schedule_delayed (not_waited launch h)) i j out.data width
    count stream function grid block smem params (by rw [hzeroing]; rfl) hj haccess
  have hlast := StreamOrder.delayed_lt hzeroing
    (fun op hop => hstream (by rw [hj, Option.some.injEq, Event.work.injEq] at hop; exact hop.1))
    (List.getElem?_eq_some_iff.1 hj).1
  omega

/-- **When the zeroing of a launch is ordered before its kernels.** -/
theorem ordered_iff (driver : Driver) (accesses : Work → ℕ → Prop) (launch : Launch)
    (thread : Thread) :
    Ordered accesses (launch.events driver thread.state) ↔
      NothingToOrder accesses launch.outputs (launch.events driver thread.state) := by
  have h : Handles {} thread.state := ⟨thread.override, List.not_mem_nil⟩
  constructor
  · exact nothing_of_ordered h
  · intro hnothing time hschedule i j ptr width count stream function grid block smem params hi hj
      haccess
    obtain ⟨e, he, hop⟩ := Option.bind_eq_some_iff.1 hi
    obtain ⟨hlt, hmem⟩ := zero_in_zeroing h he hop
    obtain ⟨out, hout, hzeroes⟩ := zeroOutputs_zeroes _ _ (mem_of_getElem? hmem)
    rcases hzeroes with rfl | ⟨hon, width', count', rfl⟩
    · have hlength := (kernel_in_program h hj).2.1
      exact hschedule.host (by omega) he
    · cases hop
      exact absurd haccess
        (hnothing out hout hon _ _ _ _ _ _ (mem_of_getElem? hj))

/-- A launch of one kernel, with one output of one element. -/
def oneKernel : Launch :=
  .compileAndRun
    { outputTensorIndices := [0]
      needsOutputZeroing := true
      program := [.streamCreate, .moduleLoad 0, .moduleGetFunction 0 "matmul",
        .launchKernel 0 (1, 1, 1) (32, 1, 1) 0 0 [16], .streamSynchronize 0] }
    [⟨16, .float32, [1], [1], true, {}⟩]

def someDriver : Driver where
  isDevice _ := true
  acquire pool _ := pool
  loadsInCapture := true
  validateParams := false

/-- A kernel accesses the buffers that are passed to it. -/
def accessesParams : Work → ℕ → Prop
  | .kernel _ _ _ _ params, ptr => ptr ∈ params
  | _, _ => False

/-- **A kernel may run before its output is zero.** -/
theorem kernel_before_zeroing :
    ¬ Ordered accessesParams (oneKernel.events someDriver
      { pool := { maxPooledBytes := 0 } }) := by
  intro hordered
  have hnothing := nothing_of_ordered ⟨Option.some_ne_none _ |>.symm, List.not_mem_nil⟩ hordered
  refine hnothing ⟨16, 4, true⟩ ?_ ⟨rfl, ?_, ?_⟩ (.pooled 0) ⟨⟨0, none⟩, "matmul"⟩ (1, 1, 1)
    (32, 1, 1) 0 [16] ?_ mem_cons_self
  · exact mem_cons_self
  · decide
  · decide
  · decide

end Matcore.Gpu.OutputZeroing
