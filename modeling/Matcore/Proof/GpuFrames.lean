import Matcore.Proof.RocdlFrames
import Matcore.Proof.CudaFrames

/-!
# The frame protocol of the GPU candidates

Both adapters keep `Protocol`, whatever their drivers reply.
-/

namespace Matcore.Gpu

open ClosedHost (Code)
open Async

/-- What one invocation of a series does. `Retired` says that all events of a frame were admitted
by `advance`, up to its destruction or, for a frame in trouble, its quarantine. -/
structure Protocol {I C F S R : Type} [DecidableEq S] (ad : Adapter C S F R)
    (rejection : I → Option Code) (r : Record I Code (World C F)) : Prop where
  retired : ∀ f < r.after.frames, Retired ad.role r.after.log f
  troubled : ∀ f < r.after.frames, ∀ s, replay ad.role r.after.log f = some s → s.Troubled →
    (some f, .quarantine) ∈ r.after.log ∧ r.after.poisoned = true
  exclusive : ∀ f, ¬ ((some f, .destroy) ∈ r.after.log ∧ (some f, .quarantine) ∈ r.after.log)
  poisoned : r.after.poisoned = true ↔ ∃ f, (some f, .quarantine) ∈ r.after.log
  writes : ∃ new, r.after.log = r.before.log ++ new ∧
    (r.result ≠ .ok → ∀ e ∈ new, e.2 ≠ .write)
  disabled : r.before.poisoned = true →
    r.after = r.before ∧ r.result = (rejection r.request).getD .candidateFailure

theorem closed_start {C F S R : Type} [DecidableEq S] (ad : Adapter C S F R) (frame : F) :
    Closed ad { frame } where
  current := rfl
  named := fun _ he => absurd he List.not_mem_nil
  retired := fun _ hf => absurd hf (Nat.not_lt_zero _)
  poisoned := ⟨fun h => Bool.noConfusion h, fun ⟨_, hmem⟩ => absurd hmem List.not_mem_nil⟩

section Adapters

variable {I C F S R : Type} [DecidableEq S] {ad : Adapter C S F R}
  {invoke : I → StateM (World C F) Code} {rejection : I → Option Code}

theorem protocol_of_spec (hspec : ∀ base i, Triple (Between ad base True) (invoke i)
      fun code w => Between ad base (code ≠ .ok) w)
    (hdisabled : ∀ i w, w.poisoned = true →
      invoke i w = ((rejection i).getD .candidateFailure, w))
    {frame : F} {invocations : List I} :
    ∀ r ∈ series invoke invocations { frame }, Protocol ad rejection r := by
  refine @forall_series I Code _ invoke (Closed ad) _ (fun i w hw => ?_) _ _ (closed_start ad frame)
  obtain ⟨hclosed, hgrown⟩ := hspec w.log i w ⟨hw, Grown.refl _ _⟩
  refine ⟨hclosed, ?_⟩
  have hexclusive : ∀ f, ¬ ((some f, .destroy) ∈ (invoke i w).2.log ∧
      (some f, .quarantine) ∈ (invoke i w).2.log) := by
    intro f hf
    exact (hclosed.retired f (hclosed.named _ hf.1 f rfl)).exclusive hf
  have htroubled : ∀ f < (invoke i w).2.frames, ∀ s,
      replay ad.role (invoke i w).2.log f = some s → s.Troubled →
      (some f, .quarantine) ∈ (invoke i w).2.log ∧ (invoke i w).2.poisoned = true := by
    intro f hf s hs hs'
    have hmem := (hclosed.retired f hf).quarantined hs hs'
    exact ⟨hmem, hclosed.poisoned.2 ⟨f, hmem⟩⟩
  have hdisabled' : w.poisoned = true → (invoke i w).2 = w ∧
      (invoke i w).1 = (rejection i).getD .candidateFailure := by
    intro hpoisoned
    rw [hdisabled i w hpoisoned]
    exact ⟨rfl, rfl⟩
  exact ⟨hclosed.retired, htroubled, hexclusive, hclosed.poisoned, hgrown, hdisabled'⟩

end Adapters

/-- **The frame protocol**, for all replies of the two drivers and all series of invocations. -/
theorem gpu_frame_protocol :
    (∀ (build : Rocdl.Build) (driver : ℕ → Rocdl.HipReply) (invocations : List Rocdl.Invocation),
      ∀ r ∈ series (Rocdl.invoke build driver) invocations { frame := {} },
        Protocol Rocdl.adapter (Rocdl.rejection build) r) ∧
    ∀ (build : Cuda.Build) (driver : ℕ → Cuda.CudaReply) (invocations : List Cuda.Invocation),
      ∀ r ∈ series (Cuda.invoke build driver) invocations { frame := {} },
        Protocol Cuda.adapter (Cuda.rejection build) r := by
  constructor
  · intro build driver invocations
    exact protocol_of_spec (fun _ i => Rocdl.invoke_spec build i)
      fun i _ h => Rocdl.invoke_poisoned build i h
  · intro build driver invocations
    exact protocol_of_spec (fun _ i => Cuda.invoke_spec build i)
      fun i _ h => Cuda.invoke_poisoned build i h

/-- A driver with one suitable device, on which the calls numbered in `failures` fail. -/
def hipFailing (failures : List ℕ) (n : ℕ) : Rocdl.HipReply where
  success := n ∉ failures
  count := 1
  properties :=
    { gcnArchName := "gfx1150".toList, maxGridSize := (65535, 65535, 1), maxThreadsPerBlock := 1 }
  handle := some (n + 1)

def smallBuild : Rocdl.Build := ⟨false, 0⟩

/-- A product of two matrices with one element, after `columns` columns on the left. -/
def smallGemm (columns : ℕ) : Rocdl.Invocation := .gemm {} ⟨4, 1, columns⟩ ⟨16, 1, 1⟩ ⟨32, 1, 1⟩

/-- The world after one product of which the calls in `failures` fail. -/
def afterSmallGemm (failures : List ℕ) : World Rocdl.HipCall Rocdl.Frame :=
  (Rocdl.invoke smallBuild (hipFailing failures) (smallGemm 1) { frame := {} }).2

/-- A product that starts when an earlier one has poisoned the adapter. -/
def poisonedGemm : Record Rocdl.Invocation Code (World Rocdl.HipCall Rocdl.Frame) :=
  let before := afterSmallGemm [16, 17]
  let outcome := Rocdl.invoke smallBuild (hipFailing [16, 17]) (smallGemm 1) before
  ⟨smallGemm 1, outcome.1, before, outcome.2⟩

theorem gpu_frame_protocol_poisoned :
    Protocol Rocdl.adapter (Rocdl.rejection smallBuild) poisonedGemm := by
  refine gpu_frame_protocol.1 smallBuild (hipFailing [16, 17]) [smallGemm 1, smallGemm 1] _ ?_
  simp only [series, List.mem_cons]
  exact Or.inr (Or.inl rfl)

/-- A failed synchronisation does not quarantine the frame when the repeated one succeeds, and a
poisoned adapter still rejects wrong shapes with their own code. -/
theorem failed_synchronisation_released :
    ((some 0, .call .streamSynchronize false) ∈ (afterSmallGemm [16]).log ∧
      (some 0, .destroy) ∈ (afterSmallGemm [16]).log ∧ (afterSmallGemm [16]).poisoned = false) ∧
    (afterSmallGemm [16, 17]).poisoned = true ∧
      (Rocdl.invoke smallBuild (hipFailing [16, 17]) (smallGemm 2) (afterSmallGemm [16, 17])).1 =
        .shapeMismatch := by
  decide +kernel

end Matcore.Gpu
