import Matcore.ClosedHost.Session
import Matcore.Lib.Async

/-!
# What both GPU candidates read

The views that an invocation of a GPU candidate receives (`closed_host_v1.h`), the answers of the
host during it, and the address ranges that the adapters check.
-/

namespace Matcore.Gpu


/-- `CandidateInput` and `CandidateOutput`. Address 0 is the null pointer. -/
structure CandidateView where
  data : ℕ
  rows : ℕ
  columns : ℕ

/-- The start of the worker thread: `std::bad_alloc` and every other exception are told apart. -/
inductive Worker where
  | started
  | noMemory
  | failed

/-- The host allocations of a frame: the frame itself, then its staging buffers. -/
inductive Staging where
  | allocated
  | noFrame
  | noBuffers

/-- What the host answers during one invocation. -/
structure Environment where
  hsaOverride : Bool := false
  worker : Worker := .started
  fesetenv : Bool := true
  staging : Staging := .allocated

/-- The addresses of `bytes` bytes at `pointer`, unless the view is invalid. -/
def hostRange (pointer bytes : ℕ) : Option (ℕ × ℕ) :=
  if bytes ≠ 0 ∧ (pointer = 0 ∨ pointer % 4 ≠ 0) then none
  else if pointer > 2 ^ 64 - 1 - bytes then none
  else some (pointer, pointer + bytes)

/-- Both ranges hold something and they meet. -/
def overlap (outputBytes inputBytes : ℕ) (output input : ℕ × ℕ) : Bool :=
  outputBytes ≠ 0 && inputBytes ≠ 0 && output.1 < input.2 && input.1 < output.2

end Matcore.Gpu
