import Matcore.Engine.CacheKey

/-!
# The execution cache

`getOrCreateExecution` of `jit_runner.cpp`, with the object files it leaves for later processes. A
process keeps its executions by their key, the disk keeps shared objects by the hash of the key. What
the calls depend on otherwise, whether the loader, the compiler and the linker succeed and whether
the host may run the code, is left open.
-/

namespace Matcore.Engine.ExecutionCache

open CacheKey
open Function (update)

/-- Compiled code, and the request it was compiled for. -/
structure CachedExecution where
  compiledFor : Request

/-- A file of the disk cache. One that was cut short or damaged cannot be loaded. -/
inductive SharedObject where
  | linked (execution : CachedExecution)
  | damaged

variable {H : Type} [DecidableEq H]

structure Caches (H : Type) where
  memory : List Char → Option CachedExecution
  disk : H → Option SharedObject

def Caches.empty : Caches H := ⟨fun _ => none, fun _ => none⟩

/-- What a call depends on besides its request and the caches. -/
structure Surroundings where
  forceRecompile : Bool
  /-- `dlopen` opens a sound file. -/
  opens : Bool
  /-- The message of a failed `dlopen` is about the file itself. -/
  corrupt : Bool
  lowers : Bool
  /-- `validateExecutionEligibility` lets the host run the code. -/
  eligible : Bool
  dumps : Bool
  links : Bool

def isDiskCacheSupported (profile : CacheKey.RequestedTargetProfile) : Bool :=
  match normalizeTarget profile.kind with
  | .x86Auto | .x86AVX2 | .x86AVX512 | .nvidiaDGPU => true
  | _ => false

def tryLoadDiskCachedExecution (hash : List Char → H) (r : Request) (e : Surroundings)
    (disk : H → Option SharedObject) : Option CachedExecution × (H → Option SharedObject) :=
  let removed := update disk (hash r.key) none
  if isDiskCacheSupported r.profile then
    match disk (hash r.key) with
    | none => (none, disk)
    | some .damaged => (none, if e.corrupt then removed else disk)
    | some (.linked execution) =>
      if e.opens then
        -- The symbol that is looked up has the name of the kernel, not that of its entry point.
        if execution.compiledFor.kernel.entryPoint = r.kernel.name then (some execution, disk)
        else (none, removed)
      else (none, if e.corrupt then removed else disk)
  else (none, disk)

/-- `persistExecutionToDiskCache`, which fails where the linker does. -/
def persistExecutionToDiskCache (hash : List Char → H) (r : Request) (e : Surroundings)
    (compiled : CachedExecution) (disk : H → Option SharedObject) :
    Option (H → Option SharedObject) :=
  if isDiskCacheSupported r.profile = false ∨ (disk (hash r.key)).isSome ∨ e.dumps = false then
    some disk
  else if e.links then some (update disk (hash r.key) (some (.linked compiled)))
  else none

/-- The entry of a key stays where there is one. -/
def emplace (memory : List Char → Option CachedExecution) (key : List Char)
    (execution : CachedExecution) : CachedExecution × (List Char → Option CachedExecution) :=
  match memory key with
  | some present => (present, memory)
  | none => (execution, update memory key (some execution))

/-- Compilation, after both caches missed. -/
def compileExecution (hash : List Char → H) (r : Request) (e : Surroundings) (s : Caches H) :
    Option CachedExecution × Caches H :=
  if e.lowers && e.eligible then
    let compiled : CachedExecution := ⟨r⟩
    match persistExecutionToDiskCache hash r e compiled s.disk with
    | none => (none, s)
    | some disk =>
      if e.forceRecompile then
        (some compiled, ⟨update s.memory r.key (some compiled), disk⟩)
      else
        let (selected, memory) := emplace s.memory r.key compiled
        (some selected, ⟨memory, disk⟩)
  else (none, s)

/-- One call: a hit, or an execution that is made and stored. -/
def getOrCreateExecution (hash : List Char → H) (r : Request) (e : Surroundings) (s : Caches H) :
    Option CachedExecution × Caches H :=
  if e.forceRecompile then compileExecution hash r e s
  else
    match s.memory r.key with
    | some execution => (if e.eligible then some execution else none, s)
    | none =>
      match tryLoadDiskCachedExecution hash r e s.disk with
      | (some execution, disk) =>
        let (selected, memory) := emplace s.memory r.key execution
        (if e.eligible then some selected else none, ⟨memory, disk⟩)
      | (none, disk) => compileExecution hash r e { s with disk := disk }

/-- A call, a new process, or damage to a file. -/
inductive Event (H : Type) where
  | call (r : Request) (e : Surroundings)
  | restart
  | damage (h : H)

def damagedFile : Option SharedObject → Option SharedObject := Option.map fun _ => .damaged

/-- The requests that were served, each with the code it was given. -/
def served (hash : List Char → H) : List (Event H) → Caches H → List (Request × CachedExecution)
  | [], _ => []
  | .call r e :: events, s =>
    let (execution, s) := getOrCreateExecution hash r e s
    (execution.map fun x => (r, x)).toList ++ served hash events s
  | .restart :: events, s => served hash events { s with memory := fun _ => none }
  | .damage h :: events, s =>
    served hash events { s with disk := update s.disk h (damagedFile (s.disk h)) }

end Matcore.Engine.ExecutionCache
