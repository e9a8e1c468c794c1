import Matcore.Lib.Trace

/-!
# The memory pool of the CUDA runtime

`GpuMemoryPool` of `gpu_runtime_symbols.cpp`, the threads that call it and the driver below it.
A critical section of `mutex_` is one step, and so is every call of the driver outside of one.
Streams execute the work queued on them in order, one item at a time, whenever they please.
Address 0 is the null pointer and stream 0 the null stream. An event is named by the number of
events created before it.
-/

namespace Matcore.Gpu.MemoryPool

open Function (update)

/-- `PooledEntry`. The iterator into `pooled_order_` is the name of the node it points to. -/
structure PooledEntry where
  sizeBytes : ℕ
  orderIt : ℕ
  fenceEvent : Option ℕ

/-- A node of the list `pooled_order_`. -/
structure OrderNode where
  name : ℕ
  ptr : ℕ

structure Pool where
  /-- each list with its back first -/
  freeLists : ℕ → List ℕ := fun _ => []
  allocationSizes : ℕ → Option ℕ := fun _ => none
  pooledEntries : ℕ → Option PooledEntry := fun _ => none
  pooledOrder : List OrderNode := []
  pooledBytes : ℕ := 0
  maxPooledBytes : ℕ
  /-- history: the nodes inserted into `pooled_order_` -/
  nodes : ℕ := 0

/-- Arithmetic of `std::uint64_t`. -/
def wrap (n : ℕ) : ℕ := n % 2 ^ 64

/-- What `cuEventQuery` returns, with every error but `CUDA_ERROR_NOT_READY` as one. -/
inductive QueryResult where
  | success
  | notReady
  | error
  deriving DecidableEq

namespace Pool

variable (pool : Pool)

/-- The candidates that `acquire` pops up to one that passes `isValidPooledEntry`. -/
def popValid (sizeBytes : ℕ) : List ℕ → Option (ℕ × PooledEntry × List ℕ)
  | [] => none
  | candidate :: list =>
    match pool.pooledEntries candidate with
    | some entry =>
      if entry.sizeBytes = sizeBytes then some (candidate, entry, list)
      else popValid sizeBytes list
    | none => popValid sizeBytes list

/-- The loop of `acquire` over a free list: the entry it takes, if any, and what it leaves in the
list. The driver answers the queries in turn; there is no result if it is asked another one. -/
def scan (sizeBytes : ℕ) (answers : List (ℕ × QueryResult)) (list : List ℕ) :
    Option (Option (ℕ × PooledEntry) × List ℕ) :=
  match pool.popValid sizeBytes list with
  | none => if answers = [] then some (none, []) else none
  | some (candidate, entry, rest) =>
    match entry.fenceEvent, answers with
    | none, answers => if answers = [] then some (some (candidate, entry), rest) else none
    | some _, [] => none
    | some fence, (event, result) :: answers =>
      if event ≠ fence then none
      else if result = .notReady then scan sizeBytes answers (rest ++ [candidate])
      else if answers = [] then some (some (candidate, entry), rest)
      else none

/-- What one turn of that loop does. -/
inductive Turn where
  /-- the loop ends, with the entry it takes and what it leaves in the list -/
  | leave (taken : Option (ℕ × PooledEntry)) (left : List ℕ)
  | again (list : List ℕ)

/-- One turn, where the fences answer as `status` says. -/
def turn (status : ℕ → QueryResult) (sizeBytes : ℕ) : List ℕ → Turn
  | [] => .leave none []
  | candidate :: list =>
    match pool.pooledEntries candidate with
    | some entry =>
      if entry.sizeBytes = sizeBytes then
        if entry.fenceEvent.any (status · = .notReady) then .again (list ++ [candidate])
        else .leave (some (candidate, entry)) list
      else .again list
    | none => .again list

/-- The loop, if it ends in so many turns: the candidates that it pops, the entry that it takes and
what it leaves in the list. -/
def turns (status : ℕ → QueryResult) (sizeBytes : ℕ) :
    ℕ → List ℕ → Option (List ℕ × Option (ℕ × PooledEntry) × List ℕ)
  | 0, _ => none
  | n + 1, list =>
    match pool.turn status sizeBytes list with
    | .leave taken left => some (list.take 1, taken, left)
    | .again rest =>
      (turns status sizeBytes n rest).map fun (popped, result) => (list.take 1 ++ popped, result)

/-- An entry leaves the pool for the caller of `acquire`. -/
def take (candidate : ℕ) (entry : PooledEntry) (rest : List ℕ) : Pool :=
  { pool with
    freeLists := update pool.freeLists entry.sizeBytes rest
    pooledOrder := pool.pooledOrder.filter (·.name ≠ entry.orderIt)
    pooledEntries := update pool.pooledEntries candidate none
    pooledBytes := wrap (pool.pooledBytes + (2 ^ 64 - entry.sizeBytes)) }

/-- The critical section of `acquire`. -/
def acquireLocked (sizeBytes : ℕ) (answers : List (ℕ × QueryResult)) :
    Option (Pool × Option (ℕ × PooledEntry)) :=
  match pool.scan sizeBytes answers (pool.freeLists sizeBytes) with
  | none => none
  | some (none, rest) =>
    some ({ pool with freeLists := update pool.freeLists sizeBytes rest }, none)
  | some (some (candidate, entry), rest) =>
    some (pool.take candidate entry rest, some (candidate, entry))

/-- The critical section behind `cuMemAlloc`. -/
def record (ptr sizeBytes : ℕ) : Pool :=
  { pool with allocationSizes := update pool.allocationSizes ptr (some sizeBytes) }

/-- An address enters the pool. -/
def push (ptr sizeBytes : ℕ) (event : Option ℕ) : Pool :=
  { pool with
    freeLists := update pool.freeLists sizeBytes (ptr :: pool.freeLists sizeBytes)
    pooledOrder := pool.pooledOrder ++ [⟨pool.nodes, ptr⟩]
    pooledEntries := update pool.pooledEntries ptr (some ⟨sizeBytes, pool.nodes, event⟩)
    pooledBytes := wrap (pool.pooledBytes + sizeBytes)
    nodes := pool.nodes + 1 }

/-- A victim leaves the pool for the driver. -/
def drop (victim : ℕ) (entry : PooledEntry) : Pool :=
  { pool with
    allocationSizes := update pool.allocationSizes victim none
    pooledEntries := update pool.pooledEntries victim none
    pooledBytes := wrap (pool.pooledBytes + (2 ^ 64 - entry.sizeBytes)) }

/-- The loop of `release` over `pooled_order_`: the pool, `to_free` and `events_to_destroy`. -/
def evict (pool : Pool) : List OrderNode → Pool × List ℕ × List ℕ
  | [] => ({ pool with pooledOrder := [] }, [], [])
  | victim :: order =>
    if pool.pooledBytes ≤ pool.maxPooledBytes then
      ({ pool with pooledOrder := victim :: order }, [], [])
    else
      match pool.pooledEntries victim.ptr with
      | none => evict pool order
      | some entry =>
        let (left, toFree, events) := evict (pool.drop victim.ptr entry) order
        (left, victim.ptr :: toFree, entry.fenceEvent.toList ++ events)

/-- The critical section of `release`, or the message of `fail`. -/
def releaseLocked (ptr : ℕ) (event : Option ℕ) : Except String (Pool × List ℕ × List ℕ) :=
  match pool.allocationSizes ptr with
  | none => .error "attempted to free unknown CUDA pointer"
  | some sizeBytes =>
    if (pool.pooledEntries ptr).isSome then .error "double free detected in GPU memory pool"
    else
      let pool := pool.push ptr sizeBytes event
      .ok (pool.evict pool.pooledOrder)

end Pool

/-- The driver: the live allocations with their sizes, the work of the streams and the events. -/
structure Device where
  allocations : List (ℕ × ℕ) := []
  /-- the items queued on a stream so far, and how many of them have completed -/
  queued : ℕ → ℕ := fun _ => 0
  completed : ℕ → ℕ := fun _ => 0
  /-- the events created so far, and the stream and the items that each was recorded behind -/
  events : ℕ := 0
  recorded : ℕ → Option (ℕ × ℕ) := fun _ => none

namespace Device

variable (device : Device)

/-- Whether the work that an event was recorded behind has completed. -/
def reached (event : ℕ) : Bool :=
  match device.recorded event with
  | none => true
  | some (stream, items) => items ≤ device.completed stream

/-- Whether `cuMemAlloc` may return an address: no byte belongs to a live allocation. -/
def vacant (ptr sizeBytes : ℕ) : Bool :=
  ptr ≠ 0 && ptr + sizeBytes ≤ 2 ^ 64 &&
    device.allocations.all fun (other, bytes) => other + bytes ≤ ptr || ptr + sizeBytes ≤ other

/-- The size of a live allocation. -/
def sizeOf (ptr : ℕ) : ℕ := (device.allocations.lookup ptr).getD 0

/-- Documented behaviour of `cuEventQuery`: success means that the work has completed. -/
def answers (results : List (ℕ × QueryResult)) : Bool :=
  results.all fun (event, result) => result ≠ .success || device.reached event

end Device

/-- Where the memory that `acquire` returns comes from: an allocation of so many bytes, or an
allocation that was in the pool, with the stream of its last release, the items queued there when
that release was called, and the items completed there now. -/
inductive Source where
  | fresh (bytes : ℕ)
  | pooled (bytes stream queued completed : ℕ)
  deriving DecidableEq

/-- What a call of `release` was given: the stream, the items queued on it at the call, and
whether the caller held the address. -/
structure Released where
  stream : ℕ
  queued : ℕ
  held : Bool

/-- Where a thread stands in `acquire` or `release`. -/
inductive Pc where
  | idle
  /-- before the critical section of `acquire` -/
  | scanning (sizeBytes : ℕ)
  /-- before `cuEventDestroy` in `acquire` -/
  | handing (sizeBytes ptr event : ℕ) (source : Source)
  /-- before `cuMemAlloc` -/
  | allocating (sizeBytes : ℕ)
  /-- before the critical section behind it -/
  | recording (sizeBytes ptr : ℕ)
  /-- before `cuEventCreate` -/
  | creating (ptr : ℕ) (released : Released)
  /-- before `cuEventRecord` -/
  | marking (ptr event : ℕ) (released : Released)
  /-- before the critical section of `release` -/
  | pooling (ptr : ℕ) (event : Option ℕ) (released : Released)
  /-- in the loops over `to_free` and `events_to_destroy` -/
  | clearing (toFree events : List ℕ)

structure State where
  pool : Pool
  device : Device := {}
  threads : ℕ → Pc := fun _ => .idle
  /-- the threads that hold an address: `acquire` returned it and they have not released it -/
  holders : ℕ → List ℕ := fun _ => []
  /-- history: the last release of each address -/
  released : ℕ → Released := fun _ => ⟨0, 0, false⟩

/-- What a run shows. -/
inductive Event where
  | acquired (thread sizeBytes ptr : ℕ) (source : Source)
  /-- `acquire` of no bytes returns the null pointer -/
  | acquiredNothing (thread : ℕ)
  | failed (thread : ℕ) (message : String)
  /-- an entry with this fence enters the pool -/
  | fenced (event : ℕ)
  | destroyed (event : ℕ)
  deriving DecidableEq

/-- What a thread does next, with the answer of the driver if it calls it. -/
inductive Move where
  | acquire (sizeBytes : ℕ)
  | release (ptr stream : ℕ)
  | lock (answers : List (ℕ × QueryResult))
  | destroy
  | allocate (result : Option ℕ)
  | create (ok : Bool)
  | record (ok : Bool)
  | free (ok : Bool)

inductive Action where
  | thread (c : ℕ) (move : Move)
  /-- a client queues work on a stream -/
  | queue (stream : ℕ)
  /-- a stream completes its next item -/
  | complete (stream : ℕ)
  /-- a thread hands an address it holds to another one -/
  | handOver (c d ptr : ℕ)

/-- The pool behind its constructor. -/
def init (maxPooledBytes : ℕ) : State := { pool := { maxPooledBytes } }

namespace State

variable (s : State)

def goto (c : ℕ) (pc : Pc) : State := { s with threads := update s.threads c pc }

/-- `acquire` returns an address. -/
def give (c ptr : ℕ) : State :=
  { s.goto c .idle with holders := update s.holders ptr (c :: s.holders ptr) }

/-- Behind the loops of `release`, if they have nothing left. -/
def clear (c : ℕ) (toFree events : List ℕ) : State :=
  s.goto c (if toFree = [] ∧ events = [] then .idle else .clearing toFree events)

def mapDevice (f : Device → Device) : State := { s with device := f s.device }

/-- The call of `release` up to `cuEventCreate`, which a release on no stream skips. -/
def beginRelease (c ptr stream : ℕ) : State :=
  let released : Released := ⟨stream, s.device.queued stream, c ∈ s.holders ptr⟩
  { s.goto c (if stream ≠ 0 then .creating ptr released else .pooling ptr none released) with
    holders := update s.holders ptr ((s.holders ptr).erase c) }

/-- The critical section of `acquire`. -/
def lockAcquire (c sizeBytes : ℕ) (answers : List (ℕ × QueryResult)) :
    Option (State × List Event) :=
  if ¬ s.device.answers answers then none
  else
    match s.pool.acquireLocked sizeBytes answers with
    | none => none
    | some (pool, none) => some ({ s.goto c (.allocating sizeBytes) with pool }, [])
    | some (pool, some (ptr, entry)) =>
      let last := s.released ptr
      let source := Source.pooled (s.device.sizeOf ptr) last.stream last.queued
        (s.device.completed last.stream)
      match entry.fenceEvent with
      | some event => some ({ s.goto c (.handing sizeBytes ptr event source) with pool }, [])
      | none => some ({ s with pool }.give c ptr, [.acquired c sizeBytes ptr source])

/-- The critical section of `release`. -/
def lockRelease (c ptr : ℕ) (event : Option ℕ) (released : Released) : State × List Event :=
  match s.pool.releaseLocked ptr event with
  | .error message => (s.goto c .idle, [.failed c message])
  | .ok (pool, toFree, events) =>
    ({ s.clear c toFree events with
        pool, released := update s.released ptr released },
      event.toList.map .fenced)

/-- The next step of a thread. -/
def step (c : ℕ) : Pc → Move → Option (State × List Event)
  | .idle, .acquire sizeBytes =>
    if sizeBytes = 0 then some (s, [.acquiredNothing c])
    else some (s.goto c (.scanning sizeBytes), [])
  | .idle, .release ptr stream =>
    if ptr = 0 then some (s, []) else some (s.beginRelease c ptr stream, [])
  | .scanning sizeBytes, .lock answers => s.lockAcquire c sizeBytes answers
  | .handing sizeBytes ptr event source, .destroy =>
    some (s.give c ptr, [.destroyed event, .acquired c sizeBytes ptr source])
  | .allocating _, .allocate none => some (s.goto c .idle, [.failed c "cuMemAlloc"])
  | .allocating sizeBytes, .allocate (some ptr) =>
    if s.device.vacant ptr sizeBytes then
      some ((s.goto c (.recording sizeBytes ptr)).mapDevice fun device =>
        { device with allocations := (ptr, sizeBytes) :: device.allocations }, [])
    else none
  | .recording sizeBytes ptr, .lock [] =>
    some ({ s with pool := s.pool.record ptr sizeBytes }.give c ptr,
      [.acquired c sizeBytes ptr (.fresh (s.device.sizeOf ptr))])
  | .creating ptr released, .create false => some (s.goto c (.pooling ptr none released), [])
  | .creating ptr released, .create true =>
    some ((s.goto c (.marking ptr s.device.events released)).mapDevice fun device =>
      { device with events := device.events + 1 }, [])
  | .marking ptr event released, .record true =>
    some ((s.goto c (.pooling ptr (some event) released)).mapDevice fun device =>
      { device with
        recorded := update device.recorded event
          (some (released.stream, device.queued released.stream)) }, [])
  | .marking ptr event released, .record false =>
    some (s.goto c (.pooling ptr none released), [.destroyed event])
  | .pooling ptr event released, .lock [] => some (s.lockRelease c ptr event released)
  | .clearing (ptr :: toFree) events, .free true =>
    some ((s.clear c toFree events).mapDevice fun device =>
      { device with allocations := device.allocations.filter (·.1 ≠ ptr) }, [])
  | .clearing (_ :: _) _, .free false => some (s.goto c .idle, [.failed c "cuMemFree"])
  | .clearing [] (event :: events), .destroy => some (s.clear c [] events, [.destroyed event])
  | _, _ => none

/-- The next step of the pool, its clients and the driver. -/
def next : Action → Option (State × List Event)
  | .thread c move => s.step c (s.threads c) move
  | .queue stream =>
    some (s.mapDevice fun device =>
      { device with queued := update device.queued stream (device.queued stream + 1) }, [])
  | .complete stream =>
    if s.device.completed stream < s.device.queued stream then
      some (s.mapDevice fun device =>
        { device with
          completed := update device.completed stream (device.completed stream + 1) }, [])
    else none
  | .handOver c d ptr =>
    if c ∈ s.holders ptr then
      some ({ s with
        holders := update s.holders ptr (d :: (s.holders ptr).erase c) }, [])
    else none

end State

end Matcore.Gpu.MemoryPool
