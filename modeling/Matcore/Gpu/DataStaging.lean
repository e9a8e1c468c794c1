import Matcore.Lib.Threads

/-!
# Staging host memrefs around launches

`GpuDataStagingPass` of `gpu_data_staging.cpp`. A memref value outside the launches says which
operations gave it; inside a launch the values have names. Types are static, as an allocation
without sizes needs, and the buffer has the layout of the memref whose type it takes: an element
keeps the address that it is known by. The gpu operations are one chain of tokens and so in order.
-/

namespace Matcore.Gpu.DataStaging

open Function (update)
open Regions (Ops Machine)
open Threads (Kernel)

/-- A memref value outside the launches: an argument of the function's entry block, a subview, a
cast or a reshape of another value, or a value from elsewhere. -/
inductive MemRef where
  | arg (index : ℕ)
  | value (name : ℕ)
  | view (name : ℕ) (source : MemRef)
  deriving DecidableEq

def MemRef.traceToFuncArg : MemRef → Option ℕ
  | arg index => some index
  | value _ => none
  | view _ source => source.traceToFuncArg

/-- A memref operand in the body of a launch. -/
inductive Operand where
  | captured (m : MemRef)
  | inner (name : ℕ)
  deriving DecidableEq

/-- A memref operand in the body of a launch behind the pass, where `device m` is the buffer that the
launch has for `m`. -/
inductive StagedOperand where
  | operand (v : Operand)
  | device (m : MemRef)

/-- An operation without regions in the body of a launch, with its memref operands. A `view` is any
of the seven that `buildAliasSet` follows. -/
inductive BodyOp (V : Type) where
  | view (tag : ℕ) (source : V) (result : ℕ)
  | store (tag : ℕ) (memref : V)
  | transferWrite (tag : ℕ) (source : V)
  | subgroupMmaStore (tag : ℕ) (dst : V)
  | linalg (tag : ℕ) (inputs inits : List V)
  | copy (tag : ℕ) (source target : V)
  | other (tag : ℕ) (operands : List V) (results : List ℕ)

structure RegionOp (V : Type) where
  tag : ℕ
  operands : List V
  args : List ℕ
  results : List ℕ

abbrev Body (V : Type) := Ops (BodyOp V) (RegionOp V)

namespace BodyOp

variable {V W : Type}

def operands : BodyOp V → List V
  | view _ source _ => [source]
  | store _ memref => [memref]
  | transferWrite _ source => [source]
  | subgroupMmaStore _ dst => [dst]
  | linalg _ inputs inits => inputs ++ inits
  | copy _ source target => [source, target]
  | other _ operands _ => operands

/-- The operands that the operation may read. -/
def reads : BodyOp V → List V
  | view _ _ _ | store _ _ | transferWrite _ _ | subgroupMmaStore _ _ => []
  | linalg _ inputs inits => inputs ++ inits
  | copy _ source _ => [source]
  | other _ operands _ => operands

/-- The operands that `isWrittenInsideLaunch` takes for written. -/
def knownWrites : BodyOp V → List V
  | view _ _ _ | other _ _ _ => []
  | store _ memref => [memref]
  | transferWrite _ source => [source]
  | subgroupMmaStore _ dst => [dst]
  | linalg _ _ inits => inits
  | copy _ _ target => [target]

/-- The operands that the operation may write. -/
def writes : BodyOp V → List V
  | other _ operands _ => operands
  | op => op.knownWrites

def results : BodyOp V → List ℕ
  | view _ _ result => [result]
  | other _ _ results => results
  | _ => []

def map (f : V → W) : BodyOp V → BodyOp W
  | view tag source result => .view tag (f source) result
  | store tag memref => .store tag (f memref)
  | transferWrite tag source => .transferWrite tag (f source)
  | subgroupMmaStore tag dst => .subgroupMmaStore tag (f dst)
  | linalg tag inputs inits => .linalg tag (inputs.map f) (inits.map f)
  | copy tag source target => .copy tag (f source) (f target)
  | other tag operands results => .other tag (operands.map f) results

/-- The operation without its memrefs. -/
def shape (op : BodyOp V) : BodyOp Unit := op.map fun _ => ()

end BodyOp

def RegionOp.map {V W : Type} (f : V → W) (op : RegionOp V) : RegionOp W :=
  ⟨op.tag, op.operands.map f, op.args, op.results⟩

def RegionOp.shape {V : Type} (op : RegionOp V) : RegionOp Unit := op.map fun _ => ()

structure Launch (V : Type) where
  name : ℕ
  body : Body V

/-- An operation with regions around the launches. -/
structure HostRegion where
  tag : ℕ

inductive HostOp where
  | launch (l : Launch Operand)
  | other (tag : ℕ)

structure Func where
  residentArgs : List ℕ
  body : Ops HostOp HostRegion

/-- The device buffer that a launch has for a memref. -/
abbrev Buffer := ℕ × MemRef

inductive StagedOp where
  | launch (l : Launch StagedOperand)
  | other (tag : ℕ)
  | wait
  | alloc (b : Buffer)
  | copyIn (b : Buffer)
  | copyOut (b : Buffer)
  | dealloc (b : Buffer)

/-- The argument's `matcore.device_resident`. -/
def isDeviceResident (residentArgs : List ℕ) (m : MemRef) : Bool :=
  m.traceToFuncArg.any (· ∈ residentArgs)

def operandsOf {V : Type} : BodyOp V ⊕ RegionOp V → List V
  | .inl op => op.operands
  | .inr op => op.operands

def Operand.captured? : Operand → Option MemRef
  | captured m => some m
  | inner _ => none

def collectCapturedMemrefs (body : Body Operand) : List MemRef :=
  ((body.walk.flatMap operandsOf).filterMap Operand.captured?).eraseDups

/-- The result of a view of an alias is an alias. -/
def growAlias (aliases : List Operand) : BodyOp Operand ⊕ RegionOp Operand → List Operand
  | .inl (.view _ source result) =>
    if source ∈ aliases ∧ .inner result ∉ aliases then .inner result :: aliases else aliases
  | _ => aliases

/-- A pass over the body that grows the alias set. -/
def growAliases (ops : List (BodyOp Operand ⊕ RegionOp Operand)) (aliases : List Operand) :
    List Operand :=
  ops.foldl growAlias aliases

/-- The passes over the body until one changes nothing. -/
def growUntilFixed (ops : List (BodyOp Operand ⊕ RegionOp Operand)) :
    ℕ → List Operand → List Operand
  | 0, aliases => aliases
  | fuel + 1, aliases =>
    let next := growAliases ops aliases
    if next.length = aliases.length then aliases else growUntilFixed ops fuel next

/-- Every pass but the last one adds the result of a view. -/
def buildAliasSet (body : Body Operand) (root : MemRef) : List Operand :=
  growUntilFixed body.walk (body.walk.length + 1) [.captured root]

def isWrittenInsideLaunch (body : Body Operand) (memref : MemRef) : Bool :=
  let aliases := buildAliasSet body memref
  body.walk.any fun
    | .inl op => op.knownWrites.any (· ∈ aliases)
    | .inr _ => false

def hostCaptured (residentArgs : List ℕ) (body : Body Operand) : List MemRef :=
  (collectCapturedMemrefs body).filter (!isDeviceResident residentArgs ·)

/-- The memrefs that are copied back, in this order. -/
def outputs (residentArgs : List ℕ) (body : Body Operand) : List MemRef :=
  (hostCaptured residentArgs body).filter (isWrittenInsideLaunch body)

/-- An operand is replaced by the device buffer of the memref. -/
def Operand.toDevice (host : List MemRef) : Operand → StagedOperand
  | captured m => if m ∈ host then .device m else .operand (.captured m)
  | inner name => .operand (.inner name)

def Launch.toDevice (host : List MemRef) (l : Launch Operand) : Launch StagedOperand :=
  ⟨l.name, l.body.map (·.map (Operand.toDevice host)) (·.map (Operand.toDevice host))⟩

/-- The operations that replace a launch. -/
def stageDataForLaunch (residentArgs : List ℕ) (l : Launch Operand) : List StagedOp :=
  let host := hostCaptured residentArgs l.body
  if host = [] then [.launch (l.toDevice [])] else
    [.wait] ++ host.flatMap (fun m => [.alloc (l.name, m), .copyIn (l.name, m)]) ++ [.wait] ++
    [.launch (l.toDevice host)] ++
    [.wait, .wait] ++ (outputs residentArgs l.body).map (fun m => .copyOut (l.name, m)) ++
    [.wait, .wait] ++ host.map (fun m => .dealloc (l.name, m)) ++ [.wait]

def Func.stage (f : Func) : Ops StagedOp HostRegion :=
  f.body.expand fun
    | .launch l => stageDataForLaunch f.residentArgs l
    | .other tag => [.other tag]

/-- An element of a new memref: one of an operand's elements, or one of memory that only the launch
has. -/
inductive Pick where
  | element (operand position : ℕ)
  | scratch (a : ℕ)

/-- What the host has. A memref is the list of the addresses of its elements. -/
structure Host (X H : Type) where
  mem : ℕ → X
  elements : MemRef → List ℕ
  scalars : H
  launched : ℕ

/-- What the operations do, by what they read and what a thread owns. An operation knows the elements
of a memref by their positions. -/
structure Meaning (X H O : Type) where
  host : ℕ → Host X H → Host X H
  branchHost : HostRegion → (n : ℕ) → Host X H → Option (Fin n) × Host X H
  start : ℕ → H → ℕ → O
  schedule : ℕ → List ℕ
  scratch : ℕ → ℕ → X
  reads : BodyOp Unit → O → List (ℕ × ℕ)
  writes : BodyOp Unit → O → List X → List ((ℕ × ℕ) × X)
  results : BodyOp Unit → O → List X → List (ℕ × List Pick)
  next : BodyOp Unit → O → List X → O
  branch : RegionOp Unit → (n : ℕ) → O → Option (Fin n) × O
  arguments : RegionOp Unit → ℕ → O → List (ℕ × List Pick)

/-- How a body's operands denote elements `E` of a memory `S`. -/
structure Memory (V E S X : Type) where
  bind : V → (ℕ → List E) → List E
  scratch : ℕ → E
  load : E → S → X × S
  store : E → X → S → S

namespace Memory

variable {V E S X : Type} (memory : Memory V E S X)

def loadAll : List E → S → List X × S
  | [], s => ([], s)
  | e :: es, s =>
    let first := memory.load e s
    let rest := loadAll es first.2
    (first.1 :: rest.1, rest.2)

def storeAll (stores : List (E × X)) (s : S) : S :=
  stores.foldl (fun s (e, x) => memory.store e x s) s

end Memory

/-- What a thread owns. -/
structure Own (E O : Type) where
  scalars : O
  inner : ℕ → List E

variable {E : Type}

def select (memrefs : List (List E)) (place : ℕ × ℕ) : Option E :=
  memrefs[place.1]?.bind (·[place.2]?)

def Pick.resolve (scratch : ℕ → E) (memrefs : List (List E)) : Pick → Option E
  | element operand position => select memrefs (operand, position)
  | .scratch a => some (scratch a)

/-- Some of the names get the elements that were picked for them. -/
def bindNames (names : List ℕ) (scratch : ℕ → E) (memrefs : List (List E))
    (picked : List (ℕ × List Pick)) (inner : ℕ → List E) : ℕ → List E :=
  picked.foldl (fun inner (i, picks) => match names[i]? with
    | some name => update inner name (picks.filterMap (·.resolve scratch memrefs))
    | none => inner) inner

namespace Meaning

variable {X H O V E S : Type} (M : Meaning X H O)

def kernel (memory : Memory V E S X) : Kernel (BodyOp V) (RegionOp V) (Own E O) S where
  leaf op own s :=
    let memrefs := fun vs : List V => vs.map (memory.bind · own.inner)
    let read := memory.loadAll
      ((M.reads op.shape own.scalars).filterMap (select (memrefs op.reads))) s
    let stores := (M.writes op.shape own.scalars read.1).filterMap fun (place, x) =>
      (select (memrefs op.writes) place).map (·, x)
    (⟨M.next op.shape own.scalars read.1,
      bindNames op.results memory.scratch (memrefs op.operands)
        (M.results op.shape own.scalars read.1) own.inner⟩,
      memory.storeAll stores read.2)
  control op n own :=
    let choice := M.branch op.shape n own.scalars
    (choice.1, ⟨choice.2,
      bindNames (op.args ++ op.results) memory.scratch (op.operands.map (memory.bind · own.inner))
        (M.arguments op.shape n own.scalars) own.inner⟩)

/-- The memory behind a launch, where `s` is the memory before it. -/
def runLaunch (memory : Memory V E S X) (l : Launch V) (h : Host X H) (s : S) : S :=
  ((M.kernel memory).run (M.schedule h.launched)
    (fun i => ⟨[l.body], M.start l.name h.scalars i, fun _ => []⟩) s).2

end Meaning

inductive SourceElem where
  | captured (m : MemRef) (a : ℕ)
  | scratch (a : ℕ)

/-- An access of a launch to the element at an address, by the captured memref that it came
through. -/
structure Access where
  write : Bool
  via : MemRef
  a : ℕ

/-- The memory during a launch, with the accesses so far, the latest one first. -/
structure SourceStore (X : Type) where
  mem : ℕ → X
  scratch : ℕ → X
  log : List Access

def sourceMemory (X : Type) (elements : MemRef → List ℕ) :
    Memory Operand SourceElem (SourceStore X) X where
  bind v inner := match v with
    | .captured m => (elements m).map (.captured m)
    | .inner name => inner name
  scratch := .scratch
  load e s := match e with
    | .captured m a => (s.mem a, { s with log := ⟨false, m, a⟩ :: s.log })
    | .scratch a => (s.scratch a, s)
  store e x s := match e with
    | .captured m a =>
      { s with mem := update s.mem a x, log := ⟨true, m, a⟩ :: s.log }
    | .scratch a => { s with scratch := update s.scratch a x }

namespace Meaning

variable {X H O : Type} (M : Meaning X H O)

def launchSource (l : Launch Operand) (h : Host X H) : SourceStore X :=
  M.runLaunch (sourceMemory X h.elements) l h ⟨h.mem, M.scratch h.launched, []⟩

def sourceMachine : Machine HostOp HostRegion (Host X H) where
  step op h := match op with
    | .launch l => { h with mem := (M.launchSource l h).mem, launched := h.launched + 1 }
    | .other tag => M.host tag h
  control := M.branchHost

end Meaning

inductive StagedElem where
  | host (a : ℕ)
  | device (b : Buffer) (a : ℕ)
  | scratch (a : ℕ)

structure StagedStore (X : Type) where
  mem : ℕ → X
  contents : Buffer → ℕ → X
  scratch : ℕ → X

/-- A buffer that is not allocated has no elements. -/
def stagedMemory (X : Type) (name : ℕ) (elements : MemRef → List ℕ)
    (live : Buffer → Option (List ℕ)) : Memory StagedOperand StagedElem (StagedStore X) X where
  bind v inner := match v with
    | .operand (.captured m) => (elements m).map .host
    | .operand (.inner n) => inner n
    | .device m => ((live (name, m)).getD []).map (.device (name, m))
  scratch := .scratch
  load e s := match e with
    | .host a => (s.mem a, s)
    | .device b a => (s.contents b a, s)
    | .scratch a => (s.scratch a, s)
  store e x s := match e with
    | .host a => { s with mem := update s.mem a x }
    | .device b a =>
      { s with contents := update s.contents b (update (s.contents b) a x) }
    | .scratch a => { s with scratch := update s.scratch a x }

inductive Event where
  | alloc (b : Buffer)
  | launch (name : ℕ)
  | dealloc (b : Buffer)

structure Staged (X H : Type) where
  host : Host X H
  live : Buffer → Option (List ℕ)
  contents : Buffer → ℕ → X
  events : List Event

/-- `gpu.memcpy` between a memref and its buffer. -/
def copyElements {X : Type} (addresses : List ℕ) (src dst : ℕ → X) : ℕ → X :=
  fun a => if a ∈ addresses then src a else dst a

namespace Meaning

variable {X H O : Type} (M : Meaning X H O)

def launchStaged (l : Launch StagedOperand) (s : Staged X H) : StagedStore X :=
  M.runLaunch (stagedMemory X l.name s.host.elements s.live) l s.host
    ⟨s.host.mem, s.contents, M.scratch s.host.launched⟩

def stagedStep (op : StagedOp) (s : Staged X H) : Staged X H := match op with
  | .launch l =>
    let behind := M.launchStaged l s
    { s with
      host := { s.host with mem := behind.mem, launched := s.host.launched + 1 }
      contents := behind.contents
      events := s.events ++ [.launch l.name] }
  | .other tag => { s with host := M.host tag s.host }
  | .wait => s
  | .alloc b =>
    { s with
      live := update s.live b (some (s.host.elements b.2))
      events := s.events ++ [.alloc b] }
  | .copyIn b =>
    { s with
      contents := update s.contents b
        (copyElements ((s.live b).getD []) s.host.mem (s.contents b)) }
  | .copyOut b =>
    { s with
      host := { s.host with
        mem := copyElements ((s.live b).getD []) (s.contents b) s.host.mem } }
  | .dealloc b =>
    { s with live := update s.live b none, events := s.events ++ [.dealloc b] }

def stagedMachine : Machine StagedOp HostRegion (Staged X H) where
  step := M.stagedStep
  control op n s := ((M.branchHost op n s.host).1, { s with host := (M.branchHost op n s.host).2 })

end Meaning

end Matcore.Gpu.DataStaging
