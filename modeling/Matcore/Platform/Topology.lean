import Mathlib
import Matcore.Platform.Capability

/-!
# CPU topologies

`cpu_topology_v1.h` and `validate_cpu_topology_v1` of `cpu_topology_v1.cpp`: logical processors,
the nodes and the cache groups that they belong to.
-/

namespace Matcore.Platform

/-- `std::uint32_t` identifiers. -/
abbrev TopologyId := Fin (2 ^ 32)

instance neZero : NeZero (2 ^ 32) := ⟨by decide⟩

def unknownTopologyId : TopologyId := ⟨2 ^ 32 - 1, by decide⟩

/-- `outside` is a value that is none of the enumerators. -/
inductive CpuCacheType where
  | unknown
  | data
  | instruction
  | unified
  | outside
  deriving DecidableEq

/-- The value of the enumerator, by which groups are ordered. -/
def CpuCacheType.value : CpuCacheType → ℕ
  | .unknown => 0
  | .data => 1
  | .instruction => 2
  | .unified => 3
  | .outside => 4

structure CpuLogicalProcessor where
  logicalCpu : TopologyId := unknownTopologyId
  coreId : TopologyId := unknownTopologyId
  packageId : TopologyId := unknownTopologyId
  numaNodeId : TopologyId := unknownTopologyId
  threadIndex : TopologyId := unknownTopologyId
  online : Bool := false

structure CpuNumaNode where
  nodeId : TopologyId := unknownTopologyId
  logicalCpus : List TopologyId := []

structure CpuCacheGroup where
  level : ℕ := 0
  type : CpuCacheType := .unknown
  sizeBytes : ℕ := 0
  lineSizeBytes : ℕ := 0
  sharedLogicalCpus : List TopologyId := []

structure CpuTopology where
  version : ℕ := 1
  architecture : ArchitectureKind := .unknown
  discoveryComplete : Bool := false
  logicalProcessors : List CpuLogicalProcessor := []
  numaNodes : List CpuNumaNode := []
  cacheGroups : List CpuCacheGroup := []

/-- `outside` is a value that is none of the enumerators. -/
inductive CpuAffinityPolicy where
  | compact
  | scatter
  | localFirst
  | outside
  deriving DecidableEq

/-! ### Lookups

`std::lower_bound` finds the first record whose identifier is not below the one asked for. -/

def findProcessor (processors : List CpuLogicalProcessor) (cpu : TopologyId) :
    Option CpuLogicalProcessor :=
  processors.find? fun candidate => !(candidate.logicalCpu < cpu : Bool)

def findNode (nodes : List CpuNumaNode) (id : TopologyId) : Option CpuNumaNode :=
  nodes.find? fun candidate => !(candidate.nodeId < id : Bool)

/-- Sorted by `<=` and without two equal neighbours. -/
def uniqueSorted (cpus : List TopologyId) : Bool :=
  cpus.Pairwise (· ≤ ·) && cpus.IsChain (· ≠ ·)

/-- The loop over the processors, with the identifier of the one before. -/
def processorsReason (complete : Bool) :
    Option TopologyId → List CpuLogicalProcessor → Option String
  | _, [] => none
  | previous, processor :: rest =>
    firstRefusal [
      (processor.logicalCpu = unknownTopologyId,
        "CPU topology contains an unknown logical CPU ID"),
      (previous.any (processor.logicalCpu ≤ ·),
        "CPU topology logical CPUs must be unique and sorted"),
      (complete && (!processor.online || processor.coreId = unknownTopologyId ||
        processor.packageId = unknownTopologyId || processor.numaNodeId = unknownTopologyId ||
        processor.threadIndex = unknownTopologyId),
        "complete topology requires every online CPU mapping")] <|>
    processorsReason complete (some processor.logicalCpu) rest

/-- The loop over the nodes, with the identifier of the one before. -/
def nodesReason (processors : List CpuLogicalProcessor) :
    Option TopologyId → List CpuNumaNode → Option String
  | _, [] => none
  | previous, node :: rest =>
    firstRefusal [
      (node.nodeId = unknownTopologyId || previous.any (node.nodeId ≤ ·),
        "NUMA node IDs must be known, unique, and sorted"),
      (!uniqueSorted node.logicalCpus, "NUMA logical CPU lists must be unique and sorted"),
      (node.logicalCpus.any fun cpu => !(findProcessor processors cpu).any fun processor =>
          processor.logicalCpu = cpu && processor.numaNodeId = node.nodeId,
        "NUMA mapping disagrees with logical CPU records")] <|>
    nodesReason processors (some node.nodeId) rest

def cacheReason (processors : List CpuLogicalProcessor) (cache : CpuCacheGroup) :
    Option String :=
  firstRefusal [
    (cache.type = .outside || cache.type = .unknown || cache.level = 0 || cache.sizeBytes = 0 ||
      cache.lineSizeBytes = 0 || cache.sharedLogicalCpus.isEmpty,
      "CPU cache group is incomplete or invalid"),
    (!uniqueSorted cache.sharedLogicalCpus,
      "cache-sharing CPU lists must be unique and sorted"),
    (cache.sharedLogicalCpus.any fun cpu => !(findProcessor processors cpu).any fun processor =>
        processor.logicalCpu = cpu,
      "cache group references an absent logical CPU")]

/-- The reason for which a topology is invalid, if it is. A node list is searched by bisection
when it is known to be sorted, which finds what is in it. -/
def validateCpuTopology (record : CpuTopology) : Option String :=
  firstRefusal [
    (record.version ≠ 1, "CPU topology record version is unsupported"),
    (record.architecture = .outside, "CPU topology architecture is invalid")] <|>
  processorsReason record.discoveryComplete none record.logicalProcessors <|>
  nodesReason record.logicalProcessors none record.numaNodes <|>
  firstRefusal (record.logicalProcessors.map fun processor =>
    (processor.numaNodeId ≠ unknownTopologyId &&
      !(findNode record.numaNodes processor.numaNodeId).any fun node =>
        node.nodeId = processor.numaNodeId && node.logicalCpus.contains processor.logicalCpu,
      "logical CPU references an absent NUMA node mapping")) <|>
  record.cacheGroups.findSome? (cacheReason record.logicalProcessors) <|>
  firstRefusal [
    (record.discoveryComplete && (record.architecture = .unknown ||
      record.logicalProcessors.isEmpty || record.numaNodes.isEmpty ||
      record.cacheGroups.isEmpty),
      "complete CPU topology requires architecture, CPU, NUMA, and cache records")]

def uint32Max : ℕ := 2 ^ 32 - 1

def logicalCpuCount (record : CpuTopology) : ℕ :=
  min uint32Max (record.logicalProcessors.countP (·.online))

/-- The processors that are the first of their core. -/
def firstOfCores : List CpuLogicalProcessor → List CpuLogicalProcessor → ℕ
  | _, [] => 0
  | prior, processor :: rest =>
    let skipped := !processor.online || processor.coreId = unknownTopologyId ||
      processor.packageId = unknownTopologyId
    let seen := prior.any fun candidate => candidate.online &&
      candidate.coreId = processor.coreId && candidate.packageId = processor.packageId
    (if !skipped && !seen then 1 else 0) + firstOfCores (prior ++ [processor]) rest

def physicalCoreCount (record : CpuTopology) : ℕ :=
  min uint32Max (firstOfCores [] record.logicalProcessors)

def numaNodeCount (record : CpuTopology) : ℕ := min uint32Max record.numaNodes.length

/-! ### Lists of processors

`parse_cpu_list`: 44 is the comma, 45 the dash. -/

/-- `parse_u32`: `std::from_chars`, which has to take the whole text. -/
def parseU32 (text : List UInt8) : Option TopologyId :=
  if text ≠ [] ∧ ∀ c ∈ text, 48 ≤ c ∧ c ≤ 57 then
    let value := text.foldl (fun value c => 10 * value + (c.toNat - 48)) 0
    if h : value < 2 ^ 32 then some ⟨value, h⟩ else none
  else none

/-- The loop that appends the ids from `cpu` to `last`. -/
def expand (last cpu : TopologyId) : Option (List TopologyId) :=
  if cpu = last then some [cpu]
  else if h : cpu.val = 2 ^ 32 - 1 then none
  else (cpu :: ·) <$> expand last ⟨cpu + 1, by omega⟩
termination_by 2 ^ 32 - cpu.val
decreasing_by omega

/-- The first and the last id of an item. -/
def parseBounds (token : List UInt8) : Option (TopologyId × TopologyId) := do
  let first ← parseU32 (token.takeWhile (· != 45))
  match token.dropWhile (· != 45) with
  | [] => return (first, first)
  | _ :: last =>
    if 45 ∈ last then none
    else
      let last ← parseU32 last
      if last < first then none else return (first, last)

def parseItem (token : List UInt8) : Option (List TopologyId) := do
  let (first, last) ← parseBounds token
  if 1048576 < last.val - first.val then none else expand last first

/-- The loop over the items, from the cursor on. -/
def parseItems (text : List UInt8) : Option (List TopologyId) :=
  if text = [] then some []
  else
    let token := text.takeWhile (· != 44)
    if token = [] then none
    else do
      let cpus ← parseItem token
      match _h : text.dropWhile (· != 44) with
      | [] => some cpus
      | _ :: rest => if rest = [] then none else (cpus ++ ·) <$> parseItems rest
termination_by text.length
decreasing_by
  have hle := (List.dropWhile_suffix (l := text) (· != 44)).length_le
  rwa [_h] at hle

def parseCpuList (text : List UInt8) : Option (List TopologyId) := do
  let cpus := (← parseItems text).mergeSort
  if cpus.IsChain (· ≠ ·) then return cpus else none

end Matcore.Platform
