import Mathlib.Data.List.Sort
import Matcore.Lib.Kahn

/-!
# Captured graphs

`FusionGraph` of `matcore/graph.py`: kernel launches are captured, analysed for the hazards between
them and launched in an order that respects the hazards found. A Python object is named by its
`id`. A launch that raises is not modelled.
-/

namespace Matcore.Frontend

/-- A value in the dictionary of an operation. An item of a list that is no string is `none`. -/
inductive Value where
  | str (text : String)
  | list (items : List (Option String))
  | other
  deriving DecidableEq

/-- An entry of `ops`: a dictionary, or something else. -/
inductive RawOp where
  | dict (fields : List (String × Value))
  | other

structure KernelIR where
  params : List String
  ops : List RawOp

/-- The dictionaries among the operations. -/
def KernelIR.dicts (kernel : KernelIR) : List (List (String × Value)) :=
  kernel.ops.filterMap fun
    | .dict fields => some fields
    | .other => none

/-- What is below the graph: the attributes `_array`, `base` and `__array_interface__` of the
objects, `np.may_share_memory` with `none` for an exception, and the names that `ast` or, for a text
that is no expression, the pattern of `_symbols_from_expression` finds in a text. -/
structure Python where
  objects : ℕ
  array : ℕ → Option ℕ
  base : ℕ → Option ℕ
  arrayInterface : ℕ → Option ℕ
  mayShareMemory : ℕ → ℕ → Option Bool
  names : String → List String

namespace FusionGraph

structure Node where
  kernelIr : KernelIR
  arrays : List ℕ
  /-- `kwargs["target"]`, if it is a string -/
  target : Option String

variable (python : Python)

/-- The loop of `_resolve_array_owner`. A parent is seen once, so that it makes no more turns than
there are objects. -/
def climb : ℕ → List ℕ → ℕ → ℕ
  | 0, _, current => current
  | turns + 1, seen, current =>
    match python.base current with
    | none => current
    | some parent => if parent ∈ seen then current else climb turns (parent :: seen) parent

def resolveArrayOwner (value : ℕ) : ℕ :=
  climb python python.objects [] ((python.array value).getD value)

inductive Identity where
  | ptr (data : ℕ)
  | obj (id : ℕ)
  deriving DecidableEq

def arrayIdentity (value : ℕ) : Identity :=
  let owner := resolveArrayOwner python value
  match python.arrayInterface owner with
  | some data => .ptr data
  | none => .obj owner

def arraysMayAlias (lhs rhs : ℕ) : Bool := (python.mayShareMemory lhs rhs).getD false

/-- The identities are those of the arrays. -/
def hasAliasOverlap (lhs rhs : List ℕ) : Bool :=
  (lhs.any fun l => rhs.any fun r => arrayIdentity python l = arrayIdentity python r) ||
    lhs.any fun l => rhs.any fun r => arraysMayAlias python l r

/-- `param_index`: the last parameter of a name counts. -/
def paramIndex (params : List String) (symbol : String) : Option ℕ :=
  (params.zipIdx.filter (·.1 = symbol)).getLast?.map (·.2)

def isStoreTo (fields : List (String × Value)) (tensor : String) : Bool :=
  fields.lookup "op" = some (.str "store") && fields.lookup "tensor" = some (.str tensor)

/-- The parameter that an operation writes, as the analysis sees it. -/
def writeSymbols (params : List String) (fields : List (String × Value)) : List String :=
  params.filter (isStoreTo fields)

/-- The parameters that a value of an operation reads, as the analysis sees it. -/
def valueSymbols (params : List String) (fields : List (String × Value)) : Value → List String
  | .str text =>
    if text ∈ params then if isStoreTo fields text then [] else [text]
    else (python.names text).filter (· ∈ params)
  | .list items => items.reduceOption.filter (· ∈ params)
  | .other => []

def readSymbols (params : List String) (fields : List (String × Value)) : List String :=
  fields.flatMap fun (_, value) => valueSymbols python params fields value

/-- The array of a parameter. -/
def Node.arrayOf (node : Node) (symbol : String) : Option ℕ :=
  (paramIndex node.kernelIr.params symbol).bind (node.arrays[·]?)

/-- The owners of the arrays of some parameters. -/
def owners (node : Node) (symbols : List String) : List ℕ :=
  symbols.filterMap fun symbol => (node.arrayOf symbol).map (resolveArrayOwner python)

structure Metadata where
  reads : List ℕ
  writes : List ℕ
  kind : String

def primaryOpKind (node : Node) : String :=
  let kind (fields : List (String × Value)) : Option String :=
    match fields.lookup "op" with
    | some (.str name) =>
      if name ∈ ["matmul", "elementwise", "transpose", "cast"] then some name else none
    | _ => none
  (node.kernelIr.dicts.findSome? kind).getD "unknown"

/-- `_infer_read_write_sets`. -/
def metadata (node : Node) : Metadata where
  reads := owners python node
    (node.kernelIr.dicts.flatMap (readSymbols python node.kernelIr.params))
  writes := owners python node
    (node.kernelIr.dicts.flatMap (writeSymbols node.kernelIr.params))
  kind := primaryOpKind node

structure Edge where
  src : ℕ
  dst : ℕ
  hazards : List String

def hazards (producer consumer : Metadata) : List String :=
  (if hasAliasOverlap python producer.writes consumer.reads then ["RAW"] else []) ++
    (if hasAliasOverlap python producer.writes consumer.writes then ["WAW"] else []) ++
    (if hasAliasOverlap python producer.reads consumer.writes then ["WAR"] else [])

/-- The loops over the pairs of nodes. A pair comes up once. -/
def inferEdges (nodes : List Node) : List Edge :=
  nodes.zipIdx.flatMap fun (producer, src) => nodes.zipIdx.filterMap fun (consumer, dst) =>
    let found := hazards python (metadata python producer) (metadata python consumer)
    if src < dst ∧ found ≠ [] then some ⟨src, dst, found⟩ else none

def outgoing (edges : List Edge) (src : ℕ) : List ℕ :=
  ((edges.filter (·.src = src)).map (·.dst)).insertionSort (· ≤ ·)

def indegree (edges : List Edge) (dst : ℕ) : ℕ := edges.countP (·.dst = dst)

/-- The nodes without an edge to them. -/
def sources (nodeCount : ℕ) (edges : List Edge) : List ℕ :=
  (List.range nodeCount).filter fun node => indegree edges node = 0

def stableTopologicalOrder (nodeCount : ℕ) (edges : List Edge) : Except String (List ℕ) :=
  let order := Kahn.order (outgoing edges) nodeCount (indegree edges) (sources nodeCount edges)
  if order.length ≠ nodeCount then
    .error "FusionGraph dependency cycle detected; cannot execute graph."
  else .ok order

def parallelizableLevels (nodeCount : ℕ) (edges : List Edge) : List (List ℕ) :=
  Kahn.levels (outgoing edges) (List.insertionSort (· ≤ ·)) nodeCount (indegree edges)
    (sources nodeCount edges)

structure FusiblePair where
  producer : ℕ
  consumer : ℕ
  pattern : String

def fusionPattern (producer consumer : String) : Option String :=
  if producer = "matmul" ∧ consumer = "elementwise" then some "matmul->elementwise"
  else if producer = "matmul" ∧ consumer = "transpose" then some "matmul->transpose"
  else if producer = "elementwise" ∧ consumer = "elementwise" then some "elementwise->elementwise"
  else none

structure Report where
  nodeCount : ℕ
  edges : List Edge
  executionOrder : List ℕ
  parallelizableLevels : List (List ℕ)
  independentNodes : List ℕ
  fusiblePairs : List FusiblePair

def fusiblePairs (nodes : List Node) (edges : List Edge) : List FusiblePair :=
  edges.filterMap fun edge =>
    if "RAW" ∈ edge.hazards then
      match nodes[edge.src]?, nodes[edge.dst]? with
      | some producer, some consumer =>
        (fusionPattern (primaryOpKind producer) (primaryOpKind consumer)).map
          (⟨edge.src, edge.dst, ·⟩)
      | _, _ => none
    else none

def analyzeFusionOpportunities (nodes : List Node) : Except String Report := do
  let edges := inferEdges python nodes
  let order ← stableTopologicalOrder nodes.length edges
  .ok {
    nodeCount := nodes.length
    edges
    executionOrder := order
    parallelizableLevels := parallelizableLevels nodes.length edges
    independentNodes := (List.range nodes.length).filter fun node =>
      edges.all fun edge => edge.src ≠ node && edge.dst ≠ node
    fusiblePairs := fusiblePairs nodes edges }

variable {Cell Content : Type}

structure State (Cell Content : Type) where
  nodes : List Node := []
  analysisReport : Option Report := none
  memory : Cell → Content

inductive Call where
  | addNode (node : Node)
  | analyze
  | execute

/-- What a run shows. -/
inductive Event (Cell Content : Type) where
  | added (node : ℕ)
  | analyzed (nodes : List Node) (report : Report)
  /-- the nodes captured, those launched, and the memory before and after -/
  | executed (nodes : List Node) (launched : List ℕ) (before after : Cell → Content)
  | raised (message : String)

variable (launchImmediate : KernelIR → String → List ℕ → (Cell → Content) → Cell → Content)

/-- The loop of `execute`: the nodes launched, the memory and the message of an exception. -/
def launchAll (nodes : List Node) :
    List ℕ → (Cell → Content) → List ℕ × (Cell → Content) × Option String
  | [], memory => ([], memory, none)
  | index :: order, memory =>
    match nodes[index]? with
    | none => ([], memory, some "list index out of range")
    | some node =>
      match node.target with
      | none => ([], memory, some "Captured graph node is missing normalized target metadata.")
      | some target =>
        let (launched, memory, message) := launchAll nodes order
          (launchImmediate node.kernelIr target node.arrays memory)
        (index :: launched, memory, message)

/-- The report that `execute` uses. -/
def reportFor (s : State Cell Content) : Except String (Report × List (Event Cell Content)) :=
  match s.analysisReport with
  | some report => .ok (report, [])
  | none => do
    let report ← analyzeFusionOpportunities python s.nodes
    .ok (report, [.analyzed s.nodes report])

/-- A call on the graph. -/
def next (s : State Cell Content) : Call → Option (State Cell Content × List (Event Cell Content))
  | .addNode node => some ({ s with nodes := s.nodes ++ [node] }, [.added s.nodes.length])
  | .analyze =>
    match analyzeFusionOpportunities python s.nodes with
    | .error message => some (s, [.raised message])
    | .ok report => some ({ s with analysisReport := some report }, [.analyzed s.nodes report])
  | .execute =>
    match reportFor python s with
    | .error message => some (s, [.raised message])
    | .ok (report, events) =>
      match launchAll launchImmediate s.nodes report.executionOrder s.memory with
      | (launched, memory, none) => some ({ s with analysisReport := some report, memory },
          events ++ [.executed s.nodes launched s.memory memory])
      | (_, memory, some message) =>
        some ({ s with analysisReport := some report, memory }, events ++ [.raised message])

end FusionGraph

end Matcore.Frontend
