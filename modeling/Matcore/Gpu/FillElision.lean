import Matcore.Lib.Regions

/-!
# Eliding redundant workgroup fills

`ElideRedundantWorkgroupFillPass` of `gpu_tiling.cpp`. An operation that only names a memref (a cast,
a view, a subview) has no effect and is left out: the memref says which operations gave it. Addresses
count bytes, and index arithmetic does not overflow.
-/

namespace Matcore.Gpu.FillElision

open Regions (Ops Machine)

/-- An index operand: in an attribute, a constant, or another value with a name. -/
inductive Index where
  | attr (n : ℤ)
  | constant (n : ℤ)
  | value (name : ℕ)
  deriving DecidableEq

/-- `getConstantIndexFromOpFoldResult`. -/
def Index.matchConstant : Index → Option ℤ
  | .attr n => some n
  | .constant n => some n
  | .value _ => none

/-- A dimension of a `memref.subview`. A unit dimension may be dropped from the result. -/
structure SubDim where
  offset : Index
  size : Index
  stride : Index
  dropped : Bool := false
  deriving DecidableEq

/-- A dimension of a `memref.view`, which may be static. -/
inductive ViewDim where
  | fixed (size : ℕ)
  | dynamic (size : Index)
  deriving DecidableEq

/-- A memref value, from the operations that gave it. The results of two operations have different
names. A `value` comes from elsewhere. -/
inductive MemRef where
  | value (name : ℕ) (shape : List (Option ℕ)) (elementBytes : ℕ) (workgroup : Bool)
  | cast (name : ℕ) (source : MemRef) (shape : List (Option ℕ))
  | view (name : ℕ) (source : MemRef) (byteShift : Index) (dims : List ViewDim) (elementBytes : ℕ)
  | subview (name : ℕ) (source : MemRef) (dims : List SubDim)
  deriving DecidableEq

namespace MemRef

/-- The shape in the type. -/
def shape : MemRef → List (Option ℕ)
  | value _ shape _ _ => shape
  | cast _ _ shape => shape
  | view _ _ _ dims _ => dims.map fun
    | .fixed size => some size
    | .dynamic _ => none
  | subview _ _ dims => (dims.filter (!·.dropped)).map fun dim => match dim.size with
    | .attr n => some n.toNat
    | _ => none

def elementBytes : MemRef → ℕ
  | value _ _ bytes _ => bytes
  | cast _ source _ => source.elementBytes
  | view _ _ _ _ bytes => bytes
  | subview _ source _ => source.elementBytes

/-- `IsWorkgroupMemorySpace`, which a cast, a view and a subview keep. -/
def workgroup : MemRef → Bool
  | value _ _ _ workgroup => workgroup
  | cast _ source _ => source.workgroup
  | view _ source _ _ _ => source.workgroup
  | subview _ source _ => source.workgroup

def staticShape (m : MemRef) : Option (List ℕ) := m.shape.mapM id

/-- `inferStaticViewType`, of a view that has a dynamic dimension: the sizes are those that are
operands. -/
def inferViewShape (byteShift : Index) (dims : List ViewDim) : Option (List ℕ) := do
  guard (byteShift.matchConstant = some 0)
  (dims.filterMap fun | .fixed _ => none | .dynamic size => some size).mapM fun size =>
    size.matchConstant.bind fun n => if 0 ≤ n then some n.toNat else none

def inferStaticShape : MemRef → Option (List ℕ)
  | m@(value _ _ _ _) => m.staticShape
  | m@(cast _ source _) => m.staticShape.orElse fun _ => source.inferStaticShape
  | m@(view _ _ byteShift dims _) => m.staticShape.orElse fun _ => inferViewShape byteShift dims
  | m@(subview _ _ _) => m.staticShape

/-- One of the dimensions that a full subview is checked in. -/
def isFullDim (dim : SubDim) (size : ℕ) : Bool :=
  dim.offset.matchConstant = some 0 && dim.stride.matchConstant = some 1 &&
    dim.size.matchConstant = some (size : ℤ)

def isSameBufferOrFullSubview (m base : MemRef) : Bool :=
  m = base || match m with
    | subview _ source dims =>
      (source = base || match source with
        | cast _ source _ => source = base
        | _ => false) &&
      match base.inferStaticShape with
      | some shape =>
        m.shape.length = shape.length && (dims.zip shape).all fun (dim, size) => isFullDim dim size
      | none => false
    | _ => false

end MemRef

/-- Any other operation without regions, with the memrefs that it may read and write. One that does
not implement the memory effect interface has none to report. -/
structure Other where
  tag : ℕ
  reads : List MemRef
  writes : List MemRef
  results : List ℕ
  hasInterface : Bool

inductive Op where
  | fill (value : ℕ) (outputs : List MemRef)
  | copy (input : MemRef) (outputs : List MemRef)
  | other (op : Other)

/-- An operation with regions. None of them implements the memory effect interface: their effects
are those of the operations inside. `args` are the arguments of its blocks. -/
structure RegionOp where
  tag : ℕ
  args : List ℕ
  results : List ℕ

abbrev Body := Ops Op RegionOp

namespace Op

def reads : Op → List MemRef
  | fill _ _ => []
  | copy input _ => [input]
  | other op => op.reads

def writes : Op → List MemRef
  | fill _ outputs => outputs
  | copy _ outputs => outputs
  | other op => op.writes

def results : Op → List ℕ
  | other op => op.results
  | _ => []

def hasInterface : Op → Bool
  | other op => op.hasInterface
  | _ => true

def opMayReadBuffer (op : Op) (buffer : MemRef) : Bool :=
  let overwrites := match op with
    | fill _ outputs => outputs.any (·.isSameBufferOrFullSubview buffer)
    | copy _ outputs => outputs.any (·.isSameBufferOrFullSubview buffer)
    | other _ => false
  !overwrites && op.hasInterface && buffer ∈ op.reads

def copyFullyOverwritesBuffer (op : Op) (buffer : MemRef) : Bool :=
  match op with
  | copy _ outputs => outputs.any (·.isSameBufferOrFullSubview buffer)
  | _ => false

end Op

/-- The walk of the cursor: the operations up to a copy that fully overwrites the buffer. -/
def scan (buffer : MemRef) : Body → Option (Body × Op)
  | .nil => none
  | .leaf op rest =>
    if op.copyFullyOverwritesBuffer buffer then some (.nil, op)
    else if op.opMayReadBuffer buffer then none
    else (scan buffer rest).map fun (mid, copy) => (.leaf op mid, copy)
  | .region op n blocks rest =>
    (scan buffer rest).map fun (mid, copy) => (.region op n blocks mid, copy)

/-- An operation is erased: the buffer, and what the cursor has walked over. -/
def erased (op : Op) (rest : Body) : Option (MemRef × Body × Op) :=
  match op with
  | .fill _ [buffer] =>
    if buffer.workgroup then (scan buffer rest).map fun (mid, copy) => (buffer, mid, copy) else none
  | _ => none

/-- The function behind the pass. The fills are taken in the order of the walk, so that what follows
one of them is as it was. -/
def elide : Body → Body
  | .nil => .nil
  | .leaf op rest => if (erased op rest).isSome then elide rest else .leaf op (elide rest)
  | .region op n blocks rest => .region op n (fun i => elide (blocks i)) (elide rest)

/-- Where a memref value lies: the distances between its elements are in bytes. -/
structure Placement where
  block : ℕ
  offset : ℤ
  size : ℕ → ℕ
  stride : ℕ → ℤ

/-- The values in scope. -/
structure Env where
  index : ℕ → ℤ
  place : ℕ → Placement

def Index.eval (env : Env) : Index → ℤ
  | .attr n => n
  | .constant n => n
  | .value name => env.index name

def ViewDim.eval (env : Env) : ViewDim → ℕ
  | .fixed size => size
  | .dynamic size => (size.eval env).toNat

/-- A block, the position of the first element in it, and the size and the stride of each
dimension. -/
structure Layout where
  block : ℕ
  offset : ℤ
  dims : List (ℕ × ℤ)

/-- The dimensions of a view, which is contiguous. -/
def contiguous (elementBytes : ℕ) : List ℕ → List (ℕ × ℤ)
  | [] => []
  | size :: sizes => (size, elementBytes * sizes.prod) :: contiguous elementBytes sizes

abbrev Address := ℕ × ℤ

/-- The positions of the elements. -/
def positions : List (ℕ × ℤ) → ℤ → List ℤ
  | [], offset => [offset]
  | (size, stride) :: dims, offset =>
    (List.range size).flatMap fun i => positions dims (offset + i * stride)

namespace MemRef

/-- A dimension that is static in the type has that size. -/
def layout (env : Env) : MemRef → Layout
  | value name shape _ _ =>
    let place := env.place name
    ⟨place.block, place.offset, shape.mapIdx fun i size => (size.getD (place.size i), place.stride i)⟩
  | cast _ source shape =>
    let l := source.layout env
    ⟨l.block, l.offset, List.zipWith (fun size dim => (size.getD dim.1, dim.2)) shape l.dims⟩
  | view _ source byteShift dims bytes =>
    let l := source.layout env
    ⟨l.block, l.offset + byteShift.eval env, contiguous bytes (dims.map (·.eval env))⟩
  | subview _ source dims =>
    let l := source.layout env
    ⟨l.block,
      l.offset + (List.zipWith (fun dim d => dim.offset.eval env * d.2) dims l.dims).sum,
      ((dims.zip l.dims).filter (!·.1.dropped)).map fun (dim, d) =>
        ((dim.size.eval env).toNat, dim.stride.eval env * d.2)⟩

/-- The addresses of the bytes of all elements. -/
def elements (env : Env) (m : MemRef) : List Address :=
  let l := m.layout env
  (positions l.dims l.offset).flatMap fun position =>
    (List.range m.elementBytes).map fun (byte : ℕ) => (l.block, position + byte)

end MemRef

def Index.names : Index → List ℕ
  | .value name => [name]
  | _ => []

def ViewDim.names : ViewDim → List ℕ
  | .fixed _ => []
  | .dynamic size => size.names

def SubDim.names (dim : SubDim) : List ℕ := dim.offset.names ++ dim.size.names ++ dim.stride.names

namespace MemRef

/-- The values that a memref depends on. -/
def names : MemRef → List ℕ
  | value name _ _ _ => [name]
  | cast _ source _ => source.names
  | view _ source byteShift dims _ => source.names ++ byteShift.names ++ dims.flatMap (·.names)
  | subview _ source dims => source.names ++ dims.flatMap (·.names)

/-- What the verifiers of the operations check. -/
def Verified : MemRef → Prop
  | value _ _ _ _ => True
  | cast _ source shape =>
    source.Verified ∧ List.Forall₂ (fun a b => a = none ∨ b = none ∨ a = b) shape source.shape
  | view _ source _ _ _ => source.Verified
  | subview _ source dims =>
    source.Verified ∧ dims.length = source.shape.length ∧
      ∀ dim ∈ dims, dim.dropped = true → dim.size = .attr 1

end MemRef

/-- Every value is defined before it is used, and once. -/
def Scoped : List ℕ → Body → Prop
  | _, .nil => True
  | defined, .leaf op rest =>
    (∀ m ∈ op.reads ++ op.writes, m.Verified ∧ m.names ⊆ defined) ∧
      (∀ name ∈ op.results, name ∉ defined) ∧ Scoped (op.results ++ defined) rest
  | defined, .region op _ blocks rest =>
    (∀ name ∈ op.args ++ op.results, name ∉ defined) ∧
      (∀ i, Scoped (op.args ++ defined) (blocks i)) ∧ Scoped (op.results ++ defined) rest

structure FuncOp where
  args : List ℕ
  body : Body
  inScope : Scoped args body

structure State (X V : Type) where
  env : Env
  /-- the other values in scope -/
  data : X
  mem : Address → V

/-- Two environments give the same values but those of some names. -/
def AgreesOutside (names : List ℕ) (env env' : Env) : Prop :=
  ∀ name ∉ names, env.index name = env'.index name ∧ env.place name = env'.place name

/-- What the operations do: which elements an operation reads and writes, what it writes there, the
values that it defines, and the block that is entered next. The environments are those that can
occur. -/
structure Meaning (X V : Type) (Occurring : Env → Prop) where
  reads : Other → Env → X → List Address
  writes : Other → Env → X → List Address
  value : Op → Env → X → (Address → Option V) → Address → V
  next : Other → Env → X → (Address → Option V) → Env × X
  control : RegionOp → (n : ℕ) → Env → X → Option (Fin n) × Env × X
  reads_elements : ∀ op env x, ∀ a ∈ reads op env x, ∃ m ∈ op.reads, a ∈ m.elements env
  writes_elements : ∀ op env x, ∀ a ∈ writes op env x, ∃ m ∈ op.writes, a ∈ m.elements env
  next_agrees : ∀ op env x r, AgreesOutside op.results env (next op env x r).1
  next_occurs : ∀ op env x r, Occurring env → Occurring (next op env x r).1
  control_agrees : ∀ op n env x, AgreesOutside (op.args ++ op.results) env (control op n env x).2.1
  control_occurs : ∀ op n env x, Occurring env → Occurring (control op n env x).2.1

namespace Meaning

variable {X V : Type} {Occurring : Env → Prop} (M : Meaning X V Occurring)

/-- The addresses that an operation reads. A copy reads all of its input. -/
def readSet (op : Op) (s : State X V) : List Address :=
  match op with
  | .fill _ _ => []
  | .copy input _ => input.elements s.env
  | .other op => M.reads op s.env s.data

/-- The addresses that an operation writes. A fill or a copy writes all of its outputs. -/
def writeSet (op : Op) (s : State X V) : List Address :=
  match op with
  | .fill _ outputs => outputs.flatMap (·.elements s.env)
  | .copy _ outputs => outputs.flatMap (·.elements s.env)
  | .other op => M.writes op s.env s.data

/-- What an operation sees of the memory. -/
def seen (op : Op) (s : State X V) (a : Address) : Option V :=
  if a ∈ M.readSet op s then some (s.mem a) else none

/-- The values in scope behind an operation. A fill or a copy has no results. -/
def after (op : Op) (s : State X V) : Env × X :=
  match op with
  | .other other => M.next other s.env s.data (M.seen op s)
  | _ => (s.env, s.data)

def machine : Machine Op RegionOp (State X V) where
  step op s :=
    let after := M.after op s
    { env := after.1
      data := after.2
      mem := fun a =>
        if a ∈ M.writeSet op s then M.value op s.env s.data (M.seen op s) a else s.mem a }
  control op n s :=
    let next := M.control op n s.env s.data
    (next.1, { s with env := next.2.1, data := next.2.2 })

end Meaning

end Matcore.Gpu.FillElision
