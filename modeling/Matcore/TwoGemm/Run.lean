import Matcore.Lib.LittleEndian
import Matcore.TwoGemm.Verify

/-!
# Executing a region and its source

What a region function does, operation by operation, and what the two calls of its source contract
do. Descriptors are views of one byte-addressed memory, which may overlap in any way. The
arithmetic of `f32` is arbitrary.

An operation without a meaning gets stuck: the whole execution is then `none`.
-/

namespace Matcore.TwoGemm

open Mlir (Entries Bytes Value)
open LoopNest (AffineMap Tensor Operand points execute)

/-- Arithmetic on the bits of a `f32`, and the contents the program does not determine: the
elements of an empty tensor, by its place, and of a dense constant, by its text. -/
structure Arithmetic where
  addf : BitVec 32 → BitVec 32 → BitVec 32
  mulf : BitVec 32 → BitVec 32 → BitVec 32
  undefined : ℕ → List ℕ → BitVec 32
  dense : Bytes → List ℕ → BitVec 32

abbrev Memory := ℕ → UInt8

/-- The tensor a descriptor stands for, dense and row by row. -/
structure View where
  data : ℕ
  rows : ℤ
  columns : ℤ

namespace View

def shape (view : View) : List ℕ := [view.rows.toNat, view.columns.toNat]

def bytes (view : View) : ℕ := 4 * (view.rows.toNat * view.columns.toNat)

def loadWord (memory : Memory) (address : ℕ) : BitVec 32 :=
  BitVec.ofNat 32 (LittleEndian.value ((List.range 4).map fun i => memory (address + i)))

def read (memory : Memory) (view : View) : Tensor (BitVec 32) where
  shape := view.shape
  get
    | [i, j] => loadWord memory (view.data + 4 * (i * view.columns.toNat + j))
    | _ => 0

def write (memory : Memory) (view : View) (value : Tensor (BitVec 32)) : Memory := fun address =>
  if view.data ≤ address ∧ address < view.data + view.bytes then
    let offset := address - view.data
    let element := offset / 4
    let word := value.get [element / view.columns.toNat, element % view.columns.toNat]
    UInt8.ofNat (word.toNat / 256 ^ (offset % 4) % 256)
  else memory address

end View

/-- The byte ranges have no byte in common. -/
def View.disjoint (a b : View) : Bool :=
  a.data + a.bytes ≤ b.data || b.data + b.bytes ≤ a.data

/-- A row that the runtime validates. `floating` is its check of the floating-point environment. -/
def RegionGuardEntry.holds (floating : Bool) (views : Roles View) (entry : RegionGuardEntry) :
    Bool :=
  match entry.predicate, entry.subjects with
  | .dataNonnull, [role] => (views.get role).data ≠ 0
  | .positiveDimensions, [role] => 0 < (views.get role).rows && 0 < (views.get role).columns
  | .pointerAlignmentRequired, [role] => (views.get role).data % entry.alignmentBytes = 0
  | .byteRangeRepresentable, [role] => (views.get role).data + (views.get role).bytes < 2 ^ 64
  | .contractionDimensionEqual, [a, b] => (views.get a).columns = (views.get b).rows
  | .outputRowsEqual, [a, b] => (views.get a).rows = (views.get b).rows
  | .outputColumnsEqual, [a, b] => (views.get a).columns = (views.get b).columns
  | .outputInputNoOverlap, [a, b] => (views.get a).disjoint (views.get b)
  | .floatingEnvironmentCompatible, [] => floating
  | _, _ => false

/-- A guard passes when every row that the runtime validates holds. -/
def guardHolds (floating : Bool) (views : Roles View) (encoded : Entries) : Bool :=
  match decodeRegionGuardLedger encoded with
  | .ok ledger => ledger.entries.all fun entry =>
      entry.evidence ≠ .runtimeValidationRequired || entry.holds floating views
  | .error _ => false

/-- The arguments of a call stand for its descriptors. -/
inductive Event where
  | guard (stage : ℕ) (descriptors : Roles Value) (passed : Bool)
  | commit (stage : ℕ) (descriptor : Value) (shape : List ℕ) (elements : List (BitVec 32))

/-- `finished` is false after a guard that did not pass. -/
structure Outcome where
  memory : Memory
  trace : List Event
  finished : Bool

/-- The elements of a tensor, row by row. -/
def elements (tensor : Tensor (BitVec 32)) : List (BitVec 32) :=
  (points tensor.shape).map tensor.get

/-- What surrounds an execution: the contents of the descriptors and the check of the
floating-point environment at either guard. -/
structure World where
  arithmetic : Arithmetic
  view : Value → View
  floating : ℕ → Bool

def World.views (world : World) (descriptors : Roles Value) : Roles View :=
  ⟨world.view descriptors.output, world.view descriptors.lhs, world.view descriptors.rhs⟩

/-- `foreign` stands for what is neither a `f32` nor made of them. Only its shape is seen. -/
inductive RuntimeValue where
  | descriptor (argument : Value)
  | order
  | index (value : ℤ)
  | float (bits : BitVec 32)
  | tensor (contents : Tensor (BitVec 32))
  | foreign (shape : List ℕ)

def RuntimeValue.shape : RuntimeValue → Option (List ℕ)
  | .tensor contents => some contents.shape
  | .foreign shape => some shape
  | _ => none

/-- A structured operation reads a number as a tensor without dimensions. -/
def RuntimeValue.asTensor : RuntimeValue → Option (Tensor (BitVec 32))
  | .float bits => some (.scalar bits)
  | .tensor contents => some contents
  | _ => none

def conforms (shape : List ℕ) (type : TensorType) : Bool :=
  shape.length = type.shape.length &&
    (shape.zip type.shape).all fun dims => dims.2 = none || dims.2 = some dims.1

def constantValue (arithmetic : Arithmetic) : Constant → RuntimeValue
  | .float bits => .float bits
  | .index value => .index value
  | .dense type text =>
    let shape := type.shape.map (·.getD 0)
    if type.element = .f32 then .tensor ⟨shape, arithmetic.dense text⟩ else .foreign shape
  | .other _ _ => .foreign []

/-- The extents of an empty tensor, from its type and its sizes. -/
def emptyShape : List (Option ℕ) → List RuntimeValue → Option (List ℕ)
  | [], [] => some []
  | some extent :: dims, sizes => (emptyShape dims sizes).map (extent :: ·)
  | none :: dims, .index size :: sizes =>
    if 0 ≤ size then (emptyShape dims sizes).map (size.toNat :: ·) else none
  | _, _ => none

def scalarValue (values inner : List RuntimeValue) : ScalarValue → Option RuntimeValue
  | .inner value => inner[value]?
  | .outer value => values[value]?

/-- Arithmetic in another element type has a foreign result. -/
def scalarArith (values inner : List RuntimeValue) (f : BitVec 32 → BitVec 32 → BitVec 32)
    (lhs rhs : ScalarValue) : Option RuntimeValue :=
  match scalarValue values inner lhs, scalarValue values inner rhs with
  | some (.float a), some (.float b) => some (.float (f a b))
  | some _, some _ => some (.foreign [])
  | _, _ => none

/-- The value of one operation of a body. Relaxed arithmetic has no meaning here. -/
def scalarStep (arithmetic : Arithmetic) (values inner : List RuntimeValue) :
    ScalarOp → Option RuntimeValue
  | .constant value => some (constantValue arithmetic value)
  | .addf lhs rhs 0 => scalarArith values inner arithmetic.addf lhs rhs
  | .mulf lhs rhs 0 => scalarArith values inner arithmetic.mulf lhs rhs
  | _ => none

def scalarRun (arithmetic : Arithmetic) (values : List RuntimeValue) (inner : List RuntimeValue) :
    List ScalarOp → Option (List RuntimeValue)
  | [] => some inner
  | op :: rest => do
    let value ← scalarStep arithmetic values inner op
    scalarRun arithmetic values (inner ++ [value]) rest

def bodyValue (arithmetic : Arithmetic) (values : List RuntimeValue) (body : Body)
    (arguments : List (BitVec 32)) : Option (BitVec 32) :=
  if arguments.length = body.arguments then
    match scalarRun arithmetic values (arguments.map .float) body.ops, body.yields with
    | some inner, some [yielded] => match scalarValue values inner yielded with
      | some (.float bits) => some bits
      | _ => none
    | _, _ => none
  else none

def operandOf (values : List RuntimeValue) (map : AffineMap) (value : Value) :
    Option (Operand (BitVec 32)) := do
  let found ← values[value]?
  let tensor ← found.asTensor
  return ⟨map, tensor⟩

/-- A structured operation with one output. -/
def linalgValue (arithmetic : Arithmetic) (values : List RuntimeValue) (op : LinalgOp) :
    Option RuntimeValue := do
  match op.inits, op.types with
  | [init], [_] =>
    let operands ← (op.maps.zip (op.inputs ++ [init])).mapM fun (map, value) =>
      operandOf values map value
    let output ← operands.getLast?
    let tensor ← execute op.iterators.length operands.dropLast output
      (bodyValue arithmetic values op.body)
    return .tensor tensor
  | _, _ => none

/-- An operation without effects. `position` is its place in the block. -/
def pureValue (arithmetic : Arithmetic) (values : List RuntimeValue) (position : ℕ) :
    Op → Option RuntimeValue
  | .constant value => some (constantValue arithmetic value)
  | .cast source type => do
    let value ← values[source]?
    let shape ← value.shape
    if conforms shape type then some value else none
  | .dim source axis => do
    let value ← values[source]?
    let shape ← value.shape
    match values[axis]? with
    | some (.index index) =>
      if 0 ≤ index then (shape[index.toNat]?).map fun (extent : ℕ) => .index (extent : ℤ) else none
    | _ => none
  | .empty sizes type => do
    let sizes ← sizes.mapM (values[·]?)
    let shape ← emptyShape type.shape sizes
    if type.element = .f32 then some (.tensor ⟨shape, arithmetic.undefined position⟩)
    else some (.foreign shape)
  | .linalg op => linalgValue arithmetic values op
  | _ => none

structure State where
  memory : Memory
  values : List RuntimeValue
  trace : List Event

def State.define (σ : State) (results : List RuntimeValue) : State :=
  { σ with values := σ.values ++ results }

/-- The descriptor behind a value. -/
def State.argument (σ : State) (value : Value) : Option Value :=
  match σ.values[value]? with
  | some (.descriptor argument) => some argument
  | _ => none

/-- One operation. The flag is false where the execution ends. -/
def step (world : World) (σ : State) (placed : Placed) : Option (State × Bool) :=
  match placed.op with
  | .regionBegin _ => some (σ.define [.order], true)
  | .regionGuard op => do
    let output ← σ.argument op.output
    let lhs ← σ.argument op.lhs
    let rhs ← σ.argument op.rhs
    let descriptors : Roles Value := ⟨output, lhs, rhs⟩
    let passed := guardHolds (world.floating op.stage) (world.views descriptors) op.guardLedger
    let trace := σ.trace ++ [Event.guard op.stage descriptors passed]
    return ({ σ with trace }.define [.order], passed)
  | .regionRead op => do
    let argument ← σ.argument op.descriptor
    let tensor := (world.view argument).read σ.memory
    if conforms tensor.shape op.type then return (σ.define [.tensor tensor], true) else none
  | .regionCommit op => do
    let argument ← σ.argument op.descriptor
    match σ.values[op.value]? with
    | some (.tensor tensor) =>
      if tensor.shape = (world.view argument).shape then
        let memory := (world.view argument).write σ.memory tensor
        let trace := σ.trace ++ [Event.commit op.stage argument tensor.shape (elements tensor)]
        return ({ σ with memory, trace }.define [.tensor tensor, .order], true)
      else none
    | _ => none
  | .regionEnd _ => some (σ, true)
  | op => do
    let value ← pureValue world.arithmetic σ.values placed.position op
    return (σ.define [value], true)

def run (world : World) : State → List Placed → Option Outcome
  | σ, [] => some ⟨σ.memory, σ.trace, true⟩
  | σ, placed :: rest => do
    let (σ, continues) ← step world σ placed
    if continues then run world σ rest else return ⟨σ.memory, σ.trace, false⟩

/-- The values of the arguments. -/
def argumentValues (function : RegionFunction) : List RuntimeValue :=
  (List.range function.arguments.length).map .descriptor

def executeRegion (world : World) (function : RegionFunction) (memory : Memory) :
    Option Outcome :=
  run world ⟨memory, argumentValues function, []⟩ function.placed

/-- The contraction of two matrices: each element is summed up from positive zero, in the order of
the contracted index. -/
def contraction (arithmetic : Arithmetic) (lhs rhs : Tensor (BitVec 32)) : Tensor (BitVec 32) where
  shape := [lhs.shape.getD 0 0, rhs.shape.getD 1 0]
  get
    | [i, j] => (List.range (lhs.shape.getD 1 0)).foldl
        (fun acc p => arithmetic.addf acc (arithmetic.mulf (lhs.get [i, p]) (rhs.get [p, j]))) 0
    | _ => 0

/-- A call of the source: its descriptors and the ledger of its guard. -/
structure SourceCall where
  descriptors : Roles Value
  ledger : Entries

def sourceCall (function : RegionFunction) (stage : ℕ) : Except String SourceCall := do
  let (sites, descriptors) ← contractSites function
  let bound ← boundSite function.arguments.length descriptors stage (sites stage)
  match asDictionary ((siteEntries (sites stage)).get "source_contract"),
    asArray ((siteEntries (sites stage)).get "bindings") with
  | some contract, some bindings => do
    let ledger ← buildRegionGuardLedger contract bindings stage
    return ⟨bound, ledger⟩
  | _, _ => .error "region source contract requires output/lhs/rhs bindings"

/-- A call reads its inputs behind its guard and writes its output. -/
def runCall (world : World) (call : SourceCall) (stage : ℕ) (before : Outcome) : Outcome :=
  let views := world.views call.descriptors
  let passed := guardHolds (world.floating stage) views call.ledger
  let trace := before.trace ++ [Event.guard stage call.descriptors passed]
  if passed then
    let result := contraction world.arithmetic (views.lhs.read before.memory)
      (views.rhs.read before.memory)
    ⟨views.output.write before.memory result,
      trace ++ [.commit stage call.descriptors.output result.shape (elements result)], true⟩
  else ⟨before.memory, trace, false⟩

/-- The two calls in order. A guard that does not pass ends both. -/
def runSource (world : World) (first second : SourceCall) (memory : Memory) : Outcome :=
  let between := runCall world first 0 ⟨memory, [], true⟩
  if between.finished then runCall world second 1 between else between

/-- The view has the extents that a type declares. -/
def View.hasType (view : View) : Ty → Prop
  | .tensor type => conforms view.shape type = true
  | _ => True

/-- The descriptors of a call have the types that the call declares. -/
structure HasDeclaredTypes (view : Value → View) (descriptors : Roles Value)
    (type : FunctionType) : Prop where
  output : ∀ declared ∈ type.results[0]?, (view descriptors.output).hasType declared
  lhs : ∀ declared ∈ type.inputs[0]?, (view descriptors.lhs).hasType declared
  rhs : ∀ declared ∈ type.inputs[1]?, (view descriptors.rhs).hasType declared

/-- Descriptors for a region function: each has the extents that the source contract declares of
it. Nothing is said about where they lie. -/
structure Descriptors (function : RegionFunction) where
  view : Value → View
  declared : ∀ stage ≤ 1, ∀ sites descriptors bound type,
    contractSites function = .ok (sites, descriptors) →
    boundSite function.arguments.length descriptors stage (sites stage) = .ok bound →
    (sites stage).bind (·.tensorType) = some type → HasDeclaredTypes view bound type

end Matcore.TwoGemm
