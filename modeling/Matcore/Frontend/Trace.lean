import Matcore.Engine.GraphIR

/-!
# Tracing

`FusionTraceBuilder` and `TracerTensor` of `matcore/frontend.py`, which record the operations of a
function, and the side of `bindings.cpp` that reads the graph. The names of values and storage hints
are left out.
-/

namespace Matcore.Frontend

open Engine
open LoopNest (Tensor)

/-- `str.isspace` of a character. -/
def isSpace (c : Char) : Bool :=
  let n := c.toNat
  (9 ≤ n && n ≤ 13) || (28 ≤ n && n ≤ 32) || n = 0x85 || n = 0xa0 || n = 0x1680 ||
    (0x2000 ≤ n && n ≤ 0x200a) || n = 0x2028 || n = 0x2029 || n = 0x202f || n = 0x205f || n = 0x3000

def strip (text : List Char) : List Char :=
  ((text.dropWhile isSpace).reverse.dropWhile isSpace).reverse

def dtypeAliases : List (String × String) :=
  [("float32", "float32"), ("single", "float32"), ("float16", "float16"), ("half", "float16"),
    ("bfloat16", "bfloat16"), ("bf16", "bfloat16"), ("int8", "int8"), ("i8", "int8"),
    ("int32", "int32"), ("i32", "int32"), ("float8_e4m3fn", "float8_e4m3fn"),
    ("float8e4m3fn", "float8_e4m3fn"), ("f8e4m3fn", "float8_e4m3fn"),
    ("fp8_e4m3fn", "float8_e4m3fn"), ("fp8-e4m3fn", "float8_e4m3fn"), ("e4m3fn", "float8_e4m3fn")]

/-- `_normalize_dtype_name`. No alias has a letter beyond ASCII, and none becomes one. -/
def normalizeDtypeName (name : String) : String :=
  let lowered := String.ofList ((strip name.toList).map Char.toLower)
  (dtypeAliases.lookup lowered).getD lowered

def supportedInputDtypes : List String :=
  ["float32", "float16", "bfloat16", "int8", "int32", "float8_e4m3fn"]

structure TraceValue where
  id : ℕ
  dtype : String
  shape : List ℕ
  kind : ValueKind := .intermediate
  /-- `-1` for none -/
  producer : Option ℕ := none
  consumers : List ℕ := []

/-- The entries of the dictionary `attrs` that are there. -/
structure Attrs where
  transposeRhs : Option Bool := none
  transposeLhs : Option Bool := none
  targetDtype : Option String := none
  axis : Option ℤ := none

structure TraceNode where
  id : ℕ
  op : String
  inputs : List ℕ
  outputs : List ℕ
  attrs : Attrs := {}

/-- `FusionTraceBuilder`. Ids are given in order. -/
structure Builder where
  values : List TraceValue := []
  nodes : List TraceNode := []

structure TracerTensor where
  valueId : ℕ
  dtype : String
  shape : List ℕ
  transposed : Bool := false

def Builder.newValue (b : Builder) (dtype : String) (shape : List ℕ)
    (kind : ValueKind := .intermediate) : Builder :=
  { b with values := b.values ++ [⟨b.values.length, dtype, shape, kind, none, []⟩] }

/-- `self._values[vid].consumers.append(nid)`. -/
def appendConsumer (nid : ℕ) (values : List TraceValue) (vid : ℕ) : List TraceValue :=
  values.modify vid fun value => { value with consumers := value.consumers ++ [nid] }

/-- `self._values[vid].producer = nid`. -/
def setProducer (nid : ℕ) (values : List TraceValue) (vid : ℕ) : List TraceValue :=
  values.modify vid fun value => { value with producer := some nid }

def Builder.newNode (b : Builder) (op : String) (inputs outputs : List ℕ) (attrs : Attrs) : Builder :=
  let nid := b.nodes.length
  { values := outputs.foldl (setProducer nid) (inputs.foldl (appendConsumer nid) b.values)
    nodes := b.nodes ++ [⟨nid, op, inputs, outputs, attrs⟩] }

def Builder.addInput (b : Builder) (dtype : TensorDType) (shape : List ℕ) : Builder × TracerTensor :=
  (b.newValue (dtypeName dtype) shape .input, ⟨b.values.length, dtypeName dtype, shape, false⟩)

/-- A new value with the node that makes it, as all the operations record them. -/
def Builder.record (b : Builder) (op : String) (inputs : List ℕ) (attrs : Attrs) (dtype : String)
    (shape : List ℕ) : Builder × TracerTensor :=
  let out := b.values.length
  ((b.newValue dtype shape).newNode op inputs [out] attrs, ⟨out, dtype, shape, false⟩)

def indexError {α : Type} : Except String α := .error "tuple index out of range"

/-- `_infer_traced_matmul_dtype`. -/
def inferTracedMatmulDtype (lhsDtype rhsDtype : String) : Except String String :=
  let lhs := normalizeDtypeName lhsDtype
  let rhs := normalizeDtypeName rhsDtype
  if lhs ≠ rhs then
    .error ("Tracer matmul requires matching lhs/rhs dtypes, got '" ++ lhs ++ "' and '" ++ rhs ++
      "'.")
  else if lhs = "int8" then .ok "int32"
  else if lhs = "float8_e4m3fn" then .ok "float32"
  else .ok lhs

def Builder.addMatmul (b : Builder) (lhs rhs : TracerTensor) (rhsTransposed : Bool) :
    Except String (Builder × TracerTensor) :=
  match lhs.shape[0]?, rhs.shape[1]? with
  | some m, some n => do
    let dtype ← inferTracedMatmulDtype lhs.dtype rhs.dtype
    return b.record "matmul" [lhs.valueId, rhs.valueId] { transposeRhs := some rhsTransposed } dtype
      [m, n]
  | _, _ => indexError

def Builder.addCast (b : Builder) (x : TracerTensor) (targetDtype : String) :
    Except String (Builder × TracerTensor) :=
  let normalized := normalizeDtypeName targetDtype
  if normalized ∉ supportedInputDtypes then
    .error ("Unsupported cast dtype '" ++ targetDtype ++ "'. Supported dtypes: " ++
      ", ".intercalate supportedInputDtypes)
  else .ok (b.record "cast" [x.valueId] { targetDtype := some normalized } normalized x.shape)

def Builder.addElementwiseUnary (b : Builder) (op : String) (x : TracerTensor) :
    Builder × TracerTensor :=
  b.record op [x.valueId] {} x.dtype x.shape

def Builder.addElementwiseBinary (b : Builder) (op : String) (x y : TracerTensor) :
    Builder × TracerTensor :=
  b.record op [x.valueId, y.valueId] {} x.dtype x.shape

def Builder.addSoftmax (b : Builder) (x : TracerTensor) (axis : ℤ) : Builder × TracerTensor :=
  b.record "softmax" [x.valueId] { axis := some axis } x.dtype x.shape

/-- `TracerTensor.T`. -/
def TracerTensor.T (x : TracerTensor) : Except String TracerTensor :=
  match x.shape with
  | m :: n :: _ => .ok { x with shape := [n, m], transposed := !x.transposed }
  | _ => indexError

/-- `TracerTensor.__matmul__`. -/
def TracerTensor.matmul (b : Builder) (x other : TracerTensor) :
    Except String (Builder × TracerTensor) :=
  b.addMatmul x other other.transposed

inductive UnaryOp where
  | exp | log | sqrt | tanh | sigmoid | gelu | relu | neg | abs | sin | cos | rsqrt

def UnaryOp.op : UnaryOp → String
  | .exp => "exp"
  | .log => "log"
  | .sqrt => "sqrt"
  | .tanh => "tanh"
  | .sigmoid => "sigmoid"
  | .gelu => "gelu"
  | .relu => "relu"
  | .neg => "neg"
  | .abs => "abs"
  | .sin => "sin"
  | .cos => "cos"
  | .rsqrt => "rsqrt"

def UnaryOp.kind : UnaryOp → ElementwiseKind
  | .exp => .exp
  | .log => .log
  | .sqrt => .sqrt
  | .tanh => .tanh
  | .sigmoid => .sigmoid
  | .gelu => .gelu
  | .relu => .relu
  | .neg => .neg
  | .abs => .abs
  | .sin => .sin
  | .cos => .cos
  | .rsqrt => .rsqrt

inductive BinaryOp where
  | add | sub | mul | div | min | max

def BinaryOp.op : BinaryOp → String
  | .add => "add"
  | .sub => "sub"
  | .mul => "mul"
  | .div => "div"
  | .min => "min"
  | .max => "max"

def BinaryOp.kind : BinaryOp → ElementwiseKind
  | .add => .add
  | .sub => .sub
  | .mul => .mul
  | .div => .div
  | .min => .min
  | .max => .max

/-- An array that is passed to a function. -/
structure NdArray (E : Type) where
  dtype : TensorDType
  tensor : Tensor E

/-- A step of a traced function. A tensor is named by the number of the step that made it. -/
inductive Call (E : Type) where
  | input (array : NdArray E)
  | T (x : ℕ)
  | matmul (lhs rhs : ℕ)
  | binary (op : BinaryOp) (x y : ℕ)
  | unary (op : UnaryOp) (x : ℕ)
  | softmax (x : ℕ) (axis : ℤ)
  | cast (x : ℕ) (targetDtype : String)

variable {E : Type}

structure Tracing where
  builder : Builder := {}
  tensors : List TracerTensor := []

def Tracing.tensor (s : Tracing) (x : ℕ) : Except String TracerTensor :=
  match s.tensors[x]? with
  | some tensor => .ok tensor
  | none => .error "name is not defined"

def Tracing.push (s : Tracing) (result : Builder × TracerTensor) : Tracing :=
  ⟨result.1, s.tensors ++ [result.2]⟩

def Tracing.step (s : Tracing) : Call E → Except String Tracing
  | .input array => .ok (s.push (s.builder.addInput array.dtype array.tensor.shape))
  | .T x => do
    let x ← s.tensor x
    return s.push (s.builder, ← x.T)
  | .matmul lhs rhs => do
    let lhs ← s.tensor lhs
    let rhs ← s.tensor rhs
    return s.push (← lhs.matmul s.builder rhs)
  | .binary op x y => do
    let x ← s.tensor x
    let y ← s.tensor y
    return s.push (s.builder.addElementwiseBinary op.op x y)
  | .unary op x => do
    let x ← s.tensor x
    return s.push (s.builder.addElementwiseUnary op.op x)
  | .softmax x axis => do
    let x ← s.tensor x
    return s.push (s.builder.addSoftmax x axis)
  | .cast x targetDtype => do
    let x ← s.tensor x
    return s.push (← s.builder.addCast x targetDtype)

def trace (calls : List (Call E)) : Except String Tracing := calls.foldlM Tracing.step {}

/-- The dictionary that `finish` returns. -/
structure TraceGraph where
  values : List TraceValue
  nodes : List TraceNode
  inputValues : List ℕ
  outputValues : List ℕ
  topoOrder : List ℕ

def Builder.producer (b : Builder) (vid : ℕ) : Option ℕ := (b.values[vid]?).bind (·.producer)

/-- The nodes that make the inputs of a node. -/
def Builder.producers (b : Builder) (nid : ℕ) : List ℕ :=
  match b.nodes[nid]? with
  | some node => node.inputs.filterMap b.producer
  | none => []

/-- `self._values[output.value_id].kind = "output"`. -/
def markOutput (values : List TraceValue) (vid : ℕ) : List TraceValue :=
  values.modify vid fun value => { value with kind := .output }

/-- `finish`. The input ids are collected before the outputs are marked. -/
def Builder.finish (b : Builder) (outputs : List TracerTensor) : TraceGraph where
  values := (outputs.map (·.valueId)).foldl markOutput b.values
  nodes := b.nodes
  inputValues := (b.values.filter (·.kind = .input)).map (·.id)
  outputValues := outputs.map (·.valueId)
  topoOrder := PostOrder.order b.producers b.nodes.length
    (outputs.filterMap fun output => b.producer output.valueId)

def toLower (text : String) : String := String.ofList (text.toList.map Char.toLower)

def normalizeDTypeName (text : String) : String :=
  let name := toLower text
  if name = "single" then "float32"
  else if name = "half" then "float16"
  else if name = "bf16" then "bfloat16"
  else if name = "i8" then "int8"
  else if name = "float8e4m3fn" ∨ name = "f8e4m3fn" ∨ name = "fp8_e4m3fn" ∨ name = "fp8-e4m3fn" ∨
      name = "e4m3fn" then "float8_e4m3fn"
  else name

def parseTensorDType (text : String) : Except String TensorDType :=
  let name := normalizeDTypeName text
  if name = "float32" then .ok .float32
  else if name = "float16" then .ok .float16
  else if name = "bfloat16" then .ok .bfloat16
  else if name = "int8" then .ok .int8
  else if name = "int32" then .ok .int32
  else if name = "float8_e4m3fn" then .ok .float8E4M3FN
  else .error ("Unsupported dtype '" ++ name ++ "'.")

def parseOpKind (s : String) : OpKind :=
  if s = "matmul" then .matmul
  else if s = "softmax" then .softmax
  else if s = "store" then .store
  else if s = "transpose" then .transpose
  else if s = "cast" then .cast
  else if s = "reduce" ∨ s = "sum" ∨ s = "max_reduce" ∨ s = "min_reduce" then .reduce
  else .elementwise

def elementwiseKinds : List (String × ElementwiseKind) :=
  [("add", .add), ("sub", .sub), ("mul", .mul), ("div", .div), ("exp", .exp), ("log", .log),
    ("sqrt", .sqrt), ("tanh", .tanh), ("sigmoid", .sigmoid), ("gelu", .gelu), ("relu", .relu),
    ("neg", .neg), ("abs", .abs), ("min", .min), ("max", .max), ("sin", .sin), ("cos", .cos),
    ("rsqrt", .rsqrt)]

def parseElementwiseKindFromOp (s : String) : Except String ElementwiseKind :=
  match elementwiseKinds.lookup s with
  | some kind => .ok kind
  | none => .error ("Unknown elementwise op: " ++ s)

def parseNodeAttrs (kind : OpKind) (opStr : String) (attrs : Attrs) (inputs outputs : List ℕ) :
    Except String NodeAttrs :=
  let input := inputs.getD 0 0
  match kind with
  | .matmul =>
    .ok (.matmul ⟨input, attrs.transposeLhs = some true⟩
      ⟨inputs.getD 1 0, attrs.transposeRhs = some true⟩)
  | .elementwise => do return .elementwise (← parseElementwiseKindFromOp opStr) inputs
  | .softmax => .ok (.softmax input (attrs.axis.getD (-1)))
  | .reduce =>
    .ok (.reduce input
      (if opStr = "max_reduce" then .max else if opStr = "min_reduce" then .min else .sum)
      (match attrs.axis with
        | some 0 => .axis0
        | some 1 => .axis1
        | _ => .last))
  | .transpose => .ok (.transpose input)
  | .cast =>
    match attrs.targetDtype with
    | some dtype => do return .cast input (← parseTensorDType dtype)
    | none => .ok (.cast input .float32)
  | .store => .ok (.store input (outputs.getD 0 0))

def parseValue (value : TraceValue) : Except String TensorDesc := do
  return {
    dtype := ← parseTensorDType value.dtype
    shape := value.shape
    valueKind := value.kind
    producer := value.producer
    consumers := value.consumers }

def parseNode (node : TraceNode) : Except String KernelNode := do
  let opStr := toLower node.op
  let kind := parseOpKind opStr
  let attrs ← parseNodeAttrs kind opStr node.attrs node.inputs node.outputs
  return ⟨node.id, kind, node.inputs, node.outputs, attrs⟩

/-- The graph that is read from a trace. -/
def parseKernelGraphIR (graph : TraceGraph) : Except String KernelGraphIR := do
  let values ← graph.values.mapM parseValue
  let nodes ← graph.nodes.mapM parseNode
  return ⟨values, nodes, graph.inputValues, graph.outputValues, graph.topoOrder⟩

/-- The expression that a tensor stands for. -/
inductive Expr (E : Type) where
  | input (array : NdArray E)
  | T (x : Expr E)
  | matmul (lhs rhs : Expr E)
  | binary (op : BinaryOp) (x y : Expr E)
  | unary (op : UnaryOp) (x : Expr E)
  | softmax (x : Expr E) (axis : ℤ)
  | cast (x : Expr E) (targetDtype : TensorDType)

/-- The dtype that a matmul accumulates in. -/
def matmulDtype : TensorDType → TensorDType
  | .int8 => .int32
  | .float8E4M3FN => .float32
  | dtype => dtype

/-- What an array library does and the engine has no rule for. A dtype is a name, since a result may
have one that the engine does not know. -/
structure ArrayLibrary (E : Type) where
  matmulDtype : String → String → String
  binaryDtype : BinaryOp → String → String → String
  unaryDtype : UnaryOp → String → String
  softmaxDtype : String → String
  /-- operands of unequal shapes, which NumPy broadcasts -/
  broadcast : BinaryOp → Tensor E → Tensor E → Option (Tensor E)
  /-- operands that are not both matrices: vectors and stacks of matrices -/
  stackedMatmul : Tensor E → Tensor E → Option (Tensor E)

variable (library : ArrayLibrary E) (arith : GraphArith E)

/-- The dtype of an expression on arrays. -/
def Expr.dtype : Expr E → String
  | .input array => dtypeName array.dtype
  | .T x => x.dtype
  | .matmul lhs rhs => library.matmulDtype lhs.dtype rhs.dtype
  | .binary op x y => library.binaryDtype op x.dtype y.dtype
  | .unary op x => library.unaryDtype op x.dtype
  | .softmax x _ => library.softmaxDtype x.dtype
  | .cast _ targetDtype => dtypeName targetDtype

/-- `ndarray.T`, with any number of axes. -/
def reversedAxes (a : Tensor E) : Tensor E := ⟨a.shape.reverse, fun key => a.get key.reverse⟩

def arrayMatmul (a b : Tensor E) : Option (Tensor E) :=
  if a.shape.length = 2 ∧ b.shape.length = 2 then matmulOf arith a b else library.stackedMatmul a b

def arrayBinary (op : BinaryOp) (a b : Tensor E) : Option (Tensor E) :=
  if a.shape = b.shape then binaryOf arith op.kind a b else library.broadcast op a b

/-- The elements of an expression on arrays. -/
def Expr.tensor : Expr E → Option (Tensor E)
  | .input array => some array.tensor
  | .T x => do return reversedAxes (← x.tensor)
  | .matmul lhs rhs => do arrayMatmul library arith (← lhs.tensor) (← rhs.tensor)
  | .binary op x y => do arrayBinary library arith op (← x.tensor) (← y.tensor)
  | .unary op x => do return unaryOf arith op.kind (← x.tensor)
  | .softmax x axis => do softmaxOf arith axis (← x.tensor)
  | .cast x targetDtype => do return castOf arith targetDtype (← x.tensor)

/-- What a function gives on arrays. -/
structure Eager (E : Type) where
  dtype : String
  tensor : Tensor E

/-- An expression on arrays. -/
def Expr.eval (e : Expr E) : Option (Eager E) := do
  return ⟨e.dtype library, ← e.tensor library arith⟩

/-- The number of the transposes on the outside is odd. -/
def Expr.flag : Expr E → Bool
  | .T x => !x.flag
  | _ => false

def Expr.shape (e : Expr E) : Option (List ℕ) := (e.tensor library arith).map (·.shape)

/-- A matrix on arrays. -/
def Expr.Matrix (e : Expr E) : Prop := ∃ m n, e.shape library arith = some [m, n]

/-- The functions that a trace is made for. A transpose is of a matrix, and on the right operand of a
matmul or one of two; a matmul is of matrices, and a binary operation of one shape; and the library
gives a result the dtype of its first operand, or that of the accumulator. -/
def Expr.Plain : Expr E → Prop
  | .input _ => True
  | .T x => x.Plain ∧ x.Matrix library arith
  | .matmul lhs rhs => (lhs.Plain ∧ ¬ lhs.flag ∧ lhs.Matrix library arith) ∧
      (rhs.Plain ∧ rhs.Matrix library arith) ∧
      ∀ d, lhs.dtype library = dtypeName d → rhs.dtype library = dtypeName d →
        library.matmulDtype (dtypeName d) (dtypeName d) = dtypeName (Frontend.matmulDtype d)
  | .binary op x y => (x.Plain ∧ ¬ x.flag) ∧ (y.Plain ∧ ¬ y.flag) ∧
      x.shape library arith = y.shape library arith ∧
      library.binaryDtype op (x.dtype library) (y.dtype library) = x.dtype library
  | .unary op x => (x.Plain ∧ ¬ x.flag) ∧ library.unaryDtype op (x.dtype library) = x.dtype library
  | .softmax x _ => (x.Plain ∧ ¬ x.flag) ∧ library.softmaxDtype (x.dtype library) = x.dtype library
  | .cast x _ => x.Plain ∧ ¬ x.flag

def dtypeOf (name : String) : Option TensorDType :=
  [.float32, .float16, .bfloat16, .int8, .int32, .float8E4M3FN].find? fun d => dtypeName d = name

/-- The expressions of the tensors behind one more step. -/
def exprStep (exprs : List (Expr E)) : Call E → Option (List (Expr E))
  | .input array => some (exprs ++ [.input array])
  | .T x => do return exprs ++ [.T (← exprs[x]?)]
  | .matmul lhs rhs => do return exprs ++ [.matmul (← exprs[lhs]?) (← exprs[rhs]?)]
  | .binary op x y => do return exprs ++ [.binary op (← exprs[x]?) (← exprs[y]?)]
  | .unary op x => do return exprs ++ [.unary op (← exprs[x]?)]
  | .softmax x axis => do return exprs ++ [.softmax (← exprs[x]?) axis]
  | .cast x targetDtype => do
    return exprs ++ [.cast (← exprs[x]?) (← dtypeOf (normalizeDtypeName targetDtype))]

def exprsOf (calls : List (Call E)) : Option (List (Expr E)) := calls.foldlM exprStep []

def inputOf : Call E → Option (Tensor E)
  | .input array => some array.tensor
  | _ => none

/-- The expressions of the outputs of a function. -/
def outputExprs (calls : List (Call E)) (outputs : List ℕ) : Option (List (Expr E)) := do
  let exprs ← exprsOf calls
  outputs.mapM (exprs[·]?)

/-- A function with these outputs, traced. -/
def traceGraph (calls : List (Call E)) (outputs : List ℕ) : Except String TraceGraph := do
  let s ← trace calls
  let outputs ← outputs.mapM s.tensor
  return s.builder.finish outputs

end Matcore.Frontend
