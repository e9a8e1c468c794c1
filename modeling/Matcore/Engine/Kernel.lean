import Matcore.Lib.LoopNest

/-!
# Kernels and their operations

The types of `kernel_ir.h` that kernels and graphs share, what decides of a linear kernel whether it
is elementwise, and the operations on elements. An element is a value of one type, whatever its
dtype: rounding is left out, the order of the operations is not.
-/

namespace Matcore.Engine

inductive TensorDType where
  | float32
  | float16
  | bfloat16
  | int8
  | int32
  | float8E4M3FN
  deriving DecidableEq

def dtypeName : TensorDType → String
  | .float32 => "float32"
  | .float16 => "float16"
  | .bfloat16 => "bfloat16"
  | .int8 => "int8"
  | .int32 => "int32"
  | .float8E4M3FN => "float8_e4m3fn"

inductive TargetKind where
  | x86Auto
  | x86AVX2
  | x86AVX512
  | nvidiaDGPU
  | amdIGPU
  | amdNPU
  | arm
  | nvptx
  | amdgcn
  | npu
  | tpu
  deriving DecidableEq

def normalizeTarget : TargetKind → TargetKind
  | .nvptx => .nvidiaDGPU
  | .amdgcn => .amdIGPU
  | .npu => .amdNPU
  | target => target

inductive ElementwiseKind where
  | add | sub | mul | div | relu | gelu | sigmoid | neg | abs | sqrt | exp | log | tanh | softmax
  | min | max | sin | cos | rsqrt
  deriving DecidableEq

inductive KernelOp where
  | load (output tensor : String) (indices : List String)
  | matmul (output lhs rhs : String)
  | store (tensor value : String) (indices : List String)
  | assign (output value : String)
  | transpose (result input : String)
  | elementwise (result : String) (kind : ElementwiseKind) (lhs rhs : String)
  | cast (result input : String) (targetDtype : TensorDType)

structure KernelIR where
  params : List String
  ops : List KernelOp

/-- `MatmulLoweringSignature`, what the mapping reads of it. -/
structure Signature where
  lhsDtype : TensorDType
  rhsDtype : TensorDType
  outDtype : TensorDType
  quantizedI8 : Bool := false

def isMatmul : KernelOp → Bool
  | .matmul .. => true
  | _ => false

def elementwiseKind? : KernelOp → Option ElementwiseKind
  | .elementwise _ kind _ _ => some kind
  | _ => none

def isElementwiseKernel (kernel : KernelIR) : Bool :=
  !kernel.ops.any isMatmul && kernel.ops.any fun op => (elementwiseKind? op).isSome

def isUnaryOp : ElementwiseKind → Bool
  | .add | .sub | .mul | .div | .min | .max => false
  | _ => true

/-- The first elementwise operation decides. -/
def firstKind (kernel : KernelIR) : Option ElementwiseKind := kernel.ops.findSome? elementwiseKind?

variable {E : Type}

/-- The operations on elements. -/
structure Arith (E : Type) where
  zero : E
  /-- a sum and one product more -/
  contract : E → E → E → E
  elementwise : ElementwiseKind → E → E → E
  /-- the elements of a row, from all of them -/
  softmax : List E → ℕ → E

def contraction (arith : Arith E) (inner : ℕ) (lhs rhs : ℕ → ℕ → E) (i j : ℕ) : E :=
  (List.range inner).foldl (fun acc p => arith.contract acc (lhs i p) (rhs p j)) arith.zero

end Matcore.Engine
