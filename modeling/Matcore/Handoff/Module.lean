import Matcore.TwoGemm.Region
import Matcore.Lib.AttributeDict

/-!
# Modules of GEMM sites

The modules that the structured handoff reads and writes: one function for a site, with the
operations of `func`, `arith`, `linalg` and `mdsl` that stand in it, each with its location and its
attributes. A dialect that has no such operation is not told apart further.

In a block a value is its position: the arguments first, then the results of the operations in their
order.
-/

namespace Matcore.Handoff

open Mlir (Bytes Value ascii)
open AttributeDict (Dictionary Entries)
open LoopNest (AffineMap)
open TwoGemm (TensorType)

inductive Ty where
  | scalar (element : TwoGemm.ElementType)
  | tensor (type : TensorType)
  | other (text : Bytes)
  deriving DecidableEq

def Ty.f32 : Ty := .scalar .f32

def Ty.asTensor : Ty → Option TensorType
  | .tensor type => some type
  | _ => none

abbrev Attr := AttributeDict.Attr Ty

abbrev Dict := Dictionary Ty

inductive Location where
  | fileLineCol (file : Bytes) (line column : ℕ)
  | other (text : Bytes)
  deriving DecidableEq

/-- A value in the block of a structured operation. A result is that of the operation at its place. -/
inductive ScalarValue where
  | argument (index : ℕ)
  | result (index : ℕ)
  | outer (value : Value)
  deriving DecidableEq

/-- The fast-math flags of an operation, none of them being `0`. -/
inductive ScalarOpName where
  | mulF (fastmath : BitVec 7)
  | addF (fastmath : BitVec 7)
  | yield
  | other (name : Bytes)
  deriving DecidableEq

structure ScalarOp where
  name : ScalarOpName
  operands : List ScalarValue
  results : List Ty
  attributes : Dict
  location : Location

structure ScalarBlock where
  arguments : List (Ty × Location)
  ops : List ScalarOp

/-- A `f32` by its bits, or another constant with its type. -/
inductive Constant where
  | f32 (bits : BitVec 32)
  | other (type : Ty) (text : Bytes)
  deriving DecidableEq

def Constant.type : Constant → Ty
  | .f32 _ => .f32
  | .other type _ => type

inductive TypeFn where
  | castSigned
  | castUnsigned
  deriving DecidableEq

/-- What an operation is, with the properties it has beside its attributes. Of a structured operation
the first operands are its inputs, the others its outputs. -/
inductive OpKind where
  | gemm
  | constant (value : Constant)
  | fill (inputs : ℕ)
  | matmul (inputs : ℕ) (cast : TypeFn) (maps : List AffineMap)
  | funcReturn
  | other (name : Bytes)
  deriving DecidableEq

/-- `attributes` are the discardable ones, of a gemm its own as well. -/
@[ext]
structure Op where
  kind : OpKind
  operands : List Value
  results : List Ty
  attributes : Dict
  region : List ScalarBlock
  location : Location

structure Block where
  arguments : List (Ty × Location)
  ops : List Op

/-- A function. `attributes` are the discardable ones. -/
@[ext]
structure Function where
  name : Bytes
  inputs : List Ty
  results : List Ty
  attributes : Dict
  argAttrs : Option Attr
  resAttrs : Option Attr
  noInline : Bool
  visibility : Option Bytes
  location : Location
  blocks : List Block

def Function.isPublic (f : Function) : Bool :=
  f.visibility ≠ some (ascii "private") && f.visibility ≠ some (ascii "nested")

inductive TopLevel where
  | func (f : Function)
  | other (name : Bytes)

@[ext]
structure Module where
  location : Location
  attributes : Dict
  body : List TopLevel

/-- `getOps<func::FuncOp>`. -/
def Module.functions (m : Module) : List Function :=
  m.body.filterMap fun
    | .func f => some f
    | .other _ => none

section
variable (d : Entries Ty) (name : String)

def getString : Option Bytes :=
  match d.get name with
  | some (.string value _) => some value
  | _ => none

/-- An integer with its width. A boolean is one of a single bit. -/
def getInteger : Option (ℕ × ℤ) :=
  match d.get name with
  | some (.integer width value) => some (width, value)
  | _ => none

def getType : Option Ty :=
  match d.get name with
  | some (.type value) => some value
  | _ => none

def getArray : Option (List Attr) :=
  match d.get name with
  | some (.array elements) => some elements.toList
  | _ => none

def getDictionary : Option (Entries Ty) :=
  match d.get name with
  | some (.dictionary entries) => some entries
  | _ => none

end

/-- `requireExactNames` and `requireExactDictionary`: as many entries as names, and no other name. -/
def exactNames (d : Entries Ty) (expected : List String) : Bool :=
  d.names.length == expected.length && d.names.all expected.contains

end Matcore.Handoff
