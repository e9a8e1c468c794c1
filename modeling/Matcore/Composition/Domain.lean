import Matcore.TwoGemm.Ledger

/-!
# Domains of a map

`MatcoreOps.cpp`, `verifyDomain`: which elements of its tensor a composition's map applies to, as an
attribute, and what the verifier checks of it. The checks return what they decode.
-/

namespace Matcore.Composition

open Mlir (Attribute Entries Bytes ascii)
open TwoGemm (integer asString asArray)

inductive ElementType where
  | integer (bits : ℕ)
  | other (text : Bytes)
  deriving DecidableEq

/-- A dimension without a size is dynamic. -/
structure RankedTensorType where
  shape : List (Option ℕ)
  elementType : ElementType
  encoding : Option Bytes

/-- The sizes of a static shape. -/
def RankedTensorType.staticShape (type : RankedTensorType) : Option (List ℕ) := type.shape.mapM id

/-- What is checked of a map here. A mask whose type is no ranked tensor is `some none`; the
length of an array is an unsigned word. -/
structure MapOp where
  domain : Entries
  mask : Option (Option RankedTensorType)
  outsideDomain : String
  coordinates_lt : ∀ coordinates, asArray (domain.get "coordinates") = some coordinates →
    coordinates.length < 2 ^ 64

/-- The interval of a slice along one dimension. -/
structure Interval where
  first : ℕ
  last : ℕ
  increment : ℕ

inductive Domain where
  | all
  | mask
  | slice (intervals : List Interval)
  | indices (coordinates : List (List ℕ))

def requireExactDictionaryFor (dictionary : Entries) (names : List String) (context : String) :
    Except String Unit :=
  if dictionary.names.length ≠ names.length then
    .error (context ++ " must contain exactly " ++ toString names.length ++ " fields")
  else
    match dictionary.names.find? (!names.contains ·) with
    | some name => .error (context ++ " contains unexpected field '" ++ name ++ "'")
    | none => .ok ()

def requireStringFor (dictionary : Entries) (name expected context : String) :
    Except String Unit :=
  if asString (dictionary.get name) = some (ascii expected) then .ok ()
  else .error (context ++ "." ++ name ++ " must be '" ++ expected ++ "'")

def verifyStaticCoordinate (encoded : Attribute) (upperBound : ℕ) (context : String)
    (allowUpperBound : Bool) : Except String ℕ :=
  match integer 64 (some encoded) with
  | none => .error (context ++ " must contain nonnegative signless i64 values")
  | some value =>
    if value < 0 then .error (context ++ " must contain nonnegative signless i64 values")
    else if (if allowUpperBound then value ≤ upperBound else value < upperBound) then
      .ok value.toNat
    else .error (context ++ " is out of bounds")

def verifyMask (domain : Entries) (mask : Option (Option RankedTensorType))
    (type : RankedTensorType) : Except String Domain := do
  requireExactDictionaryFor domain ["kind", "shape_equality", "version"] "domain"
  requireStringFor domain "shape_equality" "required_precondition" "domain"
  match mask with
  | none => .error "domain(mask) requires one ranked i1 mask operand"
  | some none => .error "domain(mask) requires a rank-compatible i1 tensor"
  | some (some maskType) =>
    if maskType.elementType ≠ .integer 1 || maskType.shape.length ≠ type.shape.length then
      .error "domain(mask) requires a rank-compatible i1 tensor"
    else if maskType.encoding.isSome then
      .error "host predicate masks forbid non-null tensor encodings"
    else if (type.shape.zip maskType.shape).any fun (inputDimension, maskDimension) =>
        inputDimension.isSome && maskDimension.isSome && inputDimension ≠ maskDimension then
      .error "domain(mask) has a statically incompatible shape"
    else .ok .mask

/-- One dimension of a slice: its size, its begin, end and step. -/
def verifyInterval (entry : ℕ × Attribute × Attribute × Attribute) : Except String Interval := do
  let (extent, beginning, ending, step) := entry
  let first ← verifyStaticCoordinate beginning extent "domain(slice).begin" false
  let last ← verifyStaticCoordinate ending extent "domain(slice).end" true
  match integer 64 (some step) with
  | none => .error "domain(slice) requires nonempty bounds and positive i64 steps"
  | some increment =>
    if last ≤ first || increment ≤ 0 then
      .error "domain(slice) requires nonempty bounds and positive i64 steps"
    else .ok ⟨first, last, increment.toNat⟩

/-- `partial` of the source: some dimension is not written as the whole of it. -/
def isPartial (intervals : List Interval) (shape : List ℕ) : Bool :=
  (intervals.zip shape).any fun (interval, extent) =>
    interval.first ≠ 0 || interval.last ≠ extent || interval.increment ≠ 1

def verifySlice (domain : Entries) (shape : List ℕ) : Except String Domain := do
  requireExactDictionaryFor domain ["begin", "end", "kind", "step", "version"] "domain"
  match asArray (domain.get "begin"), asArray (domain.get "end"), asArray (domain.get "step") with
  | some begins, some ends, some steps =>
    if begins.length ≠ shape.length || ends.length ≠ shape.length ||
        steps.length ≠ shape.length then
      .error "domain(slice) begin/end/step must match tensor rank"
    else
      let intervals ← (shape.zip (begins.zip (ends.zip steps))).mapM verifyInterval
      if isPartial intervals shape then .ok (.slice intervals)
      else .error "a full static slice must use the canonical domain(all) form"
  | _, _, _ => .error "domain(slice) begin/end/step must match tensor rank"

/-- The text a coordinate is remembered by. -/
def key (coordinate : List ℕ) : String :=
  coordinate.foldl (fun text value => text ++ toString value ++ ":") ""

/-- The loop over the coordinates, behind those of the given keys. -/
def decodeCoordinates (shape : List ℕ) : List Attribute → List String →
    Except String (List (List ℕ))
  | [], _ => .ok []
  | encoded :: rest, seen =>
    match asArray (some encoded) with
    | none => .error "domain(indices) coordinates must match tensor rank"
    | some coordinate =>
      if coordinate.length ≠ shape.length then
        .error "domain(indices) coordinates must match tensor rank"
      else do
        let decoded ← (coordinate.zip shape).mapM fun (value, extent) =>
          verifyStaticCoordinate value extent "domain(indices).coordinate" false
        if key decoded ∈ seen then .error "domain(indices) coordinates must be unique"
        else
          let others ← decodeCoordinates shape rest (key decoded :: seen)
          .ok (decoded :: others)

/-- The number of elements, unless it overflows. -/
def elementCount (count : ℕ) : List ℕ → Option ℕ
  | [] => some count
  | extent :: rest =>
    if (2 ^ 64 - 1) / count < extent then none else elementCount (count * extent) rest

def verifyIndices (domain : Entries) (shape : List ℕ) : Except String Domain := do
  requireExactDictionaryFor domain ["coordinates", "kind", "version"] "domain"
  match asArray (domain.get "coordinates") with
  | none => .error "domain(indices) requires at least one coordinate"
  | some coordinates =>
    if coordinates.isEmpty then .error "domain(indices) requires at least one coordinate"
    else
      let decoded ← decodeCoordinates shape coordinates []
      if ¬ decoded.IsChain (· < ·) then
        .error "domain(indices) coordinates must use strict lexicographic order"
      else if elementCount 1 shape = some coordinates.length then
        .error "a statically complete indices set must use domain(all)"
      else .ok (.indices decoded)

def verifyDomain (operation : MapOp) (type : RankedTensorType) : Except String Domain :=
  let domain := operation.domain
  match asString (domain.get "kind") with
  | none => .error "domain requires a closed kind and version 1 : i32"
  | some kind =>
    if integer 32 (domain.get "version") ≠ some 1 then
      .error "domain requires a closed kind and version 1 : i32"
    else if kind = ascii "all" then do
      requireExactDictionaryFor domain ["kind", "version"] "domain"
      if operation.mask.isSome || operation.outsideDomain ≠ "not_applicable" then
        .error "domain(all) forbids a mask and requires outside_domain=not_applicable"
      else .ok .all
    else if operation.outsideDomain ≠ "preserve_input" then
      .error "partial domains require outside_domain=preserve_input"
    else if kind = ascii "mask" then verifyMask domain operation.mask type
    else if operation.mask.isSome then .error "only domain(mask) may carry a mask operand"
    else
      match type.staticShape with
      | none => .error "version-1 slice/indices domains require a static tensor shape"
      | some shape =>
        if kind = ascii "slice" then verifySlice domain shape
        else if kind = ascii "indices" then verifyIndices domain shape
        else .error ("domain.kind has unsupported value '" ++
          .ofList (kind.map fun byte => .ofNat byte.toNat) ++ "'")

end Matcore.Composition
