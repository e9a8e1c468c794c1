import Matcore.Lib.LoopNest

/-!
# Split-K

`computeSplitKFactor` of `gpu_mapping.cpp`, and the passes of `lowering_pipeline.cpp` that give each
slice of the K loop to blocks of their own: `SplitKPartitionPass` for the loop, `SplitKEpiloguePass`
for the stores behind it and for the kernel that adds the slices. No pipeline runs the first of them
and the grid keeps one block along z, so only the second works on a program. Sizes and indices do not
overflow, and addition is exact.
-/

namespace Matcore.Gpu.SplitK

structure NvidiaMappingConfig where
  blockTileM : ℕ
  blockTileN : ℕ
  kTile : ℕ

def ceilDiv (lhs rhs : ℕ) : ℕ := if rhs = 0 ∨ lhs = 0 then 1 else (lhs + rhs - 1) / rhs

/-- The loop that goes down to a divisor. -/
def largestDivisorBelow (kTiles : ℕ) : ℕ → ℕ
  | 0 => 0
  | split + 1 =>
    if 1 < split + 1 ∧ kTiles % (split + 1) ≠ 0 then largestDivisorBelow kTiles split
    else split + 1

def computeSplitKFactor (config : NvidiaMappingConfig) (m n k smCount : ℕ) : ℕ :=
  let gridMN := ceilDiv m config.blockTileM * ceilDiv n config.blockTileN
  let kTiles := k / config.kTile
  if smCount ≤ gridMN ∨ kTiles < 4 then 1
  else
    let desired := ceilDiv smCount gridMN
    let profitable := min desired (kTiles / 3)
    let split := if profitable < 2 then min desired (kTiles / 2) else profitable
    let split := largestDivisorBelow kTiles split
    if 2 ≤ split then split else 1

/-- `pickTilingFactor`, which halves the tile until it divides the dimension. -/
def halveToDivisor (dim : ℕ) (tile : ℕ) : ℕ :=
  if 1 < tile ∧ dim % tile ≠ 0 then halveToDivisor dim (tile / 2) else tile
  termination_by tile

def pickTilingFactor (dim preferred : ℕ) : ℕ :=
  if preferred = 0 then 1
  else if dim = 0 then preferred
  else max (halveToDivisor dim (min dim preferred)) 1

structure KLoop where
  lowerBound : ℕ := 0
  upperBound : ℕ
  step : ℕ

/-- The values of the induction variable. -/
def KLoop.iterations (loop : KLoop) : List ℕ :=
  (Loop.strides (loop.upperBound - loop.lowerBound) loop.step).map (loop.lowerBound + ·)

/-- `SplitKPartitionPass`, in the blocks with this `blockIdx.z`. -/
def partition (splitKFactor blockIdxZ : ℕ) (loop : KLoop) : KLoop :=
  if splitKFactor ≤ 1 then loop
  else
    let chunk := (loop.upperBound + (splitKFactor - 1)) / splitKFactor
    { loop with
      lowerBound := min (blockIdxZ * chunk) loop.upperBound
      upperBound := min ((blockIdxZ + 1) * chunk) loop.upperBound }

/-- One dimension of the source of a subview. -/
structure SubViewDim where
  offset : ℕ
  stride : ℕ
  dropped : Bool := false
  stride_pos : 0 < stride

structure Stride where
  value : ℕ
  isStatic : Bool := true

/-- What a store is to: the output, with views over it. -/
inductive View where
  | output
  | reinterpretCast (offset : ℕ) (strides : List Stride)
  | subView (source : View) (dims : List SubViewDim)

def View.rank : View → ℕ
  | output => 2
  | reinterpretCast _ strides => strides.length
  | subView _ dims => (dims.filter fun d => !d.dropped).length

/-- All subviews have the dimensions of their sources. -/
def View.WellFormed : View → Prop
  | output => True
  | reinterpretCast _ _ => True
  | subView source dims => dims.length = source.rank ∧ source.WellFormed

/-- The indices in the source of a subview. -/
def sourceIndices : List SubViewDim → List ℕ → List ℕ
  | [], _ => []
  | d :: dims, indices =>
    if d.dropped then d.offset :: sourceIndices dims indices
    else match indices with
    | [] => []
    | i :: indices => (d.offset + d.stride * i) :: sourceIndices dims indices

def linearIndex (offset : ℕ) (strides : List Stride) (indices : List ℕ) : ℕ :=
  offset + (List.zipWith (fun s i => s.value * i) strides indices).sum

/-- The row and the column of the output that an access through a view is to. -/
def View.position (columns : ℕ) : View → List ℕ → List ℕ
  | output, indices => indices
  | reinterpretCast offset strides, indices =>
    let a := linearIndex offset strides indices
    [a / columns, a % columns]
  | subView source dims, indices => source.position columns (sourceIndices dims indices)

/-- The offsets of a subview are added as far as there are indices. -/
def addOffsets : List ℕ → List SubViewDim → List ℕ
  | i :: indices, d :: dims => (i + d.offset) :: addOffsets indices dims
  | indices, _ => indices

/-- What the offset of a cast is divided by. -/
def divisor (columns : ℕ) : List Stride → ℕ
  | s :: _ => if s.isStatic ∧ 0 < s.value then s.value else columns
  | [] => columns

/-- The indices that `SplitKEpiloguePass` computes for the workspace. -/
def View.redirected (columns : ℕ) : View → List ℕ → List ℕ
  | output, indices => indices
  | reinterpretCast offset strides, indices =>
    match indices with
    | [row, col] =>
      [row + offset / divisor columns strides, col + offset % divisor columns strides]
    | _ => indices
  | subView source dims, indices => source.redirected columns (addOffsets indices dims)

section kernels
variable {V : Type} [AddCommMonoid V]

/-- A store behind the K loop, of the sum of what the iterations add. -/
structure TaggedStore (V : Type) where
  view : View
  indices : List ℕ
  term : ℕ → V

def TaggedStore.value (store : TaggedStore V) (loop : KLoop) : V :=
  (loop.iterations.map store.term).sum

def TaggedStore.position (columns : ℕ) (store : TaggedStore V) : List ℕ :=
  store.view.position columns store.indices

/-- The element of the workspace that a store of a block goes to. -/
def TaggedStore.slot (columns : ℕ) (store : TaggedStore V) (blockIdxZ : ℕ) : List ℕ :=
  blockIdxZ :: store.view.redirected columns store.indices

/-- What is left in the workspace when its stores ran in some order, each with its `blockIdx.z`. -/
def workspace (splitKFactor columns : ℕ) (loop : KLoop) (stores : List (ℕ × TaggedStore V)) :
    List ℕ → V :=
  stores.foldl (fun ws s => Function.update ws (s.2.slot columns s.1)
    (s.2.value (partition splitKFactor s.1 loop))) fun _ => 0

def reduceThreads : ℕ := 256

/-- The threads by their global numbers. -/
def reduceGrid (rows columns : ℕ) : List ℕ :=
  (List.range ((rows * columns + reduceThreads - 1) / reduceThreads)).flatMap fun blockIdx =>
    (List.range reduceThreads).map fun threadIdx => blockIdx * reduceThreads + threadIdx

/-- The element that a thread writes. -/
def reduceTarget (rows columns globalTid : ℕ) : Option (List ℕ) :=
  if globalTid < rows * columns then some [globalTid / columns, globalTid % columns] else none

/-- A thread of the second kernel, which adds the slices up. -/
def reduceThread (splitKFactor rows columns : ℕ) (ws : List ℕ → V) (out : List ℕ → V)
    (globalTid : ℕ) : List ℕ → V :=
  match reduceTarget rows columns globalTid with
  | some element =>
    Function.update out element
      ((List.range splitKFactor).foldl (fun acc z => acc + ws (z :: element)) 0)
  | none => out

end kernels

end Matcore.Gpu.SplitK
