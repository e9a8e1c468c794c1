import Matcore.ClosedRegion.VerifyModule
import Matcore.Lib.Chain

/-!
# Execution paths of an admission module

What the operations of a function do with their tokens: every result is a new object, the
argument of a branch is the token that its `shape_if` is given, and the result of the `shape_if` is
the token that the branch yields. A path takes one branch of each `shape_if`.
-/

namespace Matcore.ClosedRegion

open Mlir (Value Regions Blocks)

/-- A value at run time. -/
structure Cell where
  type : Ty
  object : ℕ

/-- An operation that is executed, with what its operands and its results hold. -/
structure Event where
  op : Op
  operands : List Cell
  results : List Cell

/-- The tokens among some values. -/
def tokens (cells : List Cell) : List ℕ := (cells.filter (·.type = .order)).map (·.object)

def Event.consumed (e : Event) : List ℕ := tokens e.operands

def Event.produced (e : Event) : List ℕ := tokens e.results

/-- The operations on the effect chain. A GEMM computes an immutable value under the token of its
check, and leaves that token to the effect behind it. -/
def Event.isEffect (e : Event) : Bool :=
  [.begin, .read, .checkGemm, .publish, .observe, .funcReturn].contains e.op.name

def effects (events : List Event) : List Event := events.filter (·.isEffect)

/-- The values in scope, the number of objects so far and the branches still to take. -/
structure Frame where
  cells : List Cell
  next : ℕ
  decisions : List Bool

/-- New objects of the types. -/
def newCells (next : ℕ) : List Ty → List Cell
  | [] => []
  | type :: rest => ⟨type, next⟩ :: newCells (next + 1) rest

def Frame.read (f : Frame) (values : List Value) : List Cell := values.filterMap (f.cells[·]?)

structure Outcome where
  events : List Event
  frame : Frame
  yielded : List Cell

def Frame.event (f : Frame) (op : Op) : Event :=
  ⟨op, f.read op.operands, newCells f.next op.results⟩

/-- The frame behind an operation. -/
def Frame.step (f : Frame) (op : Op) : Frame :=
  ⟨f.cells ++ newCells f.next op.results, f.next + op.results.length, f.decisions⟩

/-- The frame in which a branch of `op` begins: its argument is the token that `op` is given. -/
def Frame.branch (f : Frame) (op : Op) : Frame :=
  ⟨f.cells ++ (f.read op.operands).take 1, f.next, f.decisions.tail⟩

/-- The frame behind a branch: the result is what the branch yields. -/
def Frame.join (f : Frame) (taken : Outcome) : Frame :=
  { taken.frame with cells := f.cells ++ taken.yielded }

/-- The path through the operations of a block that takes the frame's branches. -/
def run : Ops → Frame → Outcome
  | .nil, f => ⟨[], f, []⟩
  | .cons op regions rest, f =>
    if op.name = .yield then ⟨[], f, f.read op.operands⟩
    else if op.name = .shapeIf then
      match regions with
      | .cons (.cons _ thenOps .nil) (.cons (.cons _ elseOps .nil) .nil) =>
        let taken := if f.decisions.headD true then run thenOps (f.branch op)
          else run elseOps (f.branch op)
        let behind := run rest (f.join taken)
        ⟨taken.events ++ behind.events, behind.frame, behind.yielded⟩
      | _ => ⟨[], f, []⟩
    else
      let behind := run rest (f.step op)
      ⟨f.event op :: behind.events, behind.frame, behind.yielded⟩

/-- The path of a function that takes the branches `decisions`. -/
def pathOf (function : Function) (decisions : List Bool) : List Event :=
  match function.body with
  | .cons arguments ops .nil =>
    (run ops ⟨newCells 0 arguments, arguments.length, decisions⟩).events
  | _ => []

mutual

/-- The operations of a block in textual order, those of its regions included. -/
def opsText : Ops → List Op
  | .nil => []
  | .cons op regions rest => op :: (regionsText regions ++ opsText rest)

def regionsText : Regions OpName Ty → List Op
  | .nil => []
  | .cons blocks rest => blocksText blocks ++ regionsText rest

def blocksText : Blocks OpName Ty → List Op
  | .nil => []
  | .cons _ ops rest => opsText ops ++ blocksText rest

end

/-- `gemm` computes what `check` checks. -/
structure Event.Checks (check gemm : Event) : Prop where
  name : check.op.name = .checkGemm
  operands : check.operands.tail = gemm.operands.tail
  profile : check.op.attributes.get "numerical_profile" =
    gemm.op.attributes.get "numerical_profile"
  token : check.produced = gemm.consumed

/-- The events of a path make a linear effect chain. -/
structure Linear (text : List Op) (events : List Event) : Prop where
  /-- The chain starts at the entry and ends at the return. -/
  chain : ∃ (first : Event) (t : ℕ) (rest : List Event), effects events = first :: rest ∧
    first.op.name = .begin ∧ first.consumed = [] ∧ first.produced = [t] ∧
    Token.Chain Event.consumed Event.produced t rest none ∧
    ∀ e ∈ rest, e.produced = [] → e.op.name = .funcReturn
  /-- Every token is produced once, and consumed once by an effect. -/
  once : (events.flatMap (·.produced)).Nodup ∧
    ∀ e ∈ events, ∀ t ∈ e.produced, ((effects events).flatMap (·.consumed)).count t = 1
  /-- Only effects touch tokens, and GEMMs that of their check. -/
  others : ∀ e ∈ events, e.isEffect = false →
    e.produced = [] ∧ (e.op.name ≠ .gemm → e.consumed = [])
  /-- Every GEMM stands right behind its check. -/
  checked : ∀ before gemm after, events = before ++ gemm :: after → gemm.op.name = .gemm →
    ∃ before' check, before = before' ++ [check] ∧ check.Checks gemm
  /-- The path is in textual order. -/
  textual : (events.map (·.op)).Sublist text
  /-- No other order of the effects respects their tokens. -/
  scheduled : ∀ order : List Event, order.Perm (effects events) →
    Token.Respects Event.consumed Event.produced order → order = effects events

/-- The operations of a function in textual order. -/
def Function.text (function : Function) : List Op := blocksText function.body

end Matcore.ClosedRegion
