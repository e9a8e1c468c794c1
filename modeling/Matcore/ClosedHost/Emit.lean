import Matcore.ClosedHost.Derive
import Matcore.ClosedHost.Run

/-!
# The emitted region function

`ClosedHostEmitter.cpp`, with the C++ statements it prints as the tree `Block`, and what
running them does. A declared value lives to the end of its block. A name that is used
undeclared, or declared while visible, makes the function ill-formed: `none`.
-/

namespace Matcore.ClosedHost

open ClosedRegion

variable {F : Type}

/-- The call of `if (!session.call) return session.status();`. -/
inductive Call where
  | read (frontier : ℕ) (resource : Id) (rows columns : Dimension) (result : Id)
  | readForwarded (frontier : ℕ) (resource : Id) (rows columns : Dimension)
      (published result : Id)
  | gemm (frontier : ℕ) (lhs rhs : Id) (numeric : Numeric) (result : Id)
  | gemmStrictFusedPair (f₁ f₂ : ℕ) (a b d result : Id)
  | publish (frontier : ℕ) (value resource : Id)
  | observe (frontier : ℕ) (resource : Id)

/-- The frontiers a call passes. -/
def Call.frontiers : Call → List ℕ
  | read f .. | readForwarded f .. | gemm f .. | publish f .. | observe f .. => [f]
  | gemmStrictFusedPair f₁ f₂ .. => [f₁, f₂]

/-- The statements of a block. -/
inductive Block where
  | nil
  | declare (value : Id) (rest : Block)
  | call (c : Call) (rest : Block)
  | branch (lhs : Dimension) (comparison : Comparison) (rhs : Dimension)
      (thenBlock elseBlock rest : Block)

/-- An entry of the source ledger. -/
structure Frontier where
  frontier : ℕ
  kind : Operation.Kind
  site : SourceSite
  helperCalls : List SourceSite

/-- The state of the emitter, with `visited` as in the derivations. -/
structure Emitter where
  nextFrontier : ℕ := 1
  frontiers : List Frontier := []
  visited : List (Operation × ℕ) := []

/-- `forwarding_`: the value forwarded at a read frontier. -/
def Plan.forwarding (plan : Plan) (frontier : ℕ) : Option Id :=
  (plan.reads.find? fun read => read.readFrontier == frontier).map (·.value)

/-- `pairs_`: the pair selected at a first frontier. -/
def Plan.pair (plan : Plan) (frontier : ℕ) : Option StrictFusedPair :=
  plan.pairs.find? fun pair => pair.firstFrontier == frontier

def numeric (profile : NumericalProfile) : Numeric :=
  if profile = .strictF32 then .strictF32 else .reassociateF32

namespace Emitter

/-- `next_frontier_++` at an operation, and its ledger entry. -/
def visit (e : Emitter) (op : Operation) : Emitter :=
  { nextFrontier := e.nextFrontier + 1
    frontiers := e.frontiers ++ [⟨e.nextFrontier, op.kind, op.site, op.helperCalls⟩]
    visited := e.visited ++ [(op, e.nextFrontier)] }

/-- The call of a read at a frontier. -/
def readCall (plan : Plan) (op : Operation) (frontier : ℕ) : Call :=
  match plan.forwarding frontier with
  | some value => .readForwarded frontier op.resource op.rows op.columns value op.result
  | none => .read frontier op.resource op.rows op.columns op.result

/-- The statements of a body. A selected pair without an operation behind it makes
`operations.at` throw. -/
def body (plan : Plan) : Body → Emitter → Option (Block × Emitter)
  | .nil, e => some (.nil, e)
  | .cons op thenBody elseBody rest, e =>
    let frontier := e.nextFrontier
    let e := e.visit op
    match op.kind with
    | .read =>
      (body plan rest e).map fun (block, e) =>
        (.declare op.result (.call (readCall plan op frontier) block), e)
    | .gemm =>
      match plan.pair frontier with
      | some pair =>
        match rest with
        | .nil => none
        | .cons consumer _ _ beyond =>
          (body plan beyond (e.visit consumer)).map fun (block, e) =>
            (.declare pair.result (.call (.gemmStrictFusedPair frontier pair.secondFrontier
              pair.a pair.b pair.d pair.result) block), e)
      | none =>
        (body plan rest e).map fun (block, e) =>
          (.declare op.result (.call (.gemm frontier op.lhs op.rhs (numeric op.numericalProfile)
            op.result) block), e)
    | .publish =>
      (body plan rest e).map fun (block, e) =>
        (.call (.publish frontier op.lhs op.resource) block, e)
    | .observe =>
      (body plan rest e).map fun (block, e) => (.call (.observe frontier op.resource) block, e)
    | .shapeIf =>
      (body plan thenBody e).bind fun (thenBlock, e) =>
        (body plan elseBody e).bind fun (elseBlock, e) =>
          (body plan rest e).map fun (block, e) =>
            (.branch op.conditionLhs op.comparison op.conditionRhs thenBlock elseBlock block, e)

end Emitter

/-- The identities of the resource and shape parameters of the emitted function. -/
structure Parameters where
  resources : List Id
  shapes : List Id

/-- The emitted function of a region, and its ledger. -/
structure Emission where
  parameters : Parameters
  block : Block
  completionFrontier : ℕ
  frontiers : List Frontier

def Parameters.ofRegion (region : Region) : Parameters :=
  ⟨region.resources.map (·.id), region.shapeParameters.map (·.id)⟩

def emitClosedHostV1 (region : Region) (plan : Plan) : Option Emission :=
  (Emitter.body plan region.body {}).map fun (block, e) =>
    ⟨.ofRegion region, block, e.nextFrontier, e.frontiers⟩

/-- The arguments for the resource and shape parameters. -/
structure Arguments where
  view : Id → ResourceView
  shape : Id → ℕ

/-- The values in scope, by identity. -/
abbrev Env (F : Type) := Id → Option (Value F)

namespace Parameters

variable (ps : Parameters) (args : Arguments)

def resource (id : Id) : Option ResourceView :=
  if id ∈ ps.resources then some (args.view id) else none

def dimension (env : Env F) (dim : Dimension) : Option ℕ :=
  match dim.kind with
  | .literal => some dim.literal
  | .shapeParameter =>
    if dim.reference ∈ ps.shapes then some (args.shape dim.reference) else none
  | .valueRows => (env dim.reference).map Value.rows
  | .valueColumns => (env dim.reference).map Value.columns

/-- The request a call makes, and the value it assigns. -/
def request (env : Env F) : Call → Option (Request F × Option Id)
  | .read frontier resource rows columns result => do
    let view ← ps.resource args resource
    let rows ← ps.dimension args env rows
    let columns ← ps.dimension args env columns
    let old ← env result
    return (.read (.ofNat frontier) view rows columns old, some result)
  | .readForwarded frontier resource rows columns published result => do
    let view ← ps.resource args resource
    let rows ← ps.dimension args env rows
    let columns ← ps.dimension args env columns
    let published ← env published
    let old ← env result
    return (.readForwarded (.ofNat frontier) view rows columns published old, some result)
  | .gemm frontier lhs rhs numeric result => do
    let lhs ← env lhs
    let rhs ← env rhs
    let old ← env result
    return (.gemm (.ofNat frontier) lhs rhs numeric old, some result)
  | .gemmStrictFusedPair f₁ f₂ a b d result => do
    let a ← env a
    let b ← env b
    let d ← env d
    let old ← env result
    return (.gemmStrictFusedPair (.ofNat f₁) (.ofNat f₂) a b d .strictF32 .strictF32 old,
      some result)
  | .publish frontier value resource => do
    let value ← env value
    let view ← ps.resource args resource
    return (.publish (.ofNat frontier) value view, none)
  | .observe frontier resource => do
    let view ← ps.resource args resource
    return (.observe (.ofNat frontier) view, none)

end Parameters

def Comparison.holds (comparison : Comparison) (x y : ℕ) : Bool :=
  match comparison with
  | .less => x < y
  | .lessEqual => x ≤ y
  | .equal => x = y
  | .notEqual => x ≠ y
  | .greater => x > y
  | .greaterEqual => x ≥ y

/-- The environment with the result of a call assigned. -/
def Env.assign (env : Env F) (target : Option Id) (value : Value F) : Env F :=
  match target with
  | some id => Function.update env id (some value)
  | none => env

/-- The environment behind an inner block: its declarations are gone. -/
def Env.leave (outer inner : Env F) : Env F :=
  fun id => if (outer id).isSome then inner id else none

/-- How a block ends: at its end, or with a failed call that returns. -/
inductive Flow (F : Type) where
  | next (env : Env F) (w : World F)
  | returned (w : World F)

/-- Goes on behind a block that reached its end. -/
def Flow.andThen (flow : Option (Flow F)) (k : Env F → World F → Option (Flow F)) :
    Option (Flow F) :=
  match flow with
  | some (.next env w) => k env w
  | other => other

/-- Running the statements of a block. -/
def Block.exec (ps : Parameters) (args : Arguments) (host : Host F) :
    Block → Env F → World F → Option (Flow F)
  | .nil, env, w => some (.next env w)
  | .declare id rest, env, w =>
    if (env id).isSome then none
    else rest.exec ps args host (Function.update env id (some none)) w
  | .call c rest, env, w =>
    match ps.request args env c with
    | none => none
    | some (request, target) =>
      let (w, value) := request.apply host w
      if w.status.code = .ok then rest.exec ps args host (env.assign target value) w
      else some (.returned w)
  | .branch lhs comparison rhs thenBlock elseBlock rest, env, w =>
    match ps.dimension args env lhs, ps.dimension args env rhs with
    | some x, some y =>
      Flow.andThen
        (if Comparison.holds comparison x y then thenBlock.exec ps args host env w
        else elseBlock.exec ps args host env w)
        fun inner w => rest.exec ps args host (env.leave inner) w
    | _, _ => none

/-- The test of the emitted prologue: the session has done nothing yet. -/
def Status.pristine (status : Status) : Bool :=
  !(status.completed || status.completedFrontier != 0 || status.completedEffectFrontier != 0 ||
    status.publications != 0 || status.observations != 0)

/-- The emitted function: the status it returns and the world it leaves. -/
def Emission.call (emission : Emission) (args : Arguments) (host : Host F) (w : World F) :
    Option (Status × World F) :=
  if w.status.code ≠ .ok then some (w.status, w)
  else if ¬ w.status.pristine then some ({ w.status with code := .invalidFrontier }, w)
  else
    match emission.block.exec emission.parameters args host (fun _ => none) w with
    | none => none
    | some (.returned w) => some (w.status, w)
    | some (.next _ w) =>
      let w := (Request.apply host w (.complete (.ofNat emission.completionFrontier))).1
      some (w.status, w)

end Matcore.ClosedHost
