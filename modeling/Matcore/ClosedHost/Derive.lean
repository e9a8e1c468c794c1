import Matcore.ClosedRegion.Verify
import Matcore.Lib.Mlir

/-!
# Derived plans

`ClosedHostDerivedPlan.cpp`: the publications whose value a later read may forward, and the
adjacent products that may run as one fused pair. Both passes number operations with a
counter of their own, and name them by these numbers in the records they derive.

`visited` is a history variable: every operation with the number its pass gave it. A region
has fewer than `2 ^ 63` operations, so no `std::uint64_t` counter wraps.
-/

namespace Matcore.ClosedHost

open ClosedRegion
open Mlir (ascii)

inductive Optimization where
  | none
  | publicationReadForwarding
  | strictFusedPair
  deriving DecidableEq

structure ForwardedRead where
  readFrontier : ℕ := 0
  publicationFrontier : ℕ := 0
  resource : Id := 0
  value : Id := 0

structure StrictFusedPair where
  firstFrontier : ℕ := 0
  secondFrontier : ℕ := 0
  a : Id := 0
  b : Id := 0
  d : Id := 0
  intermediate : Id := 0
  result : Id := 0
  aReadFrontier : ℕ := 0
  bReadFrontier : ℕ := 0
  dReadFrontier : ℕ := 0

/-- The state of the read derivation. -/
structure Derivation where
  nextFrontier : ℕ := 1
  current : Option ForwardedRead := none
  reads : List ForwardedRead := []
  visited : List (Operation × ℕ) := []

namespace Derivation

/-- `next_frontier_++` at an operation. -/
def visit (d : Derivation) (op : Operation) : Derivation :=
  { d with nextFrontier := d.nextFrontier + 1, visited := d.visited ++ [(op, d.nextFrontier)] }

/-- A read of the resource published last, at a frontier. -/
def forward (enabled : Bool) (d : Derivation) (op : Operation) (frontier : ℕ) : Derivation :=
  match d.current with
  | some current =>
    if enabled && current.resource == op.resource then
      { d with reads := d.reads ++ [{ current with readFrontier := frontier }] }
    else d
  | none => d

def reset (d : Derivation) : Derivation := { d with current := none }

def body (enabled : Bool) : Body → Derivation → Derivation
  | .nil, d => d
  | .cons op thenBody elseBody rest, d =>
    let frontier := d.nextFrontier
    let d := d.visit op
    let d := match op.kind with
      | .read => d.forward enabled op frontier
      | .publish => { d with current := some ⟨0, frontier, op.resource, op.lhs⟩ }
      | .shapeIf => (body enabled elseBody (body enabled thenBody d.reset).reset).reset
      | .gemm | .observe => d
    body enabled rest d

end Derivation

/-- The read derivation of a body under an optimization. -/
def readDerivation (body : Body) (optimization : Optimization) : Derivation :=
  Derivation.body (optimization == .publicationReadForwarding) body {}

def deriveReads (body : Body) (optimization : Optimization) : List ForwardedRead :=
  (readDerivation body optimization).reads

/-- `std::map<Id, uint64_t>`, absent keys counting zero. -/
abbrev UseCounts := Id → ℕ

/-- `++uses[id]`. -/
def use (uses : UseCounts) (id : Id) : UseCounts := Function.update uses id (uses id + 1)

def dimensionUse (dim : Dimension) (uses : UseCounts) : UseCounts :=
  match dim.kind with
  | .valueRows | .valueColumns => use uses dim.reference
  | .literal | .shapeParameter => uses

def countUses : Body → UseCounts → UseCounts
  | .nil, uses => uses
  | .cons op thenBody elseBody rest, uses =>
    let uses := match op.kind with
      | .read => dimensionUse op.columns (dimensionUse op.rows uses)
      | .gemm => use (use uses op.lhs) op.rhs
      | .publish => use uses op.lhs
      | .observe => uses
      | .shapeIf =>
        countUses elseBody (countUses thenBody
          (dimensionUse op.conditionRhs (dimensionUse op.conditionLhs uses)))
    countUses rest uses

/-- The frontiers of the reads in scope, by the value they define. -/
abbrev Reads := Id → Option ℕ

/-- `std::map::emplace`: the first read of a value stays. -/
def Reads.emplace (reads : Reads) (id : Id) (frontier : ℕ) : Reads :=
  Function.update reads id (some ((reads id).getD frontier))

/-- The state of the pair derivation. -/
structure PairDerivation where
  nextFrontier : ℕ := 1
  pairs : List StrictFusedPair := []
  visited : List (Operation × ℕ) := []

namespace PairDerivation

/-- `next_frontier_++` at an operation. -/
def visit (d : PairDerivation) (op : Operation) : PairDerivation :=
  { d with nextFrontier := d.nextFrontier + 1, visited := d.visited ++ [(op, d.nextFrontier)] }

/-- The pair of two adjacent operations, the first at `frontier`, if they may fuse. -/
def window (uses : UseCounts) (reads : Reads) (op consumer : Operation) (frontier second : ℕ) :
    Option StrictFusedPair :=
  if op.kind = .gemm ∧ op.numericalProfile = .strictF32 ∧ consumer.kind = .gemm ∧
      consumer.numericalProfile = .strictF32 ∧ consumer.lhs = op.result ∧ uses op.result = 1 then
    match reads op.lhs, reads op.rhs, reads consumer.rhs with
    | some a, some b, some d =>
      some ⟨frontier, second, op.lhs, op.rhs, consumer.rhs, op.result, consumer.result, a, b, d⟩
    | _, _, _ => none
  else none

/-- The reads in scope after an operation. -/
def readsAfter (reads : Reads) (op : Operation) (frontier : ℕ) : Reads :=
  if op.kind = .read then reads.emplace op.result frontier else reads

def body (uses : UseCounts) : Body → Reads → PairDerivation → PairDerivation
  | .nil, _, d => d
  | .cons op thenBody elseBody rest, reads, d =>
    let frontier := d.nextFrontier
    let d := d.visit op
    let reads := readsAfter reads op frontier
    let d := if op.kind = .shapeIf then
        body uses elseBody reads (body uses thenBody reads d)
      else d
    match rest with
    | .nil => d
    | .cons consumer thenBody' elseBody' beyond =>
      match window uses reads op consumer frontier d.nextFrontier with
      | some pair =>
        body uses beyond reads { d.visit consumer with pairs := d.pairs ++ [pair] }
      | none => body uses (.cons consumer thenBody' elseBody' beyond) reads d

end PairDerivation

/-- The pair derivation of a body, which `derivePairs` runs when pairs are asked for. -/
def pairDerivation (body : Body) : PairDerivation :=
  PairDerivation.body (countUses body fun _ => 0) body (fun _ => none) {}

def derivePairs (body : Body) (optimization : Optimization) : List StrictFusedPair :=
  if optimization = .strictFusedPair then (pairDerivation body).pairs else []

/-- The records of a derived plan. -/
structure Plan where
  reads : List ForwardedRead := []
  pairs : List StrictFusedPair := []

/-- The records that `deriveClosedHostPlan` derives, once the source is authenticated. -/
def deriveClosedHostPlan (body : Body) (optimization : Optimization) : Except String Plan :=
  let plan : Plan := ⟨deriveReads body optimization, derivePairs body optimization⟩
  if optimization = .strictFusedPair ∧ plan.pairs.isEmpty then
    .error ("strict-fused-pair requires an eligible adjacent pure strict GEMM pair with read " ++
      "inputs and a private single-use intermediate")
  else .ok plan

/-- `Snapshot`: the digest of the program's module, and the host identity that
`authenticatedSnapshot` has checked. -/
@[ext] structure Snapshot where
  semanticSha256 : Text
  hostContextIdentity : Text
  semantic : digest semanticSha256 = true
  host : (ascii "sha256:").isPrefixOf hostContextIdentity = true ∧
    digest (hostContextIdentity.drop 7) = true

def closedHostOptimizationName : Optimization → String
  | .none => "none"
  | .publicationReadForwarding => "publication-read-forwarding"
  | .strictFusedPair => "strict-fused-pair"

def planRevision : ℕ := 2

def strictPairContractRevision : ℕ := 1

/-- Numbers on the stream, each behind a colon. -/
def numbersText (numbers : List ℕ) : Text :=
  numbers.flatMap fun n => ascii ":" ++ ascii (toString n)

def ForwardedRead.numbers (read : ForwardedRead) : List ℕ :=
  [read.readFrontier, read.publicationFrontier, read.resource, read.value]

def StrictFusedPair.numbers (pair : StrictFusedPair) : List ℕ :=
  [pair.firstFrontier, pair.secondFrontier, pair.a, pair.b, pair.d, pair.intermediate, pair.result,
    pair.aReadFrontier, pair.bReadFrontier, pair.dReadFrontier]

/-- `bytes` of `planIdentity`. -/
def planBytes (snapshot : Snapshot) (optimization : Optimization) (plan : Plan) : Text :=
  ascii "matcore.closed_host.derived_plan:" ++ ascii (toString planRevision) ++ ascii ":" ++
    ascii (closedHostOptimizationName optimization) ++ ascii ":" ++ snapshot.semanticSha256 ++
    ascii ":" ++ snapshot.hostContextIdentity ++ numbersText [plan.reads.length] ++
    plan.reads.flatMap (fun read => numbersText read.numbers) ++
    numbersText [strictPairContractRevision, plan.pairs.length] ++
    plan.pairs.flatMap fun pair => numbersText pair.numbers

/-- `planIdentity`, with the SHA-256 of the compiler library as `hash`. -/
def planIdentity (hash : Text → Text) (snapshot : Snapshot) (optimization : Optimization)
    (plan : Plan) : Text := hash (planBytes snapshot optimization plan)

end Matcore.ClosedHost
