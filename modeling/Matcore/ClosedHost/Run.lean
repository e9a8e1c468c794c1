import Matcore.ClosedHost.Session

/-!
# Runs of a session

A `World` is a session with the host memory its views address and, as history, the
publications that succeeded. `Request` is one call with its arguments, `Action` a call or
`takeResult`, and `Trace` the steps of a run with the worlds around each.
-/

namespace Matcore.ClosedHost

open FlatMemory

variable {F : Type}

/-- A successful publication. The code keeps their number only. -/
structure Publication (F : Type) where
  frontier : ℕ
  destination : ResourceView
  storage : Storage F

structure World (F : Type) where
  session : Session F
  mem : Mem F
  publications : List (Publication F) := []

namespace World

def status (w : World F) : Status := w.session.status

/-- The world with a new session, and the handle a call leaves in its result. -/
def withSession (w : World F) (r : Session F × Value F) : World F × Value F :=
  ({ w with session := r.1 }, r.2)

def publish (w : World F) (host : Host F) (frontier : ℕ) (value : Value F)
    (destination : ResourceView) : World F :=
  let (session, mem) := w.session.publish host w.mem frontier value destination
  let publications := match value with
    | some storage =>
      if session.status.code = .ok then w.publications ++ [⟨frontier, destination, storage⟩]
      else w.publications
    | none => w.publications
  ⟨session, mem, publications⟩

end World

/-- One call of a session operation. `result` is the handle it is to assign. -/
inductive Request (F : Type) where
  | read (frontier : UInt64) (view : ResourceView) (rows columns : ℕ) (result : Value F)
  | readForwarded (frontier : UInt64) (view : ResourceView) (rows columns : ℕ)
      (published result : Value F)
  | gemm (frontier : UInt64) (lhs rhs : Value F) (numeric : Numeric) (result : Value F)
  | gemmStrictFusedPair (f₁ f₂ : UInt64) (a b d : Value F) (first second : Numeric)
      (result : Value F)
  | publish (frontier : UInt64) (value : Value F) (destination : ResourceView)
  | observe (frontier : UInt64) (view : ResourceView)
  | complete (frontier : UInt64)

namespace Request

/-- The handle a call is to assign, before the call. -/
def destination : Request F → Value F
  | read _ _ _ _ result | readForwarded _ _ _ _ _ result | gemm _ _ _ _ result
  | gemmStrictFusedPair _ _ _ _ _ _ _ result => result
  | publish .. | observe .. | complete .. => none

/-- The world after a call, and the handle it was to assign. -/
def apply (host : Host F) (w : World F) : Request F → World F × Value F
  | read frontier view rows columns result =>
    w.withSession (w.session.read host w.mem frontier.toNat view rows columns result)
  | readForwarded frontier view rows columns published result =>
    w.withSession
      (w.session.readForwarded host frontier.toNat view rows columns published result)
  | gemm frontier lhs rhs numeric result =>
    w.withSession (w.session.gemm host frontier.toNat lhs rhs numeric result)
  | gemmStrictFusedPair f₁ f₂ a b d first second result =>
    w.withSession
      (w.session.gemmStrictFusedPair host f₁.toNat f₂.toNat a b d first second result)
  | publish frontier value destination => (w.publish host frontier.toNat value destination, none)
  | observe frontier view =>
    w.withSession (w.session.observe host w.mem frontier.toNat view, none)
  | complete frontier => w.withSession (w.session.complete host frontier.toNat, none)

/-- The world after a sequence of calls. -/
def run (host : Host F) (w : World F) : List (Request F) → World F
  | [] => w
  | r :: rs => run host (r.apply host w).1 rs

end Request

/-- What the owner of a session does with it. -/
inductive Action (F : Type) where
  | request (r : Request F)
  | takeResult (failure : SourceLocation)

/-- A world and the results that `takeResult` has returned. -/
structure Invocation (F : Type) where
  world : World F
  results : List (Result F) := []

def Action.apply (host : Host F) (i : Invocation F) : Action F → Invocation F
  | .request r => { i with world := (r.apply host i.world).1 }
  | .takeResult failure =>
    let (session, result) := i.world.session.takeResult failure
    ⟨{ i.world with session }, i.results ++ [result]⟩

/-- A step of a run. -/
structure Step (F : Type) where
  before : Invocation F
  action : Action F
  after : Invocation F

/-- The steps of a run from `i`. -/
def Invocation.trace (host : Host F) (i : Invocation F) : List (Action F) → List (Step F)
  | [] => []
  | a :: as => ⟨i, a, a.apply host i⟩ :: (a.apply host i).trace host as

/-- The state at the end of a run from `i`. -/
def Invocation.run (host : Host F) (i : Invocation F) : List (Action F) → Invocation F
  | [] => i
  | a :: as => (a.apply host i).run host as

/-- The invocation with a fresh session for a candidate. -/
def Invocation.init (candidate : Candidate) (mem : Mem F) : Invocation F :=
  ⟨⟨{ candidate }, mem, []⟩, []⟩

/-- The records of all observations, those handed out first. -/
def Invocation.records (i : Invocation F) : List (Observation F) :=
  (i.results.flatMap fun r => r.observations.getD []) ++ i.world.session.records

/-- The publication a step retired, if it is a `publish` that returned `ok`. -/
def Step.publication? (s : Step F) : Option (Publication F) :=
  match s.action with
  | .request (.publish frontier (some storage) destination) =>
    if s.after.world.status.code = .ok then some ⟨frontier.toNat, destination, storage⟩ else none
  | _ => none

/-- The record of a step that is an `observe` that returned `ok`: the contents of the view at
that moment. -/
def Step.observation? (s : Step F) : Option (Observation F) :=
  match s.action with
  | .request (.observe frontier view) =>
    if s.after.world.status.code = .ok then
      some ⟨frontier.toNat, some (view.copy s.before.world.mem)⟩
    else none
  | _ => none

end Matcore.ClosedHost
