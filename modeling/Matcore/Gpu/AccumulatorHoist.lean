import Mathlib
import Matcore.Lib.LoopNest

/-!
# Hoisting accumulators out of the K loop

`AccumulatorHoistPass` of `lowering_pipeline.cpp`: the accumulators of the MMAs of a loop become
values that the loop carries, and the stores of them go behind it. Values have numbers, which are
kept by the operations that are cloned. A warp runs the loop, and a value is that of all its lanes.
-/

namespace Matcore.Gpu.AccumulatorHoist

/-- `MmaStorePattern`: an element that is extracted, and where it is stored. -/
structure Pattern (P : Type) where
  extract : ℕ
  position : P
  memref : ℕ
  indices : List ℕ
  deriving DecidableEq

inductive Op (P : Type) where
  | mma (result a b c : ℕ)
  | extract (result source : ℕ) (position : P)
  | insert (result value dest : ℕ) (position : P)
  | splat (result input : ℕ)
  | load (result memref : ℕ) (indices : List ℕ)
  | store (value memref : ℕ) (indices : List ℕ)
  | pure (op : ℕ) (results operands : List ℕ)
  /-- an operation with an effect or with regions, what these use, and the patterns in them by the
  MMA -/
  | effect (op : ℕ) (results operands captured : List ℕ) (inner : List (ℕ × Pattern P))

section op
variable {P : Type}

def Op.results : Op P → List ℕ
  | mma result _ _ _ => [result]
  | extract result _ _ => [result]
  | insert result _ _ _ => [result]
  | splat result _ => [result]
  | load result _ _ => [result]
  | store _ _ _ => []
  | pure _ results _ => results
  | effect _ results _ _ _ => results

/-- `getOperands` -/
def Op.operands : Op P → List ℕ
  | mma _ a b c => [a, b, c]
  | extract _ source _ => [source]
  | insert _ value dest _ => [value, dest]
  | splat _ input => [input]
  | load _ memref indices => memref :: indices
  | store value memref indices => value :: memref :: indices
  | pure _ _ operands => operands
  | effect _ _ operands _ _ => operands

def Op.captured : Op P → List ℕ
  | effect _ _ _ captured _ => captured
  | _ => []

def Op.uses (op : Op P) : List ℕ := op.operands ++ op.captured

def Op.inner : Op P → List (ℕ × Pattern P)
  | effect _ _ _ _ inner => inner
  | _ => []

def Op.isMma : Op P → Bool
  | mma _ _ _ _ => true
  | _ => false

end op

/-- The loop that the pass finds. -/
structure KLoop (P : Type) where
  iv : ℕ
  iterArgs : List ℕ
  body : List (Op P)
  yields : List ℕ
  /-- numbers from here on are not in use -/
  fresh : ℕ
  /-- the order of the use lists of the result of an MMA -/
  order : ℕ → List (Pattern P) → List (Pattern P)
  order_perm : ∀ result patterns, (order result patterns).Perm patterns

namespace KLoop

variable {P : Type} (loop : KLoop P)

/-- The results of the MMAs, in program order. -/
def mmas : List ℕ := loop.body.filterMap fun op =>
  match op with
  | .mma result _ _ _ => some result
  | _ => none

def storesOf (extract : ℕ) (position : P) : List (Pattern P) := loop.body.filterMap fun op =>
  match op with
  | .store value memref indices =>
    if value = extract then some ⟨extract, position, memref, indices⟩ else none
  | _ => none

/-- `mmaStorePatterns` -/
def patterns (mma : ℕ) : List (Pattern P) :=
  loop.order mma (loop.body.flatMap fun op =>
    match op with
    | .extract result source position =>
      if source = mma then loop.storesOf result position else []
    | op => op.inner.filterMap fun x => if x.1 = mma then some x.2 else none)

/-- The values for which `dependsOnLoop` holds. -/
def dependents : List ℕ :=
  loop.body.foldl (fun found op =>
    if op.operands.any (· ∈ found) then found ++ op.results else found) [loop.iv]

/-- The first store of an MMA, by which MMAs are grouped. -/
def key (mma : ℕ) : Option (ℕ × List ℕ) :=
  (loop.patterns mma).head?.map fun pattern => (pattern.memref, pattern.indices)

def groupKeys : List (Option (ℕ × List ℕ)) := (loop.mmas.map loop.key).eraseDups

/-- `mmaGroups` -/
def members (key : Option (ℕ × List ℕ)) : List ℕ := loop.mmas.filter (loop.key · = key)

/-- The argument that carries the accumulator of a group. -/
def accArg (key : Option (ℕ × List ℕ)) : ℕ := loop.fresh + loop.groupKeys.idxOf key

/-- The MMA before another one in its group. -/
def previous (mma : ℕ) : Option ℕ :=
  ((loop.mmas.takeWhile (· ≠ mma)).filter (loop.key · = loop.key mma)).getLast?

/-- The new accumulator input of an MMA. -/
def accInput (mma : ℕ) : ℕ := (loop.previous mma).getD (loop.accArg (loop.key mma))

def lastOf (key : Option (ℕ × List ℕ)) : ℕ := (loop.members key).getLast?.getD 0

/-- The values that the accumulator inputs are made from. -/
def inputSide : List (Op P) → List ℕ
  | [] => []
  | op :: ops =>
    (match op with
      | .mma _ _ _ c => [c]
      | _ => []) ++
    (if op.results.any (· ∈ inputSide ops) then op.operands else []) ++ inputSide ops

/-- The results of the extractions from MMAs. -/
def extracts : List ℕ := loop.body.filterMap fun op =>
  match op with
  | .extract result source _ => if source ∈ loop.mmas then some result else none
  | _ => none

/-- `cChainCandidates`, for an operation and those behind it. -/
def candidate (op : Op P) (behind : List (Op P)) : Bool :=
  (match op with
    | .extract _ source _ => decide (source ∈ loop.mmas)
    | .store value _ _ => decide (value ∈ loop.extracts)
    | _ => false) ||
  op.results.any (· ∈ inputSide behind)

/-- The values that are used by operations outside `cChainOps`. Users stand behind what they use,
so one pass from the end removes all operations that have to be removed. -/
def used : List (Op P) → List ℕ
  | [] => loop.yields
  | op :: ops =>
    if loop.candidate op ops ∧ ∀ v ∈ op.results, v ∉ used ops then used ops
    else op.uses ++ used ops

/-- `cChainOps`, before the MMAs are taken out of it. -/
def inChain (op : Op P) (behind : List (Op P)) : Prop :=
  loop.candidate op behind = true ∧ ∀ v ∈ op.results, v ∉ loop.used behind

instance (op : Op P) (behind : List (Op P)) : Decidable (loop.inChain op behind) :=
  inferInstanceAs (Decidable (_ ∧ _))

def rewire : Op P → Op P
  | .mma result a b _ => .mma result a b (loop.accInput result)
  | op => op

/-- The operations that are cloned into the new loop. -/
def newBody : List (Op P) → List (Op P)
  | [] => []
  | op :: ops =>
    if loop.inChain op ops ∧ op.isMma = false then newBody ops else loop.rewire op :: newBody ops

/-- The stores of a group that are kept. -/
def lastPatterns (key : Option (ℕ × List ℕ)) : List (Pattern P) := loop.patterns (loop.lastOf key)

/-- The values that say where these store. -/
def addresses : List ℕ := loop.groupKeys.flatMap fun key =>
  (loop.lastPatterns key).flatMap fun pattern => pattern.memref :: pattern.indices

/-- `cloneOutsideLoop` for these values: the operations, and what is needed. -/
def clonesFrom : List (Op P) → List (Op P) × List ℕ
  | [] => ([], loop.addresses)
  | op :: ops =>
    if op.results.any (· ∈ (clonesFrom ops).2) then
      (op :: (clonesFrom ops).1, op.operands ++ (clonesFrom ops).2)
    else clonesFrom ops

def clones : List (Op P) := (loop.clonesFrom loop.body).1

def storeLast (key : Option (ℕ × List ℕ)) (pattern : Pattern P) : List (Op P) :=
  let extracted := loop.fresh + loop.groupKeys.length + pattern.extract
  [.extract extracted (loop.accArg key) pattern.position,
    .store extracted pattern.memref pattern.indices]

def post : List (Op P) :=
  loop.clones ++ loop.groupKeys.flatMap fun key =>
    (loop.lastPatterns key).flatMap (loop.storeLast key)

end KLoop

/-- The new loop, which carries an accumulator for each group, and what goes behind it. -/
structure Hoisted (P : Type) where
  loop : KLoop P
  accArgs : List ℕ
  post : List (Op P)

variable {P : Type}

def KLoop.hoisted (loop : KLoop P) : Hoisted P where
  loop := { loop with
    iterArgs := loop.iterArgs ++ loop.groupKeys.map loop.accArg
    body := loop.newBody loop.body
    yields := loop.yields ++ loop.groupKeys.map loop.lastOf }
  accArgs := loop.groupKeys.map loop.accArg
  post := loop.post

/-- `runOnOperation`, on the loop that it finds. -/
def KLoop.hoist (loop : KLoop P) : Option (Hoisted P) :=
  if loop.mmas = [] then none
  else if ∃ mma ∈ loop.mmas, loop.patterns mma = [] then none
  else if ∃ mma ∈ loop.mmas, ∃ pattern ∈ loop.patterns mma,
      ∃ v ∈ pattern.memref :: pattern.indices, v ∈ loop.dependents then none
  else some loop.hoisted

abbrev Lane := Fin 32

/-- A value of a lane: of an element type, of the type of an accumulator, or of another type. -/
inductive Value (F P : Type) where
  | scalar (x : F)
  | vector (elements : P → F)
  | other (x : ℕ)

abbrev WarpValue (F P : Type) := Lane → Value F P

/-- What operations do. An effect may be another one in each turn of the loop, as other warps are at
work, and it touches a part of the memory only. -/
structure Machine (F P Place : Type) where
  zero : F
  mma : WarpValue F P → WarpValue F P → (Lane → P → F) → Lane → P → F
  address : WarpValue F P → List (WarpValue F P) → Lane → Place
  pure : ℕ → List (WarpValue F P) → List (WarpValue F P)
  effect : ℕ → ℕ → List (WarpValue F P) → (Place → F) → List (WarpValue F P) × (Place → F)
  touches : ℕ → List (WarpValue F P) → Set Place
  effect_agree : ∀ op turn operands m m', (∀ a ∈ touches op operands, m a = m' a) →
    (effect op turn operands m).1 = (effect op turn operands m').1 ∧
      ∀ a ∈ touches op operands, (effect op turn operands m).2 a = (effect op turn operands m').2 a
  effect_frame : ∀ op turn operands m, ∀ a ∉ touches op operands,
    (effect op turn operands m).2 a = m a

abbrev Env (F P : Type) := ℕ → WarpValue F P

structure State (F P Place : Type) where
  env : Env F P
  mem : Place → F

def Env.bind {F P : Type} (env : Env F P) (names : List ℕ) (values : List (WarpValue F P)) :
    Env F P := fun v =>
  if v ∈ names then values.getD (names.idxOf v) fun _ => .other 0 else env v

section exec
variable {F P Place : Type} [DecidableEq P] [DecidableEq Place] (M : Machine F P Place)

def Machine.scalar : Value F P → F
  | .scalar x => x
  | _ => M.zero

def Machine.elements : Value F P → P → F
  | .vector elements => elements
  | _ => fun _ => M.zero

/-- Each lane writes. -/
def writeAll (mem : Place → F) (address : Lane → Place) (values : Lane → F) : Place → F :=
  (List.finRange 32).foldl (fun mem lane => Function.update mem (address lane) (values lane)) mem

def Op.exec (turn : ℕ) (s : State F P Place) : Op P → State F P Place
  | .mma result a b c =>
    let acc lane := M.elements (s.env c lane)
    ⟨s.env.bind [result] [fun lane => .vector (M.mma (s.env a) (s.env b) acc lane)], s.mem⟩
  | .extract result source position =>
    ⟨s.env.bind [result] [fun lane => .scalar (M.elements (s.env source lane) position)], s.mem⟩
  | .insert result value dest position =>
    let elements lane :=
      Function.update (M.elements (s.env dest lane)) position (M.scalar (s.env value lane))
    ⟨s.env.bind [result] [fun lane => .vector (elements lane)], s.mem⟩
  | .splat result input =>
    ⟨s.env.bind [result] [fun lane => .vector fun _ => M.scalar (s.env input lane)], s.mem⟩
  | .load result memref indices =>
    let address := M.address (s.env memref) (indices.map s.env)
    ⟨s.env.bind [result] [fun lane => .scalar (s.mem (address lane))], s.mem⟩
  | .store value memref indices =>
    let address := M.address (s.env memref) (indices.map s.env)
    ⟨s.env, writeAll s.mem address fun lane => M.scalar (s.env value lane)⟩
  | .pure op results operands =>
    ⟨s.env.bind results (M.pure op (operands.map s.env)), s.mem⟩
  | .effect op results operands captured _ =>
    let done := M.effect op turn ((operands ++ captured).map s.env) s.mem
    ⟨s.env.bind results done.1, done.2⟩

/-- The places that an operation reads or writes. -/
def Op.touched (s : State F P Place) : Op P → Set Place
  | .load _ memref indices | .store _ memref indices =>
    Set.range (M.address (s.env memref) (indices.map s.env))
  | .effect op _ operands captured _ => M.touches op ((operands ++ captured).map s.env)
  | _ => ∅

/-- Operations one after the other. -/
def execAll (turn : ℕ) (ops : List (Op P)) (s : State F P Place) : State F P Place :=
  ops.foldl (Op.exec M turn) s

/-- The values that a loop carries, and a state. -/
abbrev Carried (F P Place : Type) := List (WarpValue F P) × State F P Place

/-- The state in which a turn starts. -/
def KLoop.enter (loop : KLoop P) (s : Carried F P Place) (k : ℕ) : State F P Place :=
  ⟨s.2.env.bind (loop.iv :: loop.iterArgs) ((fun _ => .other k) :: s.1), s.2.mem⟩

def KLoop.turn (loop : KLoop P) (s : Carried F P Place) (k : ℕ) : Carried F P Place :=
  let done := execAll M k loop.body (loop.enter s k)
  (loop.yields.map done.env, done)

/-- The bounds of a loop. -/
structure Bounds where
  lower : ℕ
  upper : ℕ
  step : ℕ

def Bounds.trips (bounds : Bounds) : List ℕ :=
  (Loop.strides (bounds.upper - bounds.lower) bounds.step).map (bounds.lower + ·)

def KLoop.run (loop : KLoop P) (bounds : Bounds) (s : Carried F P Place) : Carried F P Place :=
  bounds.trips.foldl (loop.turn M) s

/-- The new loop with its accumulators at zero, and what goes behind it. -/
def Hoisted.run (hoisted : Hoisted P) (bounds : Bounds) (s : Carried F P Place) :
    Carried F P Place :=
  let zeros : List (WarpValue F P) :=
    hoisted.accArgs.map fun _ => (fun _ => .vector fun _ => M.zero)
  let done := hoisted.loop.run M bounds (s.1 ++ zeros, s.2)
  let behind : Env F P := done.2.env.bind hoisted.accArgs (done.1.drop s.1.length)
  (done.1.take s.1.length, execAll M 0 hoisted.post ⟨behind, done.2.mem⟩)

end exec

/-- What MLIR verifies of a loop: values are defined once, and before they are used. -/
structure KLoop.WellFormed {P : Type} (loop : KLoop P) : Prop where
  ordered : loop.body.Pairwise fun op op' => ∀ v ∈ op.results ++ op.uses, v ∉ op'.results
  own : ∀ op ∈ loop.body, ∀ v ∈ op.uses, v ∉ op.results
  args : ∀ op ∈ loop.body, ∀ v ∈ loop.iv :: loop.iterArgs, v ∉ op.results
  fresh : ∀ op ∈ loop.body, ∀ v ∈ op.results ++ op.uses, v < loop.fresh
  fresh_inner : ∀ op ∈ loop.body, ∀ x ∈ op.inner, ∀ v ∈ x.2.memref :: x.2.indices, v < loop.fresh
  fresh_args : ∀ v ∈ loop.iv :: loop.iterArgs ++ loop.yields, v < loop.fresh
  yields : loop.yields.length = loop.iterArgs.length

abbrev Slot (P : Type) := P × ℕ × List ℕ

def Pattern.slot (pattern : Pattern P) : Slot P :=
  (pattern.position, pattern.memref, pattern.indices)

def Op.acts : Op P → Bool
  | .mma _ _ _ _ | .store _ _ _ | .effect _ _ _ _ _ => true
  | _ => false

/-- What an operation uses, but for accumulator inputs. -/
def Op.inputs : Op P → List ℕ
  | .mma _ a b _ => [a, b]
  | op => op.uses

namespace KLoop

section slots
variable {P : Type} [DecidableEq P] (loop : KLoop P)

/-- The MMA and the position that a value is extracted from. -/
def origin (value : ℕ) : Option (ℕ × P) := loop.body.findSome? fun op =>
  match op with
  | .extract result source position =>
    if result = value ∧ source ∈ loop.mmas then some (source, position) else none
  | _ => none

/-- The MMA of a group whose element an operation stores in a slot. -/
def storedBy (key : Option (ℕ × List ℕ)) (slot : Slot P) : Op P → Option ℕ
  | .store value memref indices =>
    (loop.origin value).bind fun x =>
      if loop.key x.1 = key ∧ (x.2, memref, indices) = slot then some x.1 else none
  | _ => none

def lastStored (key : Option (ℕ × List ℕ)) (slot : Slot P) (ops : List (Op P)) : Option ℕ :=
  ops.foldl (fun last op => (loop.storedBy key slot op).or last) none

end slots

variable {P : Type} (loop : KLoop P)

/-- The values that count for something else than an accumulator input or a store of an
accumulator. -/
def live : List (Op P) → List ℕ
  | [] => loop.yields
  | op :: ops =>
    if loop.inChain op ops then live ops
    else (if op.acts ∨ op.results.any (· ∈ live ops) then op.inputs else []) ++
      (live ops).filter (· ∉ op.results)

variable {F Place : Type} [DecidableEq P] [DecidableEq Place] (M : Machine F P Place)
  (s₀ : Carried F P Place)

/-- Where a slot of a lane is, with the addresses as they are in front of the loop. -/
def place (slot : Slot P) (lane : Lane) : Place :=
  let env := (execAll M 0 loop.clones s₀.2).env
  M.address (env slot.2.1) (slot.2.2.map env) lane

def outputs : Set Place :=
  {a | ∃ key ∈ loop.groupKeys, ∃ pattern ∈ loop.lastPatterns key, ∃ lane,
    a = loop.place M s₀ pattern.slot lane}

/-- What has to hold where an operation is executed: an accumulator input is what is stored at the
positions of the MMA, by the MMA before it, and nothing else depends on the outputs. -/
def Fits (ops : List (Op P)) (op : Op P) (behind : List (Op P)) (s : State F P Place) : Prop :=
  match op with
  | .mma result _ _ c => ∀ pattern ∈ loop.patterns result,
      loop.lastStored (loop.key result) pattern.slot ops = loop.previous result ∧
      ∀ lane, M.elements (s.env c lane) pattern.position = s.mem (loop.place M s₀ pattern.slot lane)
  | .load result _ _ =>
    result ∈ loop.live behind → Disjoint (op.touched M s) (loop.outputs M s₀)
  | .store value _ _ =>
    loop.origin value = none → Disjoint (op.touched M s) (loop.outputs M s₀)
  | .effect _ _ _ _ _ => Disjoint (op.touched M s) (loop.outputs M s₀)
  | _ => True

def FitsFrom (turn : ℕ) : List (Op P) → List (Op P) → State F P Place → Prop
  | ops, [], _ => ∀ key ∈ loop.groupKeys, ∀ pattern ∈ loop.lastPatterns key,
      loop.lastStored key pattern.slot ops = (loop.members key).getLast?
  | ops, op :: behind, s =>
    loop.Fits M s₀ ops op behind s ∧ FitsFrom turn (ops ++ [op]) behind (op.exec M turn s)

def FitsTurns : List ℕ → Carried F P Place → Prop
  | [], _ => True
  | k :: ks, s =>
    loop.FitsFrom M s₀ k [] loop.body (loop.enter s k) ∧ FitsTurns ks (loop.turn M s k)

/-- **Accumulation**, in a run. -/
structure Accumulates (bounds : Bounds) : Prop where
  /-- each element of an MMA is stored -/
  covers : ∀ mma ∈ loop.mmas, ∀ position, ∃ pattern ∈ loop.patterns mma, pattern.position = position
  /-- the MMAs of a group store at the same index values -/
  same : ∀ mma ∈ loop.mmas, ∀ slot, slot ∈ (loop.patterns mma).map Pattern.slot ↔
    slot ∈ (loop.lastPatterns (loop.key mma)).map Pattern.slot
  /-- different groups, positions, index values and lanes have different places -/
  apart : ∀ key ∈ loop.groupKeys, ∀ key' ∈ loop.groupKeys, ∀ pattern ∈ loop.lastPatterns key,
    ∀ pattern' ∈ loop.lastPatterns key', ∀ lane lane',
    loop.place M s₀ pattern.slot lane = loop.place M s₀ pattern'.slot lane' →
    key = key' ∧ pattern.slot = pattern'.slot ∧ lane = lane'
  /-- addresses are the same in each turn -/
  addresses : ∀ op ∈ loop.clones, ∃ op' results operands, op = .pure op' results operands
  addresses_args : ∀ v ∈ (loop.clonesFrom loop.body).2, v ∉ loop.iv :: loop.iterArgs
  fits : loop.FitsTurns M s₀ bounds.trips s₀

end KLoop

end Matcore.Gpu.AccumulatorHoist
