import Mathlib.Algebra.BigOperators.Group.List.Basic
import Mathlib.Data.List.Nodup
import Mathlib.Tactic.Ring

/-!
# Loop nests over tensors

An operation that walks a nest of loops. Each operand is a tensor with a map from the indices of
the loops to its own; at one point of the nest the body computes the element to store from the
elements read there.

* `strides bound stride`: the values of `x` in `for (x = 0; x < bound; x += stride)`.
-/

namespace Loop

variable {σ β : Type} {bound stride : ℕ}

def strides (bound stride : ℕ) : List ℕ :=
  (List.range ((bound + stride - 1) / stride)).map (· * stride)

theorem mem_strides (hs : 0 < stride) {x : ℕ} :
    x ∈ strides bound stride ↔ stride ∣ x ∧ x < bound := by
  unfold strides
  simp only [List.mem_map, List.mem_range]
  constructor
  · rintro ⟨t, ht, rfl⟩
    refine ⟨Nat.dvd_mul_left stride t, ?_⟩
    have := (Nat.lt_div_iff_mul_lt hs).1 ht
    omega
  · rintro ⟨⟨t, rfl⟩, hx⟩
    refine ⟨t, (Nat.lt_div_iff_mul_lt hs).2 ?_, Nat.mul_comm t stride⟩
    rw [Nat.mul_comm t stride]
    omega

theorem mem_strides_from (hs : 0 < stride) {lower upper x : ℕ} :
    x ∈ (strides (upper - lower) stride).map (lower + ·) ↔
      lower ≤ x ∧ x < upper ∧ stride ∣ x - lower := by
  simp only [List.mem_map, mem_strides hs]
  constructor
  · rintro ⟨y, ⟨hdvd, hlt⟩, rfl⟩
    rw [Nat.add_sub_cancel_left]
    exact ⟨by omega, by omega, hdvd⟩
  · rintro ⟨hle, hlt, hdvd⟩
    exact ⟨x - lower, ⟨hdvd, by omega⟩, by omega⟩

/-- Two nested loops are one. -/
theorem flatMap_range (a b : ℕ) (f : ℕ → ℕ → β) :
    ((List.range a).flatMap fun i => (List.range b).map (f i)) =
      (List.range (a * b)).map fun d => f (d / b) (d % b) := by
  induction a with
  | zero => simp
  | succ a ih =>
    rw [List.range_succ, List.flatMap_append, ih, Nat.succ_mul, List.range_add, List.map_append,
      List.flatMap_singleton, List.map_map]
    congr 1
    refine List.map_congr_left fun j hj => ?_
    have hj := List.mem_range.1 hj
    have hb : 0 < b := Nat.zero_lt_of_lt hj
    simp only [Function.comp_apply]
    rw [Nat.mul_comm a b, Nat.mul_add_div hb, Nat.div_eq_of_lt hj, Nat.mul_add_mod,
      Nat.mod_eq_of_lt hj, Nat.add_zero]

end Loop

namespace LoopNest

variable {F : Type}

structure Tensor (F : Type) where
  shape : List ℕ
  get : List ℕ → F

/-- A single element, read as a tensor without dimensions. -/
def Tensor.scalar (x : F) : Tensor F := ⟨[], fun _ => x⟩

inductive AffineExpr where
  | dim (position : ℕ)
  | other (text : List UInt8)
  deriving DecidableEq

structure AffineMap where
  dims : ℕ
  symbols : ℕ
  results : List AffineExpr
  deriving DecidableEq

/-- The map that takes the given dimensions. -/
def AffineMap.projection (dims : ℕ) (positions : List ℕ) : AffineMap :=
  ⟨dims, 0, positions.map .dim⟩

def AffineExpr.eval (point : List ℕ) : AffineExpr → Option ℕ
  | .dim position => point[position]?
  | .other _ => none

def AffineMap.apply (map : AffineMap) (point : List ℕ) : Option (List ℕ) :=
  if point.length = map.dims ∧ map.symbols = 0 then map.results.mapM (·.eval point) else none

/-- The points of a nest with these bounds, the last loop innermost. -/
def points : List ℕ → List (List ℕ)
  | [] => [[]]
  | bound :: bounds => (List.range bound).flatMap fun i => (points bounds).map (i :: ·)

variable {bounds point : List ℕ}

theorem mem_points : point ∈ points bounds ↔ List.Forall₂ (· < ·) point bounds := by
  induction bounds generalizing point with
  | nil => rw [points, List.mem_singleton, List.forall₂_nil_right_iff]
  | cons bound bounds ih =>
    simp only [points, List.mem_flatMap, List.mem_range, List.mem_map]
    constructor
    · rintro ⟨i, hi, rest, hrest, rfl⟩
      exact .cons hi (ih.1 hrest)
    · rintro (_ | ⟨hi, hrest⟩)
      exact ⟨_, hi, _, ih.2 hrest, rfl⟩

theorem length_points (bounds : List ℕ) : (points bounds).length = bounds.prod := by
  induction bounds with
  | nil => rfl
  | cons bound bounds ih => simp [points, List.length_flatMap, ih]

theorem nodup_points (bounds : List ℕ) : (points bounds).Nodup := by
  induction bounds with
  | nil => exact List.nodup_singleton []
  | cons bound bounds ih =>
    refine List.nodup_flatMap.2 ⟨fun i _ => ih.map (List.cons_injective), ?_⟩
    refine List.nodup_range.imp fun hne => List.disjoint_left.2 fun point hi hj => ?_
    obtain ⟨_, -, rfl⟩ := List.mem_map.1 hi
    obtain ⟨_, -, heq⟩ := List.mem_map.1 hj
    exact hne (List.cons.inj heq).1.symm

variable {β : Type}

/-- In a list without repetition a search for one number finds it once. -/
theorem flatMap_range_eq {n i : ℕ} (h : i < n) {l : List β} {f : ℕ → List β} (heq : f i = l)
    (hne : ∀ j, j ≠ i → f j = []) : (List.range n).flatMap f = l := by
  induction n with
  | zero => exact absurd h (Nat.not_lt_zero i)
  | succ n ih =>
    rw [List.range_succ, List.flatMap_append, List.flatMap_singleton]
    by_cases hin : i = n
    · have hnone : (List.range n).flatMap f = [] := by
        rw [List.flatMap_eq_nil_iff]
        intro j hj
        exact hne j fun hji => by
          have := List.mem_range.1 hj
          omega
      rw [hnone, ← hin, heq, List.nil_append]
    · rw [ih (by omega), hne n (Ne.symm hin), List.append_nil]

/-- **The points over one point of the outer loops** are those of the inner ones, in order. -/
theorem filter_points (inner : List ℕ) {outer key : List ℕ} (h : key ∈ points outer) :
    (points (outer ++ inner)).filter (fun point => point.take outer.length = key) =
      (points inner).map (key ++ ·) := by
  induction outer generalizing key with
  | nil =>
    obtain rfl : key = [] := by simpa [points] using h
    simp
  | cons bound outer ih =>
    obtain ⟨i, hi, rest, hrest, rfl⟩ : ∃ i < bound, ∃ rest ∈ points outer, i :: rest = key := by
      simpa [points] using h
    rw [List.cons_append, points, List.filter_flatMap]
    refine flatMap_range_eq hi ?_ ?_
    · have hsame : ((points (outer ++ inner)).map (i :: ·)).filter
          (fun point => point.take (bound :: outer).length = i :: rest) =
          ((points (outer ++ inner)).filter
            (fun point => point.take outer.length = rest)).map (i :: ·) := by
        rw [List.filter_map]
        congr 1
        apply List.filter_congr
        simp
      rw [hsame, ih hrest, List.map_map]
      rfl
    · intro j hj
      rw [List.filter_eq_nil_iff]
      intro point hpoint
      obtain ⟨point', -, rfl⟩ := List.mem_map.1 hpoint
      simp [hj]

/-- What a nest leaves in an element is the fold of the body over the points that store there. -/
theorem foldl_store {P : Type} (target : P → List ℕ) (value : P → F → F) (l : List P)
    (get : List ℕ → F) (key : List ℕ) :
    l.foldl (fun out p => Function.update out (target p) (value p (out (target p)))) get key =
      (l.filter fun p => target p = key).foldl (fun acc p => value p acc) (get key) := by
  induction l generalizing get with
  | nil => rfl
  | cons p l ih =>
    rw [List.foldl_cons, ih]
    by_cases h : target p = key
    · rw [List.filter_cons_of_pos (by simpa using h), List.foldl_cons, h, Function.update_self]
    · rw [List.filter_cons_of_neg (by simpa using h),
        Function.update_of_ne (Ne.symm h)]

/-- An operand with its map. -/
structure Operand (F : Type) where
  map : AffineMap
  tensor : Tensor F

/-- The bound of a loop, from the first operand whose map takes its index. -/
def boundOf (operands : List (Operand F)) (position : ℕ) : Option ℕ :=
  operands.findSome? fun operand =>
    (operand.map.results.zip operand.tensor.shape).findSome? fun entry =>
      if entry.1 = .dim position then some entry.2 else none

def boundsOf (dims : ℕ) (operands : List (Operand F)) : Option (List ℕ) :=
  (List.range dims).mapM (boundOf operands)

/-- The elements of the operands at one point. -/
def elements (inputs : List (Operand F)) (point : List ℕ) : Option (List F) :=
  inputs.mapM fun operand => (operand.map.apply point).map operand.tensor.get

def store (inputs : List (Operand F)) (map : AffineMap) (body : List F → Option F)
    (out : List ℕ → F) (point : List ℕ) : Option (List ℕ → F) := do
  let read ← elements inputs point
  let target ← map.apply point
  let value ← body (read ++ [out target])
  return Function.update out target value

/-- A nest of `dims` loops. Its bounds are those of the operands, which have to agree. -/
def execute (dims : ℕ) (inputs : List (Operand F)) (init : Operand F)
    (body : List F → Option F) : Option (Tensor F) := do
  let bounds ← boundsOf dims (inputs ++ [init])
  if (inputs ++ [init]).all fun operand => operand.map.apply bounds = some operand.tensor.shape then
    let get ← (points bounds).foldlM (store inputs init.map body) init.tensor.get
    return ⟨init.tensor.shape, get⟩
  else none

theorem foldlM_eq_some {α : Type} {f : β → α → Option β} {g : β → α → β} {l : List α}
    (h : ∀ b, ∀ a ∈ l, f b a = some (g b a)) (b : β) : l.foldlM f b = some (l.foldl g b) := by
  induction l generalizing b with
  | nil => rfl
  | cons a l ih =>
    rw [List.foldlM_cons, h b a List.mem_cons_self, List.foldl_cons]
    exact ih (fun b' a' ha' => h b' a' (List.mem_cons_of_mem _ ha')) (g b a)

/-- **A nest runs to its end** where its maps and its body have a value at every point. -/
theorem execute_eq {dims : ℕ} {inputs : List (Operand F)} {init : Operand F}
    {body : List F → Option F} (read : List ℕ → List F) (target : List ℕ → List ℕ)
    (value : List ℕ → F → F) (hbounds : boundsOf dims (inputs ++ [init]) = some bounds)
    (hshapes : ∀ operand ∈ inputs ++ [init], operand.map.apply bounds = some operand.tensor.shape)
    (hread : ∀ point ∈ points bounds, elements inputs point = some (read point))
    (htarget : ∀ point ∈ points bounds, init.map.apply point = some (target point))
    (hbody : ∀ point ∈ points bounds, ∀ x, body (read point ++ [x]) = some (value point x)) :
    execute dims inputs init body = some ⟨init.tensor.shape, fun key =>
      ((points bounds).filter fun point => target point = key).foldl
        (fun acc point => value point acc) (init.tensor.get key)⟩ := by
  have hstore : ∀ out, ∀ point ∈ points bounds, store inputs init.map body out point =
      some (Function.update out (target point) (value point (out (target point)))) := by
    intro out point hpoint
    simp only [store, hread point hpoint, htarget point hpoint, hbody point hpoint,
      Option.bind_eq_bind, Option.bind_some]
    rfl
  have hall : (inputs ++ [init]).all
      (fun operand => operand.map.apply bounds = some operand.tensor.shape) = true := by
    rw [List.all_eq_true]
    exact fun operand hm => decide_eq_true (hshapes operand hm)
  unfold execute
  rw [hbounds, Option.bind_eq_bind, Option.bind_some, if_pos hall, foldlM_eq_some hstore]
  refine congrArg some (congrArg (Tensor.mk _) ?_)
  funext key
  exact foldl_store target value (points bounds) init.tensor.get key

end LoopNest
