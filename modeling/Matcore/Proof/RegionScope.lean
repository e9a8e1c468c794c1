import Matcore.TwoGemm.Run

/-!
# The values of a region function

Where an operation of the block and the values it defines stand.

* `stripCast_le`, `stripCast_eq`: casts lead back, and nowhere from what is not a cast.
-/

namespace Matcore.TwoGemm

variable {function : RegionFunction} {ops : List Op} {position i : ℕ} {placed : Placed}
  {before : Scope}

theorem getElem?_definitionsFrom (hi : i < placed.op.results.length)
    (hm : placed ∈ placedFrom position before.length ops) :
    (before ++ definitionsFrom position ops)[placed.first + i]? =
      some ⟨placed.op.results[i], some (placed.position, placed.op)⟩ := by
  induction ops generalizing position before with
  | nil => cases hm
  | cons op rest ih =>
    have hlength : before.length + op.results.length =
        (before ++ op.results.map fun type =>
          (⟨type, some (position, op)⟩ : Definition)).length := by
      rw [List.length_append, List.length_map]
    rw [definitionsFrom, ← List.append_assoc]
    rw [placedFrom, hlength] at hm
    rcases List.mem_cons.1 hm with rfl | hrest
    · rw [List.getElem?_append_left (by simpa using hi),
        List.getElem?_append_right (Nat.le_add_right _ _), Nat.add_sub_cancel_left,
        List.getElem?_map, List.getElem?_eq_getElem hi]
      rfl
    · exact ih hrest

variable {op : Op} {k value : ℕ}

theorem mem_placedFrom {definition : Definition}
    (h : (before ++ definitionsFrom position ops)[value]? = some definition)
    (hop : definition.op = some (k, op)) (hvalue : before.length ≤ value) :
    ∃ placed ∈ placedFrom position before.length ops, placed.position = k ∧ placed.op = op ∧
      ∃ i < op.results.length, value = placed.first + i := by
  induction ops generalizing position before with
  | nil =>
    rw [definitionsFrom, List.append_nil, List.getElem?_eq_none hvalue] at h
    cases h
  | cons op' rest ih =>
    have hlength : before.length + op'.results.length =
        (before ++ op'.results.map fun type =>
          (⟨type, some (position, op')⟩ : Definition)).length := by
      rw [List.length_append, List.length_map]
    rw [definitionsFrom, ← List.append_assoc] at h
    rw [placedFrom, hlength]
    by_cases hlt : value < before.length + op'.results.length
    · rw [List.getElem?_append_left (by rwa [← hlength]),
        List.getElem?_append_right hvalue, List.getElem?_map] at h
      obtain ⟨type, -, rfl⟩ := Option.map_eq_some_iff.1 h
      cases hop
      exact ⟨_, List.mem_cons_self, rfl, rfl, value - before.length, by omega, by simp; omega⟩
    · obtain ⟨placed, hm, hrest⟩ := ih h (by rw [← hlength]; omega)
      exact ⟨placed, List.mem_cons_of_mem _ hm, hrest⟩

theorem length_arguments : (function.arguments.map fun type =>
    (⟨type, none⟩ : Definition)).length = function.arguments.length := List.length_map _

section

variable (hm : placed ∈ function.placed) (hi : i < placed.op.results.length)

include hm hi

/-- The values of an operation follow its first result. -/
theorem getElem?_scope :
    function.scope[placed.first + i]? =
      some ⟨placed.op.results[i], some (placed.position, placed.op)⟩ := by
  unfold RegionFunction.placed at hm
  rw [← length_arguments] at hm
  exact getElem?_definitionsFrom hi hm

theorem definingOp_placed :
    function.scope.definingOp (placed.first + i) = some (placed.position, placed.op) := by
  unfold Scope.definingOp
  rw [getElem?_scope hm hi]
  rfl

theorem type_placed : function.scope.type (placed.first + i) = some placed.op.results[i] := by
  unfold Scope.type
  rw [getElem?_scope hm hi]
  rfl

end

theorem definingOp_first (hm : placed ∈ function.placed) (h : 0 < placed.op.results.length) :
    function.scope.definingOp placed.first = some (placed.position, placed.op) := by
  have := definingOp_placed hm h
  rwa [Nat.add_zero] at this

theorem type_first (hm : placed ∈ function.placed) {type : Ty} {types : List Ty}
    (h : placed.op.results = type :: types) : function.scope.type placed.first = some type := by
  have hlength : 0 < placed.op.results.length := by
    rw [h]
    exact Nat.succ_pos _
  have := type_placed hm hlength
  simpa only [Nat.add_zero, h, List.getElem_cons_zero] using this

/-- A value with a defining operation is one of its results. -/
theorem placed_of_scope (h : function.scope.definingOp value = some (k, op)) :
    ∃ placed ∈ function.placed, placed.position = k ∧ placed.op = op ∧
      ∃ i < op.results.length, value = placed.first + i := by
  obtain ⟨definition, hget, hop⟩ := Option.bind_eq_some_iff.1 h
  unfold RegionFunction.placed
  rw [← length_arguments]
  refine mem_placedFrom hget hop ?_
  by_contra hlt
  rw [not_le] at hlt
  unfold RegionFunction.scope at hget
  rw [List.getElem?_append_left hlt, List.getElem?_map] at hget
  obtain ⟨type, -, rfl⟩ := Option.map_eq_some_iff.1 hget
  cases hop

theorem placed_of_definingOp (h : function.scope.definingOp value = some (k, op))
    (hsingle : op.results.length = 1) : ⟨k, value, op⟩ ∈ function.placed := by
  obtain ⟨placed, hm, rfl, rfl, i, hi, rfl⟩ := placed_of_scope h
  have hzero : i = 0 := by omega
  rw [hzero]
  exact hm

theorem getElem?_placedFrom {first : ℕ} (hm : placed ∈ placedFrom position first ops) :
    position ≤ placed.position ∧
      (placedFrom position first ops)[placed.position - position]? = some placed := by
  induction ops generalizing position first with
  | nil => cases hm
  | cons op rest ih =>
    rw [placedFrom] at hm ⊢
    rcases List.mem_cons.1 hm with rfl | hrest
    · exact ⟨le_rfl, by rw [Nat.sub_self]; rfl⟩
    · obtain ⟨hle, hget⟩ := ih hrest
      have hsucc : placed.position - position = placed.position - (position + 1) + 1 := by omega
      rw [hsucc, List.getElem?_cons_succ]
      exact ⟨by omega, hget⟩

theorem placed_unique {placed' : Placed} (hm : placed ∈ function.placed)
    (hm' : placed' ∈ function.placed) (h : placed.position = placed'.position) :
    placed = placed' := by
  have hget := (getElem?_placedFrom hm).2
  rw [h, (getElem?_placedFrom hm').2] at hget
  exact (Option.some.inj hget).symm

theorem type_argument {argument : ℕ} {type : Ty} (h : function.arguments[argument]? = some type) :
    function.scope.type argument = some type := by
  obtain ⟨hlt, -⟩ := List.getElem?_eq_some_iff.1 h
  unfold Scope.type RegionFunction.scope
  rw [List.getElem?_append_left (by rwa [length_arguments]), List.getElem?_map, h]
  rfl

/-- What MLIR's verifier establishes of an operation of the block. -/
structure Placed.Verified (function : RegionFunction) (placed : Placed) : Prop where
  dominated : ∀ value ∈ placed.op.operands, value < placed.first
  verified : placed.op.verify function.scope = true

theorem placed_verified (h : function.verify = true) (hm : placed ∈ function.placed) :
    placed.Verified function := by
  have hplaced := List.all_eq_true.1 h placed hm
  rw [Bool.and_eq_true, List.all_eq_true] at hplaced
  exact ⟨fun value hv => of_decide_eq_true (hplaced.1 value hv), hplaced.2⟩

theorem stripCastFrom_le (h : function.verify = true) (fuel : ℕ) (value : ℕ) :
    stripCastFrom function.scope fuel value ≤ value := by
  induction fuel generalizing value with
  | zero => exact le_rfl
  | succ fuel ih =>
    unfold stripCastFrom
    split
    · rename_i k source type hcast
      split
      · have hm := placed_of_definingOp hcast rfl
        have hlt := (placed_verified h hm).dominated source List.mem_cons_self
        exact le_trans (ih source) (le_of_lt hlt)
      · exact le_rfl
    · exact le_rfl

theorem stripCast_le (h : function.verify = true) (value : ℕ) :
    stripCast function.scope value ≤ value := stripCastFrom_le h value value

theorem stripCast_eq (h : function.scope.definingOp value = some (k, op))
    (hop : ∀ source type, op ≠ .cast source type) : stripCast function.scope value = value := by
  unfold stripCast stripCastFrom
  split
  · rfl
  · rw [h]
    split
    · rename_i heq
      cases heq
      exact absurd rfl (hop _ _)
    · rfl

end Matcore.TwoGemm
