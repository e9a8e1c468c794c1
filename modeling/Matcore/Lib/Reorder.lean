import Mathlib

/-!
# Running steps in another order

* `Footprint`, `Footprint.commute`: steps on a memory that write where the other neither reads nor
  writes commute.
-/

namespace Reorder

variable {α β : Type} {f : β → α → β}

theorem foldl_front {a : α} {before : List α} (hcomm : ∀ x ∈ before, ∀ b, f (f b x) a = f (f b a) x)
    (after : List α) (b : β) :
    (before ++ a :: after).foldl f b = (a :: (before ++ after)).foldl f b := by
  induction before generalizing b with
  | nil => rfl
  | cons x before ih =>
    have hrest := ih (fun y hy => hcomm y (List.mem_cons_of_mem _ hy)) (f b x)
    have hswap := hcomm x List.mem_cons_self b
    rw [List.cons_append, List.foldl_cons, hrest, List.foldl_cons, hswap]
    rfl

/-- Two orders of the same steps do the same, when every two steps that change places commute. -/
theorem foldl_reorder {l₁ l₂ : List α} (hperm : l₁.Perm l₂) (hnodup : l₁.Nodup)
    (hcomm : ∀ x y, [x, y].Sublist l₂ → [y, x].Sublist l₁ → ∀ b, f (f b x) y = f (f b y) x) (b : β) :
    l₁.foldl f b = l₂.foldl f b := by
  induction l₁ generalizing l₂ b with
  | nil => rw [List.nil_perm.1 hperm]
  | cons a l₁ ih =>
    obtain ⟨_, hnodup⟩ := List.nodup_cons.1 hnodup
    -- the first step is somewhere in the other order, behind steps that come later in this one
    obtain ⟨before, after, rfl⟩ := List.append_of_mem (hperm.subset List.mem_cons_self)
    have hrest : l₁.Perm (before ++ after) :=
      List.Perm.cons_inv (hperm.trans List.perm_middle)
    have hfront : ∀ x ∈ before, ∀ b, f (f b x) a = f (f b a) x := by
      intro x hx
      refine hcomm x a ?_ ?_
      · exact (List.singleton_sublist.2 hx).append
          (List.singleton_sublist.2 List.mem_cons_self)
      · exact List.Sublist.cons_cons a
          (List.singleton_sublist.2 (hrest.symm.subset (List.mem_append_left _ hx)))
    rw [foldl_front hfront, List.foldl_cons, List.foldl_cons]
    refine ih hrest hnodup (fun x y hxy hyx => ?_) _
    refine hcomm x y (hxy.trans ?_) (hyx.trans (List.sublist_cons_self a l₁))
    exact List.Sublist.append_left (List.sublist_cons_self a after) before

variable {Cell Value : Type}

/-- A step on a memory reads and writes no more than this. -/
structure Footprint (reads writes : Set Cell) (step : (Cell → Value) → Cell → Value) : Prop where
  unchanged : ∀ memory cell, cell ∉ writes → step memory cell = memory cell
  determined : ∀ memory memory', (∀ cell ∈ reads, memory cell = memory' cell) →
    ∀ cell, memory cell = memory' cell → step memory cell = step memory' cell

/-- Two footprints conflict: one writes what the other reads or writes. -/
def Conflict (reads writes reads' writes' : Set Cell) : Prop :=
  ¬ Disjoint writes (reads' ∪ writes') ∨ ¬ Disjoint reads writes'

variable {reads writes' writes reads' : Set Cell}

theorem Conflict.symm (h : Conflict reads writes reads' writes') :
    Conflict reads' writes' reads writes := by
  unfold Conflict at h ⊢
  rw [Set.disjoint_union_right] at h ⊢
  rw [disjoint_comm, disjoint_comm (a := reads'), disjoint_comm (a := writes') (b := writes)]
  tauto

/-- **Steps without a conflict commute.** -/
theorem Footprint.commute {step step' : (Cell → Value) → Cell → Value}
    (h : Footprint reads writes step) (h' : Footprint reads' writes' step')
    (hfree : ¬ Conflict reads writes reads' writes') (memory : Cell → Value) :
    step (step' memory) = step' (step memory) := by
  obtain ⟨hwrites, hreads⟩ := not_or.1 hfree
  have hwrites := not_not.1 hwrites
  have hreads := not_not.1 hreads
  funext cell
  by_cases hcell : cell ∈ writes
  · -- this cell belongs to the first step, and the second one leaves what it reads alone
    have hnot : cell ∉ writes' := fun hx =>
      Set.disjoint_left.1 hwrites hcell (Set.mem_union_right _ hx)
    have hread : ∀ x ∈ reads, step' memory x = memory x := fun x hx =>
      h'.unchanged memory x (Set.disjoint_left.1 hreads hx)
    rw [h'.unchanged _ cell hnot]
    exact h.determined _ _ hread cell (h'.unchanged memory cell hnot)
  · have hread : ∀ x ∈ reads', step memory x = memory x := fun x hx =>
      h.unchanged memory x fun hw => Set.disjoint_left.1 hwrites hw (Set.mem_union_left _ hx)
    rw [h.unchanged _ cell hcell]
    exact (h'.determined _ _ hread cell (h.unchanged memory cell hcell)).symm

end Reorder
