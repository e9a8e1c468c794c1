import Mathlib.Data.List.GetD
import Mathlib.Data.Nat.ModEq

/-!
# Flat memory of equal cells

A memory maps byte addresses to cell contents. An array at `p` of cells of `w` bytes has its
cell `i` at `cell w p i = p + w * i`.
-/

namespace FlatMemory

variable {F : Type}

abbrev Mem (F : Type) := ℕ → F

/-- The address of cell `i` of an array at `p`. -/
def cell (w p i : ℕ) : ℕ := p + w * i

theorem le_cell (w p i : ℕ) : p ≤ cell w p i := Nat.le_add_right _ _

/-- The contents of `n` cells at `p`. -/
def readCells (w : ℕ) (mem : Mem F) (p n : ℕ) : List F :=
  (List.range n).map fun i => mem (cell w p i)

/-- Memory with the list `l` written to the cells at `p`. -/
def writeCells (w : ℕ) (mem : Mem F) (p : ℕ) (l : List F) : Mem F := fun a =>
  if p ≤ a ∧ (a - p) % w = 0 then l.getD ((a - p) / w) (mem a) else mem a

@[simp] theorem length_readCells (w : ℕ) (mem : Mem F) (p n : ℕ) :
    (readCells w mem p n).length = n := by simp [readCells]

theorem writeCells_cell {w : ℕ} (hw : 0 < w) (mem : Mem F) (p : ℕ) {l : List F} {i : ℕ}
    (hi : i < l.length) : writeCells w mem p l (cell w p i) = l[i] := by
  have hsub : cell w p i - p = w * i := by unfold cell; omega
  unfold writeCells
  rw [if_pos ⟨le_cell w p i, by rw [hsub, Nat.mul_mod_right]⟩, hsub, Nat.mul_div_cancel_left i hw,
    List.getD_eq_getElem _ _ hi]

/-- A block that was written reads back. -/
theorem readCells_writeCells {w : ℕ} (hw : 0 < w) (mem : Mem F) (p : ℕ) (l : List F) :
    readCells w (writeCells w mem p l) p l.length = l := by
  apply List.ext_getElem (by simp)
  intro i h₁ h₂
  simp only [readCells, List.getElem_map, List.getElem_range]
  exact writeCells_cell hw mem p h₂

end FlatMemory
