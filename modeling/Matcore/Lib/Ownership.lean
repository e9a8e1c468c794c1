import Mathlib.Data.List.Nodup
import Mathlib.Data.List.Perm.Basic

/-!
# Pieces of work that own what they write

Work is split into pieces, and each piece writes locations that it alone owns and reads only these
and what nobody owns. The order of the pieces then does not matter.

A matrix is cut into tiles, one for each block of a grid, and the elements of a tile are numbered.
The tiles of the last row and of the last column may go over the edge. Every element is in one tile.
-/

variable {σ ι L E : Type*}

/-- Pieces that own what they write. -/
structure Owned (get : σ → L → E) (owner : ι → L → Prop) (piece : σ → ι → σ) : Prop where
  /-- no location has two owners -/
  unique : ∀ i j x, owner i x → owner j x → i = j
  frame : ∀ s i x, ¬ owner i x → get (piece s i) x = get s x
  /-- a piece reads its own locations and those of nobody -/
  reads : ∀ s s' i, (∀ x, (owner i x ∨ ∀ j, ¬ owner j x) → get s x = get s' x) →
    ∀ x, owner i x → get (piece s i) x = get (piece s' i) x

namespace Owned

variable {get : σ → L → E} {owner : ι → L → Prop} {piece : σ → ι → σ}

theorem foldl_frame (h : Owned get owner piece) (l : List ι) (s : σ) {x : L}
    (hx : ∀ i ∈ l, ¬ owner i x) : get (l.foldl piece s) x = get s x := by
  induction l generalizing s with
  | nil => rfl
  | cons i l ih =>
    have hrest := ih (piece s i) fun j hj => hx j (List.mem_cons_of_mem i hj)
    rw [List.foldl_cons, hrest]
    exact h.frame s i x (hx i List.mem_cons_self)

/-- A location holds behind all pieces what its owner alone leaves there. -/
theorem foldl_of_owner (h : Owned get owner piece) {l : List ι} (hnodup : l.Nodup) (s : σ) {i : ι}
    (hi : i ∈ l) {x : L} (hx : owner i x) : get (l.foldl piece s) x = get (piece s i) x := by
  induction l generalizing s with
  | nil => exact absurd hi List.not_mem_nil
  | cons j l ih =>
    obtain ⟨hj, hnodup⟩ := List.nodup_cons.1 hnodup
    rw [List.foldl_cons]
    rcases List.mem_cons.1 hi with rfl | hi
    · refine h.foldl_frame l _ fun k hk howner => hj ?_
      rwa [h.unique i k x hx howner]
    · rw [ih hnodup (piece s j) hi]
      -- the first piece left alone what the owner reads
      refine h.reads _ _ i (fun y hy => h.frame s j y fun howner => ?_) x hx
      rcases hy with hown | hnobody
      · exact hj (h.unique j i y howner hown ▸ hi)
      · exact hnobody j howner

end Owned

/-- Pieces that list what they own list everything once. -/
theorem flatMap_perm_of_owner {pieces : List ι} {list : ι → List L} {all : List L}
    (hpieces : pieces.Nodup) (hlist : ∀ i ∈ pieces, (list i).Nodup) (hall : all.Nodup)
    (hunique : ∀ i ∈ pieces, ∀ j ∈ pieces, ∀ x, x ∈ list i → x ∈ list j → i = j)
    (hmem : ∀ x, x ∈ all ↔ ∃ i ∈ pieces, x ∈ list i) : (pieces.flatMap list).Perm all := by
  refine (List.perm_ext_iff_of_nodup ?_ hall).2 fun x => by rw [List.mem_flatMap, hmem]
  refine List.nodup_flatMap.2 ⟨hlist, hpieces.imp_of_mem fun {i j} hi hj hne x hxi hxj => ?_⟩
  exact hne (hunique i hi j hj x hxi hxj)

namespace Tiles

open List (range mem_map nodup_range)

variable {size : ℕ}

theorem item_div {row col : ℕ} (hcol : col < size) : (row * size + col) / size = row := by
  rw [Nat.add_comm, Nat.add_mul_div_right _ _ (by omega), Nat.div_eq_of_lt hcol, Nat.zero_add]

theorem item_mod {row col : ℕ} (hcol : col < size) : (row * size + col) % size = col := by
  rw [Nat.add_comm, Nat.add_mul_mod_self_right, Nat.mod_eq_of_lt hcol]

theorem item_lt {rows row col : ℕ} (hrow : row < rows) (hcol : col < size) :
    row * size + col < rows * size := by
  have hle : (row + 1) * size ≤ rows * size := Nat.mul_le_mul_right _ hrow
  rw [Nat.add_mul, Nat.one_mul] at hle
  omega

theorem item_eq {a b : ℕ} (hdiv : a / size = b / size) (hmod : a % size = b % size) : a = b := by
  rw [← Nat.div_add_mod a size, ← Nat.div_add_mod b size, hdiv, hmod]

theorem item_inj {p q r s : ℕ} (hr : r < size) (hs : s < size) (h : p * size + r = q * size + s) :
    p = q := by
  have hp : (p * size + r) / size = p := item_div hr
  rw [← hp, h, item_div hs]

theorem div_lt_pieces {length i : ℕ} (hsize : 0 < size) (hi : i < length) :
    i / size < (length + size - 1) / size := by
  rw [Nat.lt_div_iff_mul_lt hsize]
  have hle := Nat.div_mul_le_self i size
  omega

/-- A matrix of `m` rows and `n` columns, in tiles of `br` rows and `bc` columns. -/
structure Tiling where
  m : ℕ
  n : ℕ
  br : ℕ
  bc : ℕ
  br_pos : 0 < br
  bc_pos : 0 < bc

namespace Tiling

variable (t : Tiling)

def gridM : ℕ := (t.m + t.br - 1) / t.br

def gridN : ℕ := (t.n + t.bc - 1) / t.bc

/-- The blocks are numbered along the rows first. -/
def row (block elem : ℕ) : ℕ := block % t.gridM * t.br + elem / t.bc

def col (block elem : ℕ) : ℕ := block / t.gridM * t.bc + elem % t.bc

/-- What is not over the edge. -/
def Valid (block elem : ℕ) : Prop := t.row block elem < t.m ∧ t.col block elem < t.n

instance (block elem : ℕ) : Decidable (t.Valid block elem) := inferInstanceAs (Decidable (_ ∧ _))

/-- The block of an element, and what it is in the tile. -/
def blockOf (i j : ℕ) : ℕ := j / t.bc * t.gridM + i / t.br

def elemOf (i j : ℕ) : ℕ := i % t.br * t.bc + j % t.bc

variable {t} {i : ℕ}

theorem gridM_pos (hi : i < t.m) : i / t.br < t.gridM := div_lt_pieces t.br_pos hi

theorem mod_lt_bc (j : ℕ) : j % t.bc < t.bc := Nat.mod_lt j t.bc_pos

theorem div_lt_br {elem : ℕ} (h : elem < t.br * t.bc) : elem / t.bc < t.br :=
  Nat.div_lt_of_lt_mul (by rwa [Nat.mul_comm])

theorem blockOf_lt {j : ℕ} (hi : i < t.m) (hj : j < t.n) : t.blockOf i j < t.gridM * t.gridN := by
  rw [Nat.mul_comm]
  exact item_lt (div_lt_pieces t.bc_pos hj) (gridM_pos hi)

theorem elemOf_lt (i j : ℕ) : t.elemOf i j < t.br * t.bc :=
  item_lt (Nat.mod_lt i t.br_pos) (mod_lt_bc j)

theorem row_elemOf (hi : i < t.m) (j : ℕ) : t.row (t.blockOf i j) (t.elemOf i j) = i := by
  unfold row blockOf elemOf
  rw [item_mod (gridM_pos hi), item_div (mod_lt_bc j), Nat.mul_comm]
  exact Nat.div_add_mod i t.br

theorem col_elemOf (hi : i < t.m) (j : ℕ) : t.col (t.blockOf i j) (t.elemOf i j) = j := by
  unfold col blockOf elemOf
  rw [item_div (gridM_pos hi), item_mod (mod_lt_bc j), Nat.mul_comm]
  exact Nat.div_add_mod j t.bc

theorem valid_elemOf {j : ℕ} (hi : i < t.m) (hj : j < t.n) :
    t.Valid (t.blockOf i j) (t.elemOf i j) := by
  unfold Valid
  rw [row_elemOf hi, col_elemOf hi]
  exact ⟨hi, hj⟩

variable {block : ℕ}

/-- **An element is in one block.** -/
theorem block_eq {block' a b : ℕ} (ha : a < t.br * t.bc) (hb : b < t.br * t.bc)
    (hrow : t.row block a = t.row block' b) (hcol : t.col block a = t.col block' b) :
    block = block' :=
  item_eq (item_inj (mod_lt_bc _) (mod_lt_bc _) hcol) (item_inj (div_lt_br ha) (div_lt_br hb) hrow)

theorem elem_eq {a b : ℕ} (hrow : t.row block a = t.row block b)
    (hcol : t.col block a = t.col block b) : a = b := by
  unfold row at hrow
  unfold col at hcol
  have hdiv : a / t.bc = b / t.bc := by omega
  have hmod : a % t.bc = b % t.bc := by omega
  exact item_eq hdiv hmod

/-- The elements of a tile. -/
def validElems (t : Tiling) (block : ℕ) : List ℕ :=
  (range (t.br * t.bc)).filter fun elem => t.Valid block elem

theorem mem_validElems {elem : ℕ} :
    elem ∈ t.validElems block ↔ elem < t.br * t.bc ∧ t.Valid block elem := by
  simp [validElems]

section places
variable {A : Type} {place : ℕ → ℕ → A}

theorem mem_places {a : A} :
    a ∈ (range t.m).flatMap (fun i => (range t.n).map (place i)) ↔
      ∃ i < t.m, ∃ j < t.n, a = place i j := by
  simp only [List.mem_flatMap, mem_map, List.mem_range, eq_comm]

theorem nodup_places (hplace : ∀ i j i' j', place i j = place i' j' → i = i' ∧ j = j') :
    ((range t.m).flatMap fun i => (range t.n).map (place i)).Nodup := by
  refine List.nodup_flatMap.2 ⟨fun i _ => ?_, ?_⟩
  · exact nodup_range.map fun j j' h => (hplace i j i j' h).2
  · refine nodup_range.imp fun {i i'} hne a ha ha' => ?_
    obtain ⟨j, -, rfl⟩ := mem_map.1 ha
    obtain ⟨j', -, heq⟩ := mem_map.1 ha'
    exact hne (hplace i' j' i j heq).1.symm

/-- The tiles list each element once. -/
theorem places_perm (hplace : ∀ i j i' j', place i j = place i' j' → i = i' ∧ j = j') :
    ((List.finRange (t.gridM * t.gridN)).flatMap fun block : Fin (t.gridM * t.gridN) =>
      (t.validElems block).map fun elem => place (t.row block elem) (t.col block elem)).Perm
    ((range t.m).flatMap fun i => (range t.n).map (place i)) := by
  refine flatMap_perm_of_owner (List.nodup_finRange _) (fun block _ => ?_) (nodup_places hplace)
    ?_ fun a => ?_
  · refine (nodup_range.filter _).map fun a b hab => ?_
    obtain ⟨hrow, hcol⟩ := hplace _ _ _ _ hab
    exact elem_eq hrow hcol
  · intro block _ block' _ a ha ha'
    obtain ⟨p, hp, rfl⟩ := mem_map.1 ha
    obtain ⟨q, hq, heq⟩ := mem_map.1 ha'
    obtain ⟨hrow, hcol⟩ := hplace _ _ _ _ heq
    exact Fin.ext (block_eq (mem_validElems.1 hp).1 (mem_validElems.1 hq).1 hrow.symm hcol.symm)
  · rw [mem_places]
    constructor
    · rintro ⟨i, hi, j, hj, rfl⟩
      refine ⟨⟨_, blockOf_lt hi hj⟩, List.mem_finRange _, mem_map.2 ⟨t.elemOf i j, ?_, ?_⟩⟩
      · exact mem_validElems.2 ⟨elemOf_lt i j, valid_elemOf hi hj⟩
      · rw [row_elemOf hi, col_elemOf hi]
    · rintro ⟨block, -, ha⟩
      obtain ⟨p, hp, rfl⟩ := mem_map.1 ha
      obtain ⟨-, hrow, hcol⟩ := mem_validElems.1 hp
      exact ⟨_, hrow, _, hcol, rfl⟩

end places

end Tiling

end Tiles
