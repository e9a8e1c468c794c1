import Matcore.Lib.LoopNest
import Matcore.Lib.Ownership

/-!
# The plain kernels

`reference_gemm`, `tiled_gemm` and `compiler_vectorized_gemm` of `cpu_planner.h`. A dimension that is
not positive makes its loops empty, as 0 does.
-/

namespace Matcore.Planner

open Function (update update_self)
open List (range)

variable {F : Type}

/-- The operations on floats. Nothing is known of them. -/
structure Floats (F : Type) where
  zero : F
  add : F → F → F
  mul : F → F → F

/-- `for (x = lo; x < hi; ++x)`. -/
def loop (lo hi : ℕ) : List ℕ := List.range' lo (hi - lo)

section

variable (f : Floats F) (m n k : ℕ) (lhs rhs : ℕ → F)

def referenceGemm (out : ℕ → F) : ℕ → F :=
  (loop 0 m).foldl (fun out i => (loop 0 n).foldl (fun out j =>
    update out (i * n + j) ((loop 0 k).foldl
      (fun sum p => f.add sum (f.mul (lhs (i * k + p)) (rhs (p * n + j)))) f.zero)) out) out

/-- `out[i * n + j] = 0.0F` for every element. -/
def zeroed (out : ℕ → F) : ℕ → F :=
  (loop 0 m).foldl (fun out i => (loop 0 n).foldl (fun out j =>
    update out (i * n + j) f.zero) out) out

/-- `out[i * n + j] += a * rhs[p * n + j]`, where `a` is `lhs[i * k + p]`. -/
def accumulate (i p j : ℕ) (out : ℕ → F) : ℕ → F :=
  update out (i * n + j) (f.add (out (i * n + j)) (f.mul (lhs (i * k + p)) (rhs (p * n + j))))

/-- `x + tile < bound ? x + tile : bound`. -/
def tileEnd (x tile bound : ℕ) : ℕ := if x + tile < bound then x + tile else bound

/-- The loops of `tiled_gemm` behind the zeros. -/
def accumulateTiles (out : ℕ → F) : ℕ → F :=
  let tileM := 32
  let tileN := 32
  let tileK := 64
  (Loop.strides m tileM).foldl (fun out ii =>
    (Loop.strides k tileK).foldl (fun out pp =>
      (Loop.strides n tileN).foldl (fun out jj =>
        (loop ii (tileEnd ii tileM m)).foldl (fun out i =>
          (loop pp (tileEnd pp tileK k)).foldl (fun out p =>
            (loop jj (tileEnd jj tileN n)).foldl (fun out j =>
              accumulate f n k lhs rhs i p j out) out) out) out) out) out) out

def tiledGemm (out : ℕ → F) : ℕ → F := accumulateTiles f m n k lhs rhs (zeroed f m n out)

/-- The loops of `compiler_vectorized_gemm` behind the zeros. -/
def accumulateRows (out : ℕ → F) : ℕ → F :=
  (loop 0 m).foldl (fun out i => (loop 0 k).foldl (fun out p => (loop 0 n).foldl (fun out j =>
    accumulate f n k lhs rhs i p j out) out) out) out

def compilerVectorizedGemm (out : ℕ → F) : ℕ → F :=
  accumulateRows f m n k lhs rhs (zeroed f m n out)

end

/-- What code does to the element `c`, whatever the others hold. -/
def Acts (c : ℕ) (code : (ℕ → F) → ℕ → F) (g : F → F) : Prop := ∀ out, code out c = g (out c)

namespace Acts

variable {c : ℕ} {l : List ℕ} {step : (ℕ → F) → ℕ → ℕ → F} {g : F → F}

theorem foldl {g : F → ℕ → F} (h : ∀ x ∈ l, Acts c (step · x) (g · x)) :
    Acts c (fun out => l.foldl step out) (fun v => l.foldl g v) := by
  intro out
  induction l generalizing out with
  | nil => rfl
  | cons x l ih =>
    refine (ih (fun y hy => h y (List.mem_cons_of_mem _ hy)) (step out x)).trans ?_
    exact congrArg (fun v => l.foldl g v) (h x List.mem_cons_self out)

theorem skip (h : ∀ x ∈ l, Acts c (step · x) id) : Acts c (fun out => l.foldl step out) id := by
  intro out
  exact (foldl (g := fun v _ => v) h out).trans (List.foldl_fixed l)

/-- A loop that reaches the element in one iteration. -/
theorem once {x : ℕ} (hx : x ∈ l) (hl : l.Nodup) (hg : Acts c (step · x) g)
    (hother : ∀ y ∈ l, y ≠ x → Acts c (step · y) id) : Acts c (fun out => l.foldl step out) g := by
  intro out
  obtain ⟨before, behind, rfl⟩ := List.append_of_mem hx
  have hl := List.nodup_middle.1 hl
  rw [List.nodup_cons, List.mem_append, not_or] at hl
  have hb : Acts c (fun out => before.foldl step out) id := skip fun y hy =>
    hother y (List.mem_append_left _ hy) fun h => hl.1.1 (h ▸ hy)
  have ha : Acts c (fun out => behind.foldl step out) id := skip fun y hy =>
    hother y (List.mem_append_right _ (List.mem_cons_of_mem _ hy)) fun h => hl.1.2 (h ▸ hy)
  dsimp only
  rw [List.foldl_append, List.foldl_cons]
  exact (ha _).trans ((hg _).trans (congrArg g (hb out)))

theorem stored {v : F → F} : Acts c (fun out => update out c (v (out c))) v :=
  fun out => update_self c _ out

theorem other {c' : ℕ} (h : c' ≠ c) {v : (ℕ → F) → F} : Acts c (fun out => update out c' (v out)) id :=
  fun _ => Function.update_of_ne h.symm _ _

end Acts

section

variable {lo hi x tile bound : ℕ}

theorem mem_loop : x ∈ loop lo hi ↔ lo ≤ x ∧ x < hi := by
  unfold loop
  rw [List.mem_range'_1]
  omega

theorem nodup_loop : (loop lo hi).Nodup := List.nodup_range'

theorem tileEnd_eq : tileEnd x tile bound = min (x + tile) bound := by
  unfold tileEnd
  split <;> omega

theorem nodup_strides (ht : 0 < tile) : (Loop.strides bound tile).Nodup :=
  List.nodup_range.map fun _ _ h => Nat.eq_of_mul_eq_mul_right ht h

/-- An index is in the tile that it divides into, and in no other. -/
theorem mem_tile (ht : 0 < tile) (hx : x < bound) {t : ℕ} (hm : t ∈ Loop.strides bound tile) :
    x ∈ loop t (tileEnd t tile bound) ↔ t = x / tile * tile := by
  obtain ⟨⟨q, rfl⟩, -⟩ := (Loop.mem_strides ht).1 hm
  rw [mem_loop, tileEnd_eq, Nat.mul_comm tile q]
  have hdiv := Nat.div_add_mod x tile
  have hmod := Nat.mod_lt x ht
  rw [Nat.mul_comm] at hdiv
  constructor
  · intro h
    have hq : x / tile = q := Nat.div_eq_of_lt_le h.1 (by rw [Nat.succ_mul]; omega)
    rw [hq]
  · intro h
    omega

theorem tile_mem (ht : 0 < tile) (hx : x < bound) :
    x / tile * tile ∈ Loop.strides bound tile :=
  (Loop.mem_strides ht).2 ⟨Nat.dvd_mul_left _ _, (Nat.div_mul_le_self _ _).trans_lt hx⟩

/-- The tiles one behind the other are the whole loop. -/
theorem flatMap_tiles (ht : 0 < tile) (bound : ℕ) :
    ((Loop.strides bound tile).flatMap fun t => loop t (tileEnd t tile bound)) = loop 0 bound := by
  have key : ∀ c, ((range c).flatMap fun q => loop (q * tile) (tileEnd (q * tile) tile bound)) =
      loop 0 (min (c * tile) bound) := by
    intro c
    induction c with
    | zero => simp [loop]
    | succ c ih =>
      rw [List.range_succ, List.flatMap_append, ih, List.flatMap_singleton, tileEnd_eq, Nat.succ_mul]
      unfold loop
      by_cases h : c * tile ≤ bound
      · rw [Nat.min_eq_left h, Nat.sub_zero, Nat.sub_zero]
        have := List.range'_append_1 (s := 0) (m := c * tile)
          (n := min (c * tile + tile) bound - c * tile)
        rw [Nat.zero_add] at this
        rw [this]
        congr 1
        omega
      · rw [show min (c * tile + tile) bound - c * tile = 0 by omega, List.range'_zero,
          List.append_nil]
        congr 1
        omega
  unfold Loop.strides
  rw [List.flatMap_map]
  refine (key _).trans ?_
  congr 1
  have := Nat.div_add_mod (bound + tile - 1) tile
  have := Nat.mod_lt (bound + tile - 1) ht
  rw [Nat.mul_comm]
  omega

end

variable {f : Floats F} {m n k : ℕ} {lhs rhs : ℕ → F} {i₀ j₀ : ℕ}

theorem element_ne {i j : ℕ} (hj : j < n) (hj₀ : j₀ < n) (h : ¬ (i = i₀ ∧ j = j₀)) :
    i * n + j ≠ i₀ * n + j₀ := by
  intro heq
  obtain rfl := Tiles.item_inj hj hj₀ heq
  exact h ⟨rfl, Nat.add_left_cancel heq⟩

/-- A nest that stores every element reaches each once. -/
theorem acts_stores (hi₀ : i₀ < m) (hj₀ : j₀ < n) {v : ℕ → ℕ → F} :
    Acts (i₀ * n + j₀) (fun out => (loop 0 m).foldl (fun out i => (loop 0 n).foldl (fun out j =>
      update out (i * n + j) (v i j)) out) out) fun _ => v i₀ j₀ := by
  refine .once (mem_loop.2 ⟨Nat.zero_le _, hi₀⟩) nodup_loop ?_ fun i _ hi => .skip fun j hj =>
    .other (element_ne (mem_loop.1 hj).2 hj₀ fun h => hi h.1)
  exact .once (mem_loop.2 ⟨Nat.zero_le _, hj₀⟩) nodup_loop (.stored (v := fun _ => v i₀ j₀))
    fun j hj hne => .other (element_ne (mem_loop.1 hj).2 hj₀ fun h => hne h.2)

variable {columns : List ℕ}

variable (f k lhs rhs j₀) in
/-- What one step of the inner product adds. -/
def gain (n i : ℕ) (v : F) (p : ℕ) : F :=
  f.add v (f.mul (lhs (i * k + p)) (rhs (p * n + j₀)))

theorem acts_columns (hc : columns.Nodup) (hlt : ∀ j ∈ columns, j < n) (hj₀ : j₀ ∈ columns) (p : ℕ) :
    Acts (i₀ * n + j₀) (fun out => columns.foldl (fun out j => accumulate f n k lhs rhs i₀ p j out) out)
      (gain f k lhs rhs j₀ n i₀ · p) :=
  .once hj₀ hc (.stored (v := (gain f k lhs rhs j₀ n i₀ · p))) fun j hj hne =>
    .other (element_ne (hlt j hj) (hlt j₀ hj₀) fun h => hne h.2)

theorem acts_columns_skip (hlt : ∀ j ∈ columns, j < n) (hj₀ : j₀ < n) {i : ℕ}
    (h : ¬ (i = i₀ ∧ j₀ ∈ columns)) (p : ℕ) :
    Acts (i₀ * n + j₀) (fun out => columns.foldl (fun out j => accumulate f n k lhs rhs i p j out) out)
      id :=
  .skip fun j hj => .other (element_ne (hlt j hj) hj₀ fun he => h ⟨he.1, he.2 ▸ hj⟩)

theorem acts_rows (hi₀ : i₀ < m) (hj₀ : j₀ < n) : Acts (i₀ * n + j₀) (accumulateRows f m n k lhs rhs)
    fun v => (loop 0 k).foldl (gain f k lhs rhs j₀ n i₀) v := by
  have hlt : ∀ j ∈ loop 0 n, j < n := fun j hj => (mem_loop.1 hj).2
  refine .once (mem_loop.2 ⟨Nat.zero_le _, hi₀⟩) nodup_loop ?_ fun i _ hi => .skip fun p _ =>
    acts_columns_skip hlt hj₀ (fun he => hi he.1) p
  exact .foldl fun p _ => acts_columns nodup_loop hlt (mem_loop.2 ⟨Nat.zero_le _, hj₀⟩) p

/-- The element is in one tile of rows and in one of columns, and gains from every tile of the inner
product in turn. -/
theorem acts_tiles (hi₀ : i₀ < m) (hj₀ : j₀ < n) :
    Acts (i₀ * n + j₀) (accumulateTiles f m n k lhs rhs)
      fun v => (loop 0 k).foldl (gain f k lhs rhs j₀ n i₀) v := by
  have hlt : ∀ jj, ∀ j ∈ loop jj (tileEnd jj 32 n), j < n := by
    intro jj j hj
    have := (mem_loop.1 hj).2
    rw [tileEnd_eq] at this
    omega
  have htiles : (fun v => (loop 0 k).foldl (gain f k lhs rhs j₀ n i₀) v) = fun v =>
      (Loop.strides k 64).foldl
        (fun v pp => (loop pp (tileEnd pp 64 k)).foldl (gain f k lhs rhs j₀ n i₀) v) v := by
    funext v
    rw [← flatMap_tiles (show 0 < 64 by decide) k, List.foldl_flatMap]
  rw [htiles]
  refine .once (tile_mem (by decide) hi₀) (nodup_strides (by decide)) ?_
    fun ii hii hne => .skip fun pp _ => .skip fun jj _ => .skip fun i hi => .skip fun p _ =>
      acts_columns_skip (hlt jj) hj₀ (fun he => hne ?_) p
  · refine .foldl fun pp _ => .once (tile_mem (by decide) hj₀) (nodup_strides (by decide)) ?_
      fun jj hjj hne => .skip fun i _ => .skip fun p _ =>
        acts_columns_skip (hlt jj) hj₀ (fun he => hne ((mem_tile (by decide) hj₀ hjj).1 he.2)) p
    refine .once ((mem_tile (by decide) hi₀ (tile_mem (by decide) hi₀)).2 rfl) nodup_loop ?_
      fun i _ hne => .skip fun p _ => acts_columns_skip (hlt _) hj₀ (fun he => hne he.1) p
    exact .foldl fun p _ => acts_columns nodup_loop (hlt _)
      ((mem_tile (by decide) hj₀ (tile_mem (by decide) hj₀)).2 rfl) p
  · exact (mem_tile (by decide) hi₀ hii).1 (he.1 ▸ hi)

/-- **The tiled and the vectorized kernel** leave in each element the expression of the reference. -/
theorem plain_kernels_agree (f : Floats F) (m n k : ℕ) (lhs rhs out : ℕ → F) {i j : ℕ} (hi : i < m)
    (hj : j < n) :
    tiledGemm f m n k lhs rhs out (i * n + j) = referenceGemm f m n k lhs rhs out (i * n + j) ∧
      compilerVectorizedGemm f m n k lhs rhs out (i * n + j) =
        referenceGemm f m n k lhs rhs out (i * n + j) := by
  have hz : zeroed f m n out (i * n + j) = f.zero := acts_stores (v := fun _ _ => f.zero) hi hj out
  have href : referenceGemm f m n k lhs rhs out (i * n + j) =
      (loop 0 k).foldl (gain f k lhs rhs j n i) f.zero :=
    acts_stores (v := fun i j => (loop 0 k).foldl (gain f k lhs rhs j n i) f.zero) hi hj out
  rw [href, ← hz]
  exact ⟨acts_tiles hi hj _, acts_rows hi hj _⟩

/-- In the last row, behind a tile of rows and one of the inner product, with a subtraction for the
sum. -/
theorem plain_kernels_agree_33x1 :
    let f : Floats ℤ := ⟨0, (· - ·), (· * ·)⟩
    let element (gemm : Floats ℤ → ℕ → ℕ → ℕ → (ℕ → ℤ) → (ℕ → ℤ) → (ℕ → ℤ) → ℕ → ℤ) :=
      gemm f 33 1 65 (fun x => x) (fun x => x + 1) (fun _ => 7) (32 * 1 + 0)
    element tiledGemm = element referenceGemm ∧
      element compilerVectorizedGemm = element referenceGemm :=
  plain_kernels_agree _ 33 1 65 _ _ _ (by decide) (by decide)

end Matcore.Planner
