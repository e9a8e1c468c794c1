import Mathlib.Data.Finset.Card
import Mathlib.Tactic.Ring

/-!
# Contiguous shares and counts

`start g t i` is where share `i` begins when `g` items are dealt into `t` contiguous shares, the
first `g % t` of them one larger, and `size g t i` is its length.

`below n p` is the number of indices below `n` with the property `p`.
-/

namespace Share

def start (g t i : ℕ) : ℕ := i * (g / t) + min i (g % t)

def size (g t i : ℕ) : ℕ := g / t + if i < g % t then 1 else 0

variable {g t i j : ℕ}

@[simp] theorem start_zero : start g t 0 = 0 := by simp [start]

theorem start_succ : start g t (i + 1) = start g t i + size g t i := by
  unfold start size
  rw [Nat.succ_mul]
  split <;> omega

/-- The shares end where the items end. -/
theorem start_all (ht : 0 < t) : start g t t = g := by
  have hmod := Nat.mod_lt g ht
  unfold start
  rw [Nat.min_eq_right hmod.le]
  exact Nat.div_add_mod g t

theorem start_mono : Monotone (start g t) :=
  monotone_nat_of_le_succ fun i => by rw [start_succ]; exact Nat.le_add_right _ _

theorem size_pos (ht : 0 < t) (h : t ≤ g) : 0 < size g t i :=
  Nat.add_pos_left (Nat.div_pos h ht) _

theorem start_lt (ht : 0 < t) (h : t ≤ g) (hi : i < t) : start g t i < g :=
  calc start g t i < start g t (i + 1) := by
        rw [start_succ]; exact Nat.lt_add_of_pos_right (size_pos ht h)
    _ ≤ start g t t := start_mono hi
    _ = g := start_all ht

/-- The steps of a monotone function cover its range once. -/
theorem exists_unique_step {f : ℕ → ℕ} (hf : Monotone f) (h0 : f 0 = 0) {x : ℕ} (hx : x < f t) :
    ∃! i, i < t ∧ f i ≤ x ∧ x < f (i + 1) := by
  induction t with
  | zero => omega
  | succ t ih =>
    have unique : ∀ i j, f i ≤ x → x < f (i + 1) → f j ≤ x → x < f (j + 1) → i ≤ j := by
      intro i j hi _ _ hj
      by_contra hlt
      have : f (j + 1) ≤ f i := hf (Nat.succ_le_of_lt (Nat.lt_of_not_le hlt))
      omega
    by_cases hlt : x < f t
    · obtain ⟨i, ⟨hi, h₁, h₂⟩, -⟩ := ih hlt
      exact ⟨i, ⟨hi.trans (Nat.lt_succ_self t), h₁, h₂⟩, fun j ⟨_, h₃, h₄⟩ =>
        le_antisymm (unique j i h₃ h₄ h₁ h₂) (unique i j h₁ h₂ h₃ h₄)⟩
    · exact ⟨t, ⟨Nat.lt_succ_self t, Nat.le_of_not_lt hlt, hx⟩, fun j ⟨_, h₃, h₄⟩ =>
        le_antisymm (unique j t h₃ h₄ (Nat.le_of_not_lt hlt) hx)
          (unique t j (Nat.le_of_not_lt hlt) hx h₃ h₄)⟩

end Share

namespace Count

variable {n w : ℕ} {p q : ℕ → Prop} [DecidablePred p] [DecidablePred q]

/-- The number of indices below `n` with `p`. -/
def below (n : ℕ) (p : ℕ → Prop) [DecidablePred p] : ℕ := ((Finset.range n).filter p).card

theorem below_congr (h : ∀ x < n, p x ↔ q x) : below n p = below n q := by
  unfold below
  rw [Finset.filter_congr fun x hx => h x (Finset.mem_range.1 hx)]

theorem below_eq_iff : below n p = n ↔ ∀ x < n, p x := by
  unfold below
  constructor
  · intro h x hx
    have hcard : ((Finset.range n).filter p).card = (Finset.range n).card := by
      rw [h, Finset.card_range]
    exact Finset.card_filter_eq_iff.1 hcard x (Finset.mem_range.2 hx)
  · intro h
    rw [Finset.filter_true_of_mem fun x hx => h x (Finset.mem_range.1 hx), Finset.card_range]

theorem below_eq_zero (h : ∀ x < n, ¬ p x) : below n p = 0 := by
  unfold below
  rw [Finset.filter_false_of_mem fun x hx => h x (Finset.mem_range.1 hx), Finset.card_empty]

theorem below_gain (hw : w < n) (hp : ¬ p w) (hq : q w) (h : ∀ x, x ≠ w → (q x ↔ p x)) :
    below n q = below n p + 1 := by
  unfold below
  have hins : (Finset.range n).filter q = insert w ((Finset.range n).filter p) := by
    ext x
    by_cases hx : x = w
    · subst hx; simp [hw, hq]
    · simp [hx, h x hx]
  rw [hins, Finset.card_insert_of_notMem (by simp [hp])]

end Count
