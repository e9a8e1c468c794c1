import Mathlib.Analysis.Complex.Exponential
import Matcore.Lib.Barriers

/-!
# Numbers with minus infinity

The elements of an ordered field with minus infinity, and an element for what is not defined. The
operations are those of the field and the limits that arithmetic with minus infinity has. A quotient
by zero is not defined.
-/

namespace MinusInfinity

variable {F : Type}

inductive Number (F : Type) where
  | finite (x : F)
  | negInf
  | undefined

namespace Number

def add [Add F] : Number F → Number F → Number F
  | finite x, finite y => finite (x + y)
  | finite _, negInf | negInf, finite _ | negInf, negInf => negInf
  | _, _ => undefined

def sub [Sub F] : Number F → Number F → Number F
  | finite x, finite y => finite (x - y)
  | negInf, finite _ => negInf
  | _, _ => undefined

def mul [Mul F] : Number F → Number F → Number F
  | finite x, finite y => finite (x * y)
  | _, _ => undefined

def div [Div F] [Zero F] [DecidableEq F] : Number F → Number F → Number F
  | finite x, finite y => if y = 0 then undefined else finite (x / y)
  | _, _ => undefined

def maximum [Max F] : Number F → Number F → Number F
  | finite x, finite y => finite (max x y)
  | finite x, negInf | negInf, finite x => finite x
  | negInf, negInf => negInf
  | _, _ => undefined

/-- An exponential, which is zero at minus infinity. -/
def exp [Zero F] (e : F → F) : Number F → Number F
  | finite x => finite (e x)
  | negInf => finite 0
  | undefined => undefined

/-- A function of finite numbers. -/
def map (f : F → F) : Number F → Number F
  | finite x => finite (f x)
  | _ => undefined

section simp
variable (x y : F) (e : F → F)

@[simp] theorem add_finite [Add F] : add (finite x) (finite y) = finite (x + y) := rfl
@[simp] theorem sub_finite [Sub F] : sub (finite x) (finite y) = finite (x - y) := rfl
@[simp] theorem negInf_sub [Sub F] : sub negInf (finite y) = negInf := rfl
@[simp] theorem mul_finite [Mul F] : mul (finite x) (finite y) = finite (x * y) := rfl
@[simp] theorem maximum_finite [Max F] : maximum (finite x) (finite y) = finite (max x y) := rfl
@[simp] theorem maximum_negInf [Max F] : maximum (finite x) negInf = finite x := rfl
@[simp] theorem negInf_maximum [Max F] : maximum negInf (finite x) = finite x := rfl
@[simp] theorem negInf_maximum_negInf [Max F] : maximum (negInf : Number F) negInf = negInf := rfl
@[simp] theorem exp_finite [Zero F] : exp e (finite x) = finite (e x) := rfl
@[simp] theorem exp_negInf [Zero F] : exp e negInf = finite (0 : F) := rfl
@[simp] theorem map_finite : map e (finite x) = finite (e x) := rfl

end simp

theorem div_finite [Div F] [Zero F] [DecidableEq F] (x : F) {y : F} (h : y ≠ 0) :
    div (finite x) (finite y) = finite (x / y) :=
  if_neg h

@[simp] theorem div_zero [Div F] [Zero F] [DecidableEq F] (x : F) :
    div (finite x) (finite 0) = undefined :=
  if_pos rfl

end Number

open Number

variable {ι : Type}

/-- The maximum of numbers of which some are not there, from minus infinity on, is one where some
number is there. -/
theorem foldl_maximum_masked [LinearOrder F] (p : ι → Prop) [DecidablePred p] (f : ι → F)
    {l : List ι} (h : ∃ i ∈ l, p i) :
    ∃ top, (l.foldl (fun acc i => maximum acc (if p i then finite (f i) else negInf)) negInf) =
      finite top := by
  have hgeneral : ∀ (l : List ι) (x : F), ∃ top, (l.foldl (fun acc i =>
      maximum acc (if p i then finite (f i) else negInf)) (finite x)) = finite top := by
    intro l
    induction l with
    | nil => exact fun x => ⟨x, rfl⟩
    | cons i l ih =>
      intro x
      rw [List.foldl_cons]
      by_cases hi : p i
      · rw [if_pos hi, maximum_finite]
        exact ih (max x (f i))
      · rw [if_neg hi, maximum_negInf]
        exact ih x
  induction l with
  | nil => exact absurd h (by simp)
  | cons i l ih =>
    rw [List.foldl_cons]
    by_cases hi : p i
    · rw [if_pos hi, negInf_maximum]
      exact hgeneral l (f i)
    · rw [if_neg hi, negInf_maximum_negInf]
      obtain ⟨j, hj, hpj⟩ := h
      rcases List.mem_cons.1 hj with rfl | hj
      · exact absurd hpj hi
      · exact ih ⟨j, hj, hpj⟩

theorem foldl_add [AddCommMonoid F] (f : ι → F) (l : List ι) (s : F) :
    l.foldl (fun acc i => acc + f i) s = s + (l.map f).sum := by
  induction l generalizing s with
  | nil => rw [List.map_nil, List.sum_nil, add_zero, List.foldl_nil]
  | cons i l ih => rw [List.foldl_cons, ih, List.map_cons, List.sum_cons, add_assoc]

theorem foldl_add_finite [AddCommMonoid F] (f : ι → F) (l : List ι) (s : F) :
    l.foldl (fun acc i => add acc (finite (f i))) (finite s) = finite (s + (l.map f).sum) := by
  rw [← foldl_add]
  exact List.foldl_hom finite fun _ _ => rfl

section sums
open Barriers
variable {A β : Type} [DecidableEq A] {l : List β} {f : β → F} {m : A → Number F}

variable {term : β → Code A (Number F) (Number F)}

theorem gives_sum_from [AddCommMonoid F] (h : ∀ y ∈ l, (term y).Gives m (finite (f y))) (s : F) :
    (fold (fun acc y => (term y).bind fun t => .ret (acc.add t)) l (finite s)).Gives m
      (finite (s + (l.map f).sum)) := by
  have hbody : ∀ (acc : Number F), ∀ y ∈ l, ((term y).bind fun t => .ret (acc.add t)).Gives m
      (acc.add (finite (f y))) :=
    fun acc y hy => (h y hy).bind (Code.gives_ret _ m)
  rw [← foldl_add_finite]
  exact gives_fold id hbody (finite s)

/-- The value of a loop that adds terms up. -/
theorem gives_sum [AddCommMonoid F] (h : ∀ y ∈ l, (term y).Gives m (finite (f y))) :
    (fold (fun acc y => (term y).bind fun t => .ret (acc.add t)) l (finite 0)).Gives m
      (finite (l.map f).sum) := by
  have hsum := gives_sum_from h 0
  rwa [zero_add] at hsum

end sums

structure IsExponential [Field F] (e : F → F) : Prop where
  add : ∀ x y, e (x + y) = e x * e y
  nonzero : e 0 ≠ 0

namespace IsExponential

variable [Field F] {e : F → F} {ι : Type}

section

variable (h : IsExponential e)

include h

theorem ne_zero (x : F) : e x ≠ 0 := by
  intro hx
  refine h.nonzero ?_
  calc e 0 = e (x + -x) := by rw [add_neg_cancel]
    _ = e x * e (-x) := h.add x (-x)
    _ = 0 := by rw [hx, zero_mul]

theorem sub (x c : F) : e (x - c) = e x * e (-c) := by
  rw [← h.add, sub_eq_add_neg]

theorem pos [LinearOrder F] [IsStrictOrderedRing F] (x : F) : 0 < e x := by
  have hhalf : e x = e (x / 2) * e (x / 2) := by rw [← h.add, add_halves]
  rw [hhalf]
  exact mul_self_pos.2 (h.ne_zero (x / 2))

theorem sum_ne_zero [LinearOrder F] [IsStrictOrderedRing F] (f : ι → F)
    {s : Finset ι} (hne : s.Nonempty) : ∑ i ∈ s, e (f i) ≠ 0 :=
  (Finset.sum_pos (fun i _ => h.pos (f i)) hne).ne'

end

end IsExponential

theorem isExponential_exp : IsExponential Real.exp := ⟨Real.exp_add, Real.exp_ne_zero 0⟩

/-- **A shift of all arguments does not change the shares** of an exponential in its sum. -/
theorem share_shift [Field F] {e : F → F} (he : IsExponential e) (s : Finset ι) (f : ι → F) (c : F)
    (i : ι) : e (f i - c) / ∑ j ∈ s, e (f j - c) = e (f i) / ∑ j ∈ s, e (f j) := by
  simp only [he.sub]
  rw [← Finset.sum_mul, mul_div_mul_right _ _ (he.ne_zero (-c))]

end MinusInfinity
