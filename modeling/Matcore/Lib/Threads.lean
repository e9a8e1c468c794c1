import Matcore.Lib.Regions

/-!
# Threads over a shared memory

Threads that run programs with regions, one operation at a time and in the order of a schedule.
-/

namespace Threads

open Regions (Ops)

variable {L L' R R' O O' S S' : Type*}

/-- An operation acts on what the thread owns and on the memory. Which block is entered depends on
the thread alone. -/
structure Kernel (L R O S : Type*) where
  leaf : L → O → S → O × S
  control : R → (n : ℕ) → O → Option (Fin n) × O

/-- What a thread has still to run, the innermost block first. -/
structure Thread (L R O : Type*) where
  stack : List (Ops L R)
  own : O

namespace Kernel

variable (K : Kernel L R O S)

def step : Thread L R O → S → Thread L R O × S
  | ⟨[], o⟩, s => (⟨[], o⟩, s)
  | ⟨.nil :: stack, o⟩, s => (⟨stack, o⟩, s)
  | ⟨.leaf op rest :: stack, o⟩, s => (⟨rest :: stack, (K.leaf op o s).1⟩, (K.leaf op o s).2)
  | ⟨.region op n blocks rest :: stack, o⟩, s => match K.control op n o with
    | (none, o') => (⟨rest :: stack, o'⟩, s)
    | (some i, o') => (⟨blocks i :: .region op n blocks rest :: stack, o'⟩, s)

def run : List ℕ → (ℕ → Thread L R O) → S → (ℕ → Thread L R O) × S
  | [], threads, s => (threads, s)
  | i :: schedule, threads, s =>
    run schedule (Function.update threads i (K.step (threads i) s).1) (K.step (threads i) s).2

end Kernel

/-- The operations of two kernels agree, as long as the first one is left in a good state. -/
structure Simulates (K : Kernel L R O S) (N : Kernel L' R' O' S') (f : L → L') (g : R → R')
    (Own : O → O' → Prop) (Rel : S → S' → Prop) (Good : S → Prop) : Prop where
  leaf : ∀ op o o' s s', Own o o' → Rel s s' → Good (K.leaf op o s).2 →
    Own (K.leaf op o s).1 (N.leaf (f op) o' s').1 ∧ Rel (K.leaf op o s).2 (N.leaf (f op) o' s').2
  control : ∀ op n o o', Own o o' → (K.control op n o).1 = (N.control (g op) n o').1 ∧
    Own (K.control op n o).2 (N.control (g op) n o').2
  good : ∀ op o s, Good (K.leaf op o s).2 → Good s

variable {K : Kernel L R O S} {N : Kernel L' R' O' S'} {f : L → L'} {g : R → R'}
  {Own : O → O' → Prop} {Rel : S → S' → Prop} {Good : S → Prop}

/-- Both threads have the same to run. -/
structure Matches (f : L → L') (g : R → R') (Own : O → O' → Prop) (t : Thread L R O)
    (t' : Thread L' R' O') : Prop where
  stack : t'.stack = t.stack.map (Ops.map f g)
  own : Own t.own t'.own

variable {t : Thread L R O} {s : S}

theorem Simulates.good_step (h : Simulates K N f g Own Rel Good) (hgood : Good (K.step t s).2) :
    Good s := by
  obtain ⟨stack, o⟩ := t
  match stack with
  | [] => exact hgood
  | .nil :: _ => exact hgood
  | .leaf op _ :: _ => exact h.good _ _ _ hgood
  | .region op n blocks rest :: _ =>
    rw [Kernel.step] at hgood
    split at hgood <;> exact hgood

variable {schedule : List ℕ} {threads : ℕ → Thread L R O}

theorem Simulates.good_run (h : Simulates K N f g Own Rel Good)
    (hgood : Good (K.run schedule threads s).2) : Good s := by
  induction schedule generalizing threads s with
  | nil => exact hgood
  | cons i schedule ih => exact h.good_step (ih hgood)

variable {s' : S'}

theorem Simulates.step (h : Simulates K N f g Own Rel Good) {t' : Thread L' R' O'}
    (hmatch : Matches f g Own t t') (hrel : Rel s s') (hgood : Good (K.step t s).2) :
    Matches f g Own (K.step t s).1 (N.step t' s').1 ∧ Rel (K.step t s).2 (N.step t' s').2 := by
  obtain ⟨stack, o⟩ := t
  obtain ⟨stack', o'⟩ := t'
  obtain ⟨rfl, hown⟩ := hmatch
  match stack with
  | [] => exact ⟨⟨rfl, hown⟩, hrel⟩
  | .nil :: _ => exact ⟨⟨rfl, hown⟩, hrel⟩
  | .leaf op rest :: _ =>
    obtain ⟨hown', hrel'⟩ := h.leaf op o o' s s' hown hrel hgood
    exact ⟨⟨rfl, hown'⟩, hrel'⟩
  | .region op n blocks rest :: stack =>
    obtain ⟨hsame, hown'⟩ := h.control op n o o' hown
    simp only [List.map_cons, Ops.map, Kernel.step]
    generalize K.control op n o = c at hsame hown' ⊢
    generalize N.control (g op) n o' = c' at hsame hown' ⊢
    obtain ⟨choice, o₁⟩ := c
    obtain ⟨choice', o₁'⟩ := c'
    obtain rfl : choice = choice' := hsame
    cases choice with
    | none => exact ⟨⟨rfl, hown'⟩, hrel⟩
    | some i => exact ⟨⟨rfl, hown'⟩, hrel⟩

/-- **Related memories stay related under every schedule.** -/
theorem Simulates.run (h : Simulates K N f g Own Rel Good) {threads' : ℕ → Thread L' R' O'}
    (hmatch : ∀ i, Matches f g Own (threads i) (threads' i)) (hrel : Rel s s')
    (hgood : Good (K.run schedule threads s).2) :
    Rel (K.run schedule threads s).2 (N.run schedule threads' s').2 := by
  induction schedule generalizing threads threads' s s' with
  | nil => exact hrel
  | cons i schedule ih =>
    obtain ⟨hnext, hrel'⟩ := h.step (hmatch i) hrel (h.good_run hgood)
    refine ih (fun j => ?_) hrel' hgood
    by_cases hj : j = i
    · subst hj
      simp only [Function.update_self]
      exact hnext
    · simp only [Function.update_of_ne hj]
      exact hmatch j

end Threads
