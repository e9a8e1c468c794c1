import Mathlib.Data.List.FinRange

/-!
# Blocks of threads with barriers

Threads of a block read and write a memory one access at a time, in any order, and wait for each
other at barriers. A block is a list of phases with a barrier between each two of them, and the
phase of a thread is code that reads and writes.
-/

namespace Barriers

open Function (update update_of_ne update_self)

variable {A V α β ι : Type}

/-- Code that reads and writes places. -/
inductive Code (A V α : Type) where
  | ret (x : α)
  | read (a : A) (next : V → Code A V α)
  | write (a : A) (v : V) (next : Code A V α)

namespace Code

protected def bind : Code A V α → (α → Code A V β) → Code A V β
  | ret x, f => f x
  | read a next, f => read a fun v => (next v).bind f
  | write a v next, f => write a v (next.bind f)

instance : Monad (Code A V) where
  pure := ret
  bind := Code.bind

end Code

def load (a : A) : Code A V V := .read a .ret

def store (a : A) (v : V) : Code A V Unit := .write a v (.ret ())

/-- A loop that carries a value. -/
def fold (body : α → β → Code A V α) : List β → α → Code A V α
  | [], x => .ret x
  | y :: ys, x => (body x y).bind (fold body ys)

def each (body : β → Code A V Unit) : List β → Code A V Unit
  | [] => .ret ()
  | y :: ys => (body y).bind fun _ => each body ys

inductive Access (A : Type) where
  | read (a : A)
  | write (a : A)

def Access.place : Access A → A
  | read a => a
  | write a => a

/-- The place that is written, if one is. -/
def Access.written : Access A → Option A
  | read _ => none
  | write a => some a

namespace Code

@[simp] theorem bind_eq (c : Code A V α) (f : α → Code A V β) : (c >>= f) = c.bind f := rfl

@[simp] theorem pure_eq (x : α) : (pure x : Code A V α) = ret x := rfl

@[simp] theorem bind_ret (c : Code A V α) : c.bind ret = c := by
  induction c with
  | ret x => rfl
  | read a next ih => exact congrArg (read a) (funext ih)
  | write a v next ih => exact congrArg (write a v) ih

theorem bind_assoc {γ : Type} (c : Code A V α) (f : α → Code A V β) (g : β → Code A V γ) :
    (c.bind f).bind g = c.bind fun x => (f x).bind g := by
  induction c with
  | ret x => rfl
  | read a next ih => exact congrArg (read a) (funext ih)
  | write a v next ih => exact congrArg (write a v) ih

/-- The places that code may read, and those that it may read and write. -/
def Within (R W : Set A) : Code A V α → Prop
  | ret _ => True
  | read a next => (a ∈ R ∨ a ∈ W) ∧ ∀ v, (next v).Within R W
  | write a _ next => a ∈ W ∧ next.Within R W

variable [DecidableEq A]

/-- What code does alone. -/
def run : Code A V α → (A → V) → α × (A → V)
  | ret x, m => (x, m)
  | read a next, m => (next (m a)).run m
  | write a v next, m => next.run (update m a v)

def accesses : Code A V α → (A → V) → List (Access A)
  | ret _, _ => []
  | read a next, m => .read a :: (next (m a)).accesses m
  | write a v next, m => .write a :: next.accesses (update m a v)

@[simp] theorem run_ret (x : α) (m : A → V) : (ret x).run m = (x, m) := rfl

@[simp] theorem accesses_ret (x : α) (m : A → V) : (ret x : Code A V α).accesses m = [] := rfl

@[simp] theorem run_bind (c : Code A V α) (f : α → Code A V β) (m : A → V) :
    (c.bind f).run m = (f (c.run m).1).run (c.run m).2 := by
  induction c generalizing m with
  | ret x => rfl
  | read a _ ih => exact ih (m a) m
  | write a v _ ih => exact ih _

@[simp] theorem accesses_bind (c : Code A V α) (f : α → Code A V β) (m : A → V) :
    (c.bind f).accesses m = c.accesses m ++ (f (c.run m).1).accesses (c.run m).2 := by
  induction c generalizing m with
  | ret x => rfl
  | read a next ih => exact congrArg (Access.read a :: ·) (ih (m a) m)
  | write a v next ih => exact congrArg (Access.write a :: ·) (ih _)

@[simp] theorem run_load (a : A) (m : A → V) : (load a).run m = (m a, m) := rfl

@[simp] theorem accesses_load (a : A) (m : A → V) : (load a).accesses m = [.read a] := rfl

@[simp] theorem run_store (a : A) (v : V) (m : A → V) :
    (store a v).run m = ((), update m a v) := rfl

@[simp] theorem accesses_store (a : A) (v : V) (m : A → V) :
    (store a v).accesses m = [.write a] := rfl

/-- Code that reads only, and what it gives. -/
structure Gives (c : Code A V α) (m : A → V) (x : α) : Prop where
  run : c.run m = (x, m)
  reads : ∀ a, .write a ∉ c.accesses m

theorem Gives.self {c : Code A V α} {m : A → V} {x : α} (h : c.Gives m x) :
    c.Gives m (c.run m).1 := by
  rw [h.run]
  exact h

theorem gives_ret (x : α) (m : A → V) : (ret x : Code A V α).Gives m x :=
  ⟨rfl, fun _ => List.not_mem_nil⟩

theorem Gives.bind {c : Code A V α} {f : α → Code A V β} {m : A → V} {x : α} {y : β}
    (hc : c.Gives m x) (hf : (f x).Gives m y) : (c.bind f).Gives m y where
  run := by rw [run_bind, hc.run, hf.run]
  reads := fun a ha => by
    rw [accesses_bind, hc.run] at ha
    exact (List.mem_append.1 ha).elim (hc.reads a) (hf.reads a)

end Code

section gives
variable [DecidableEq A] {v : V} {m : A → V}

theorem gives_load {a : A} (h : m a = v) : (load a : Code A V V).Gives m v :=
  ⟨by rw [← h]; rfl, fun b hb => by simp at hb⟩

/-- A loop that reads only. -/
theorem gives_fold {σ : Type} {body : α → β → Code A V α} {l : List β} (inj : σ → α)
    {step : σ → β → σ} (h : ∀ s, ∀ y ∈ l, (body (inj s) y).Gives m (inj (step s y))) (s : σ) :
    (fold body l (inj s)).Gives m (inj (l.foldl step s)) := by
  induction l generalizing s with
  | nil => exact Code.gives_ret _ m
  | cons y l ih =>
    exact (h s y List.mem_cons_self).bind
      (ih (fun s y hy => h s y (List.mem_cons_of_mem _ hy)) (step s y))

variable {c : Code A V V}

theorem run_store_of_gives (h : c.Gives m v) (a : A) :
    (c.bind (store a)).run m = ((), update m a v) := by
  rw [Code.run_bind, h.run]
  rfl

theorem written_of_gives {c : Code A V α} {x : α} (h : c.Gives m x) :
    (c.accesses m).filterMap Access.written = [] := by
  rw [List.filterMap_eq_nil_iff]
  rintro (a | a) ha
  · rfl
  · exact absurd ha (h.reads a)

theorem written_store_of_gives (h : c.Gives m v) (a : A) :
    ((c.bind (store a)).accesses m).filterMap Access.written = [a] := by
  rw [Code.accesses_bind, List.filterMap_append, written_of_gives h]
  rfl

end gives

section within
variable {R R' W W' : Set A} {c : Code A V α}

theorem Code.Within.bind {f : α → Code A V β} (hc : c.Within R W) (hf : ∀ x, (f x).Within R W) :
    (c.bind f).Within R W := by
  induction c with
  | ret x => exact hf x
  | read a next ih => exact ⟨hc.1, fun v => ih v (hc.2 v)⟩
  | write a v next ih => exact ⟨hc.1, ih hc.2⟩

theorem Code.Within.mono (hc : c.Within R W) (hR : ∀ a ∈ R, a ∈ R' ∨ a ∈ W') (hW : ∀ a ∈ W, a ∈ W') :
    c.Within R' W' := by
  induction c with
  | ret x => trivial
  | read a next ih => exact ⟨hc.1.elim (hR a) fun ha => .inr (hW a ha), fun v => ih v (hc.2 v)⟩
  | write a v next ih => exact ⟨hW a hc.1, ih hc.2⟩

variable {a : A}

theorem within_load (h : a ∈ R ∨ a ∈ W) : (load a : Code A V V).Within R W :=
  ⟨h, fun _ => trivial⟩

theorem within_store (v : V) (h : a ∈ W) : (store a v).Within R W := ⟨h, trivial⟩

variable {l : List β}

theorem within_fold {body : α → β → Code A V α} (h : ∀ x, ∀ y ∈ l, (body x y).Within R W) (x : α) :
    (fold body l x).Within R W := by
  induction l generalizing x with
  | nil => trivial
  | cons y l ih =>
    exact (h x y List.mem_cons_self).bind fun x' =>
      ih (fun x y hy => h x y (List.mem_cons_of_mem _ hy)) x'

theorem within_each {body : β → Code A V Unit} (h : ∀ y ∈ l, (body y).Within R W) :
    (each body l).Within R W := by
  induction l with
  | nil => trivial
  | cons y l ih =>
    exact (h y List.mem_cons_self).bind fun _ => ih fun y hy => h y (List.mem_cons_of_mem _ hy)

variable [DecidableEq A]

theorem Code.Within.frame (hc : c.Within R W) (m : A → V) (ha : a ∉ W) : (c.run m).2 a = m a := by
  induction c generalizing m with
  | ret x => rfl
  | read b next ih => exact ih (m b) (hc.2 _) m
  | write b v next ih =>
    rw [Code.run, ih hc.2]
    exact update_of_ne (fun hab : a = b => ha (hab.symm ▸ hc.1)) _ _

/-- Code does the same in memories that agree where it reads and writes. -/
theorem Code.Within.agree (hc : c.Within R W) {m m' : A → V} (hmm : ∀ a, a ∈ R ∨ a ∈ W → m a = m' a) :
    (c.run m).1 = (c.run m').1 ∧ c.accesses m = c.accesses m' ∧
      ∀ a, a ∈ R ∨ a ∈ W → (c.run m).2 a = (c.run m').2 a := by
  induction c generalizing m m' with
  | ret x => exact ⟨rfl, rfl, hmm⟩
  | read a next ih =>
    simp only [Code.run, Code.accesses, hmm a hc.1, List.cons.injEq, true_and]
    exact ih (m' a) (hc.2 _) hmm
  | write a v next ih =>
    simp only [Code.run, Code.accesses, List.cons.injEq, true_and]
    refine ih hc.2 fun b hb => ?_
    by_cases hab : b = a
    · rw [hab, update_self, update_self]
    · rw [update_of_ne hab, update_of_ne hab, hmm b hb]

theorem Code.Within.accesses_place (hc : c.Within R W) (m : A → V) :
    ∀ x ∈ c.accesses m, (∃ a, x = .read a ∧ (a ∈ R ∨ a ∈ W)) ∨ ∃ a ∈ W, x = .write a := by
  induction c generalizing m with
  | ret x => intro y hy; cases hy
  | read a next ih =>
    refine List.forall_mem_cons.2 ⟨?_, ih (m a) (hc.2 _) m⟩
    exact .inl ⟨a, rfl, hc.1⟩
  | write a v next ih =>
    refine List.forall_mem_cons.2 ⟨?_, ih hc.2 _⟩
    exact .inr ⟨a, hc.1, rfl⟩

/-- A loop that replaces what it reads, each item in its place, and carries a value along. -/
theorem run_fold_replace {place : β → A} {w : V → V} {f : α → V → α} (h : (l.map place).Nodup)
    (x : α) (m : A → V) :
    ((fold (fun acc y => (load (place y)).bind fun v => (store (place y) (w v)).bind fun _ =>
        .ret (f acc (w v))) l x).run m).1 = l.foldl (fun acc y => f acc (w (m (place y)))) x ∧
      ∀ y ∈ l, ((fold (fun acc y => (load (place y)).bind fun v => (store (place y) (w v)).bind
        fun _ => .ret (f acc (w v))) l x).run m).2 (place y) = w (m (place y)) := by
  induction l generalizing x m with
  | nil => exact ⟨rfl, fun y hy => absurd hy List.not_mem_nil⟩
  | cons z l ih =>
    rw [List.map_cons, List.nodup_cons] at h
    have hother : ∀ y ∈ l, update m (place z) (w (m (place z))) (place y) =
        m (place y) := by
      intro y hy
      refine update_of_ne (fun heq => h.1 ?_) _ _
      rw [← heq]
      exact List.mem_map_of_mem hy
    obtain ⟨hvalue, hmem⟩ := ih h.2 (f x (w (m (place z))))
      (update m (place z) (w (m (place z))))
    refine ⟨?_, fun y hy => ?_⟩
    · refine hvalue.trans ?_
      rw [List.foldl_cons]
      exact List.foldl_ext _ _ _ fun acc y hy => by rw [hother y hy]
    · rcases List.mem_cons.1 hy with rfl | hy
      · -- the rest of the loop does not come back to this place
        have hwithin : (fold (fun acc y => (load (place y)).bind fun v =>
            (store (place y) (w v)).bind fun _ => .ret (f acc (w v))) l
            (f x (w (m (place y))))).Within ∅ { a | a ∈ l.map place } := by
          refine within_fold (fun acc z hz => ?_) _
          have hplace : place z ∈ { a | a ∈ l.map place } := List.mem_map_of_mem hz
          exact (within_load (.inr hplace)).bind fun v =>
            (within_store (w v) hplace).bind fun _ => trivial
        exact (hwithin.frame _ h.1).trans (update_self _ _ _)
      · refine (hmem y hy).trans ?_
        rw [hother y hy]

end within

/-- Every run from here ends in a state that is done and good, and all on the way are safe. -/
inductive Ends {S : Type} (step : S → S → Prop) (safe done good : S → Prop) : S → Prop where
  | done {s : S} (hsafe : safe s) (hdone : done s) (hgood : good s) : Ends step safe done good s
  | step {s : S} (hsafe : safe s) (hnext : ∃ s', step s s')
      (hall : ∀ s', step s s' → Ends step safe done good s') : Ends step safe done good s

variable {S : Type} {good done safe : S → Prop} {step : S → S → Prop} {s : S}

theorem Ends.mono {good' : S → Prop} (h : Ends step safe done good s)
    (hgood : ∀ s, good s → good' s) : Ends step safe done good' s := by
  induction h with
  | done hsafe hdone hs => exact .done hsafe hdone (hgood _ hs)
  | step hsafe hnext _ ih => exact .step hsafe hnext ih

/-- What no step undoes holds in the end. -/
theorem Ends.invariant {I : S → Prop} (hstep : ∀ s s', I s → step s s' → I s')
    (h : Ends step safe done good s) (hI : I s) :
    Ends step safe done (fun s => good s ∧ I s) s := by
  induction h with
  | done hsafe hdone hgood => exact .done hsafe hdone ⟨hgood, hI⟩
  | step hsafe hnext _ ih => exact .step hsafe hnext fun s' hs' => ih s' hs' (hstep _ s' hI hs')

/-- What is good of a run in two ways is so in one and the same end. -/
theorem Ends.agree {safe' good' : S → Prop} (h : Ends step safe done good s)
    (h' : Ends step safe' done good' s) (hstuck : ∀ s s', done s → ¬ step s s') :
    ∃ s, good s ∧ good' s := by
  induction h with
  | done _ hdone hgood =>
    cases h' with
    | done _ _ hgood' => exact ⟨_, hgood, hgood'⟩
    | step _ hnext _ =>
      obtain ⟨s', hs'⟩ := hnext
      exact absurd hs' (hstuck _ s' hdone)
  | step _ hnext _ ih =>
    obtain ⟨s', hs'⟩ := hnext
    cases h' with
    | done _ hdone _ => exact absurd hs' (hstuck _ s' hdone)
    | step _ _ hall => exact ih s' hs' (hall s' hs')

variable {n : ℕ}

/-- Accesses to one place by two threads are reads. -/
def RaceFree (l : List (Fin n × Access A)) : Prop :=
  ∀ x ∈ l, ∀ y ∈ l, x.1 ≠ y.1 → x.2.place = y.2.place → ∃ a, x.2 = .read a ∧ y.2 = .read a

structure Block (n : ℕ) (A V : Type) where
  phases : List (Fin n → Code A V Unit)
  codes : Fin n → Code A V Unit
  /-- the accesses since the last barrier, the last one first -/
  interval : List (Fin n × Access A)
  before : List (Fin n × Access A)

/-- A thread reads or writes, or all threads pass a barrier. -/
inductive Block.Step [DecidableEq A] : Block n A V × (A → V) → Block n A V × (A → V) → Prop where
  | read {b : Block n A V} {m : A → V} {i : Fin n} {a : A} {next : V → Code A V Unit}
      (h : b.codes i = .read a next) :
      Step (b, m) ({ b with codes := update b.codes i (next (m a))
                            interval := (i, .read a) :: b.interval }, m)
  | write {b : Block n A V} {m : A → V} {i : Fin n} {a : A} {v : V} {next : Code A V Unit}
      (h : b.codes i = .write a v next) :
      Step (b, m) ({ b with codes := update b.codes i next
                            interval := (i, .write a) :: b.interval }, update m a v)
  | pass {b : Block n A V} {m : A → V} {phase : Fin n → Code A V Unit}
      {phases : List (Fin n → Code A V Unit)} (hphases : b.phases = phase :: phases)
      (hcodes : ∀ i, b.codes i = .ret ()) :
      Step (b, m) (⟨phases, phase, [], b.interval ++ b.before⟩, m)

def Block.Done (b : Block n A V) : Prop := b.phases = [] ∧ ∀ i, b.codes i = .ret ()

variable [DecidableEq A]

/-- Every run of the block ends well, without a race. -/
def Block.EndsIn (good : Block n A V × (A → V) → Prop) (s : Block n A V × (A → V)) : Prop :=
  Ends Block.Step (fun s => RaceFree s.1.interval) (fun s => s.1.Done) good s

/-- The accesses that are still to come, by each thread as it would do them alone. -/
def pending (codes : Fin n → Code A V Unit) (m : A → V) : List (Fin n × Access A) :=
  (List.finRange n).flatMap fun i => ((codes i).accesses m).map (i, ·)

variable {codes : Fin n → Code A V Unit}

theorem mem_pending {m : A → V} {x : Fin n × Access A} :
    x ∈ pending codes m ↔ x.2 ∈ (codes x.1).accesses m := by
  obtain ⟨i, x⟩ := x
  simp [pending]

variable {i : Fin n}

theorem pending_step {codes' : Fin n → Code A V Unit} {m m' : A → V} {x : Access A}
    (hi : (codes i).accesses m = x :: (codes' i).accesses m')
    (hother : ∀ j, j ≠ i → (codes j).accesses m = (codes' j).accesses m') :
    (pending codes m).Perm ((i, x) :: pending codes' m') := by
  have hgeneral : ∀ l : List (Fin n), l.Nodup → i ∈ l →
      (l.flatMap fun j => ((codes j).accesses m).map (j, ·)).Perm
        ((i, x) :: l.flatMap fun j => ((codes' j).accesses m').map (j, ·)) := by
    intro l hl hmem
    induction l with
    | nil => exact absurd hmem List.not_mem_nil
    | cons j l ih =>
      obtain ⟨hj, hl⟩ := List.nodup_cons.1 hl
      rw [List.flatMap_cons, List.flatMap_cons]
      by_cases hji : j = i
      · subst hji
        have hrest : (l.flatMap fun k => ((codes k).accesses m).map (k, ·)) =
            l.flatMap fun k => ((codes' k).accesses m').map (k, ·) := by
          refine List.flatMap_congr fun k hk => ?_
          rw [hother k fun hkj => hj (hkj ▸ hk)]
        rw [hi, hrest]
        exact List.Perm.refl _
      · rw [hother j hji]
        have hmem : i ∈ l := (List.mem_cons.1 hmem).resolve_left (Ne.symm hji)
        exact ((ih hl hmem).append_left _).trans List.perm_middle
  exact hgeneral _ (List.nodup_finRange n) (List.mem_finRange i)

/-- Threads that do not write what another touches. -/
structure Apart (R W : Fin n → Set A) (codes : Fin n → Code A V Unit) : Prop where
  within : ∀ i, (codes i).Within (R i) (W i)
  apart : ∀ i j, i ≠ j → ∀ a ∈ W i, a ∉ R j ∧ a ∉ W j

/-- Each place holds what its thread leaves there alone. -/
structure Merged (W : Fin n → Set A) (codes : Fin n → Code A V Unit) (m m' : A → V) : Prop where
  own : ∀ i, ∀ a ∈ W i, m' a = ((codes i).run m).2 a
  frame : ∀ a, (∀ i, a ∉ W i) → m' a = m a

variable {R W : Fin n → Set A}

theorem Apart.raceFree (h : Apart R W codes) (m : A → V) : RaceFree (pending codes m) := by
  rintro ⟨i, x⟩ hx ⟨j, y⟩ hy hij hplace
  have hx := (h.within i).accesses_place m x (mem_pending.1 hx)
  have hy := (h.within j).accesses_place m y (mem_pending.1 hy)
  have hclash : ∀ i j, i ≠ j → ∀ a ∈ W i, ¬ (a ∈ R j ∨ a ∈ W j) := fun i j hij a ha htouch =>
    htouch.elim (h.apart i j hij a ha).1 (h.apart i j hij a ha).2
  rcases hx with ⟨a, rfl, ha⟩ | ⟨a, ha, rfl⟩
  · rcases hy with ⟨b, rfl, hb⟩ | ⟨b, hb, rfl⟩
    · obtain rfl : a = b := hplace
      exact ⟨a, rfl, rfl⟩
    · obtain rfl : a = b := hplace
      exact absurd ha (hclash j i (Ne.symm hij) a hb)
  · rcases hy with ⟨b, rfl, hb⟩ | ⟨b, hb, rfl⟩
    · obtain rfl : a = b := hplace
      exact absurd hb (hclash i j hij a ha)
    · obtain rfl : a = b := hplace
      exact absurd (.inr hb) (hclash i j hij a ha)

theorem agree_of_write (h : Apart R W codes) {i j : Fin n} (hij : i ≠ j) {a : A} (ha : a ∈ W i)
    (v : V) (m : A → V) : ∀ b, b ∈ R j ∨ b ∈ W j → update m a v b = m b := by
  intro b hb
  refine update_of_ne ?_ _ _
  rintro rfl
  exact hb.elim (h.apart i j hij b ha).1 (h.apart i j hij b ha).2

omit [DecidableEq A] in
theorem Apart.update {R W : Fin n → Set A} {codes : Fin n → Code A V Unit} (h : Apart R W codes)
    {c : Code A V Unit} (hc : c.Within (R i) (W i)) :
    Apart R W (update codes i c) where
  within := by
    intro j
    by_cases hji : j = i
    · subst hji
      rwa [update_self]
    · rw [update_of_ne hji]
      exact h.within j
  apart := h.apart

/-- Where a phase stands: `codes` and `m` are what is left of `codes₀` and `m₀` behind `l`. -/
structure Midway (R W : Fin n → Set A) (codes₀ : Fin n → Code A V Unit) (m₀ : A → V)
    (codes : Fin n → Code A V Unit) (m : A → V) (l : List (Fin n × Access A)) : Prop where
  apart : Apart R W codes
  log : (l ++ pending codes m).Perm (pending codes₀ m₀)
  own : ∀ i, ∀ a ∈ W i, ((codes i).run m).2 a = ((codes₀ i).run m₀).2 a
  frame : ∀ a, (∀ i, a ∉ W i) → m a = m₀ a

section midway
variable {R W : Fin n → Set A} {codes₀ codes : Fin n → Code A V Unit} {m₀ m : A → V}
  {l : List (Fin n × Access A)}

section

variable (h : Midway R W codes₀ m₀ codes m l)

include h

theorem Midway.read {a : A} {next : V → Code A V Unit} (hi : codes i = .read a next) :
    Midway R W codes₀ m₀ (update codes i (next (m a))) m ((i, .read a) :: l) ∧
      (pending codes m).Perm
        ((i, .read a) :: pending (update codes i (next (m a))) m) := by
  have hwithin := h.apart.within i
  rw [hi] at hwithin
  have hpending : (pending codes m).Perm
      ((i, .read a) :: pending (update codes i (next (m a))) m) := by
    refine pending_step ?_ fun j hji => ?_
    · rw [hi, update_self, Code.accesses]
    · rw [update_of_ne hji]
  refine ⟨⟨h.apart.update (hwithin.2 _), ?_, fun j b hb => ?_, h.frame⟩, hpending⟩
  · exact (List.perm_middle.symm.trans (hpending.symm.append_left l)).trans h.log
  · rw [← h.own j b hb]
    by_cases hji : j = i
    · subst hji
      rw [update_self, hi, Code.run]
    · rw [update_of_ne hji]

theorem Midway.write {a : A} {v : V} {next : Code A V Unit} (hi : codes i = .write a v next) :
    Midway R W codes₀ m₀ (update codes i next) (update m a v)
        ((i, .write a) :: l) ∧
      (pending codes m).Perm
        ((i, .write a) :: pending (update codes i next) (update m a v)) := by
  have hwithin := h.apart.within i
  rw [hi] at hwithin
  have hagree : ∀ j, j ≠ i → ∀ b, b ∈ R j ∨ b ∈ W j → m b = update m a v b :=
    fun j hji b hb => (agree_of_write h.apart (Ne.symm hji) hwithin.1 v m b hb).symm
  have hpending : (pending codes m).Perm
      ((i, .write a) :: pending (update codes i next) (update m a v)) := by
    refine pending_step ?_ fun j hji => ?_
    · rw [hi, update_self, Code.accesses]
    · rw [update_of_ne hji]
      exact ((h.apart.within j).agree (hagree j hji)).2.1
  refine ⟨⟨h.apart.update hwithin.2, ?_, fun j b hb => ?_, fun b hb => ?_⟩, hpending⟩
  · exact (List.perm_middle.symm.trans (hpending.symm.append_left l)).trans h.log
  · rw [← h.own j b hb]
    by_cases hji : j = i
    · subst hji
      rw [update_self, hi, Code.run]
    · rw [update_of_ne hji]
      exact (((h.apart.within j).agree (hagree j hji)).2.2 b (.inr hb)).symm
  · rw [← h.frame b hb]
    exact update_of_ne (fun hba : b = a => hb i (hba.symm ▸ hwithin.1)) _ _

theorem Midway.raceFree (h₀ : Apart R W codes₀) :
    RaceFree l := fun x hx y hy =>
  h₀.raceFree m₀ x (h.log.subset (List.mem_append_left _ hx)) y
    (h.log.subset (List.mem_append_left _ hy))

end

end midway

/-- The rule of a phase of threads that do not touch what another writes. -/
theorem ends_interval {codes₀ : Fin n → Code A V Unit} {m₀ : A → V}
    {phases : List (Fin n → Code A V Unit)} {before : List (Fin n × Access A)}
    {good : Block n A V × (A → V) → Prop} (h₀ : Apart R W codes₀)
    (hnext : ∀ m' l, Merged W codes₀ m₀ m' → l.Perm (pending codes₀ m₀) →
      Block.EndsIn good (⟨phases, fun _ => .ret (), l, before⟩, m')) :
    Block.EndsIn good (⟨phases, codes₀, [], before⟩, m₀) := by
  have hmidway : ∀ k codes m l, (pending codes m).length = k → Midway R W codes₀ m₀ codes m l →
      Block.EndsIn good (⟨phases, codes, l, before⟩, m) := by
    intro k
    induction k with
    | zero =>
      intro codes m l hlength h
      -- nobody has anything left to do
      have hnone : pending codes m = [] := List.length_eq_zero_iff.1 hlength
      have hret : ∀ i, codes i = .ret () := by
        intro i
        cases hi : codes i with
        | ret x => rfl
        | read a next =>
          have hmem : (i, Access.read a) ∈ pending codes m :=
            mem_pending.2 (by simp [hi, Code.accesses])
          rw [hnone] at hmem
          cases hmem
        | write a v next =>
          have hmem : (i, Access.write a) ∈ pending codes m :=
            mem_pending.2 (by simp [hi, Code.accesses])
          rw [hnone] at hmem
          cases hmem
      obtain rfl : codes = fun _ => .ret () := funext hret
      refine hnext m l ⟨fun i a ha => h.own i a ha, h.frame⟩ ?_
      have hlog := h.log
      rwa [hnone, List.append_nil] at hlog
    | succ k ih =>
      intro codes m l hlength h
      obtain ⟨⟨i, x⟩, hx⟩ := List.exists_mem_of_length_pos (by omega : 0 < (pending codes m).length)
      have hx := mem_pending.1 hx
      refine .step (h.raceFree h₀) ?_ ?_
      · cases hi : codes i with
        | ret x => rw [hi] at hx; cases hx
        | read a next => exact ⟨_, .read hi⟩
        | write a v next => exact ⟨_, .write hi⟩
      · rintro _ (⟨hj⟩ | ⟨hj⟩ | ⟨-, hcodes⟩)
        · obtain ⟨hmid, hpending⟩ := h.read hj
          have hless := hpending.length_eq
          rw [List.length_cons, hlength, Nat.succ_inj] at hless
          exact ih _ _ _ hless.symm hmid
        · obtain ⟨hmid, hpending⟩ := h.write hj
          have hless := hpending.length_eq
          rw [List.length_cons, hlength, Nat.succ_inj] at hless
          exact ih _ _ _ hless.symm hmid
        · have hi : codes i = .ret () := hcodes i
          rw [hi] at hx
          cases hx
  exact hmidway _ codes₀ m₀ [] rfl ⟨h₀, List.Perm.refl _, fun _ _ _ => rfl, fun _ _ => rfl⟩

end Barriers
