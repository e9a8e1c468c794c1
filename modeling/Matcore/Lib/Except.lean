import Mathlib.Data.List.Forall2

/-!
# Computations that may fail

* `ite_error_eq_ok`, `error_ite_eq_ok`: a computation behind a condition.
* `mapM_eq_ok`, `forall₂_of_mapM`: one computation for each element.
-/

variable {ε β α : Type}

theorem Except.ok_bind (a : α) (f : α → Except ε β) : (.ok a >>= f) = f a := rfl

variable {f : α → Except ε β} {b : β} {m : Except ε α}

/-- A sequence succeeds when both of its parts do. -/
theorem Except.bind_eq_ok (h : (m >>= f) = .ok b) :
    ∃ a, m = .ok a ∧ f a = .ok b := by
  cases m with
  | error e => cases h
  | ok a => exact ⟨a, rfl, h⟩

theorem Except.then_eq_ok {rest : Except ε β} (h : (m >>= fun _ => rest) = .ok b) :
    rest = .ok b :=
  (Except.bind_eq_ok h).elim fun _ h => h.2

theorem Except.check_eq_ok {m : Except ε Unit} {f : Unit → Except ε β} :
    (m >>= f) = .ok b ↔ m = .ok () ∧ f () = .ok b := by
  constructor
  · intro h
    obtain ⟨⟨⟩, hm, hf⟩ := Except.bind_eq_ok h
    exact ⟨hm, hf⟩
  · rintro ⟨hm, hf⟩
    rw [hm, Except.ok_bind, hf]

variable {xs : List α}

/-- What writes element by element is read back element by element. -/
theorem Except.mapM_map {write : α → β} {read : β → Except ε α}
    (h : ∀ x ∈ xs, read (write x) = .ok x) : (xs.map write).mapM read = .ok xs := by
  induction xs with
  | nil => rfl
  | cons x rest ih =>
    have hx := h x List.mem_cons_self
    have hrest := ih fun y hy => h y (List.mem_cons_of_mem x hy)
    rw [List.map_cons, List.mapM_cons, hx, hrest]
    rfl

variable {m : Except ε β}

theorem Except.ite_error_eq_ok {p : Prop} [Decidable p] {e : ε} :
    (if p then m else .error e) = .ok b ↔ p ∧ m = .ok b := by
  by_cases hp : p
  · rw [if_pos hp]
    exact ⟨fun h => ⟨hp, h⟩, fun h => h.2⟩
  · rw [if_neg hp]
    exact ⟨nofun, fun h => absurd h.1 hp⟩

theorem Except.error_ite_eq_ok {p : Prop} [Decidable p] {e : ε} :
    (if p then .error e else m) = .ok b ↔ ¬ p ∧ m = .ok b := by
  by_cases hp : p
  · rw [if_pos hp]
    exact ⟨nofun, fun h => absurd hp h.1⟩
  · rw [if_neg hp]
    exact ⟨fun h => ⟨hp, h⟩, fun h => h.2⟩

theorem Except.mapM_eq_ok (h : ∀ x ∈ xs, ∃ y, f x = .ok y) :
    ∃ ys, xs.mapM f = .ok ys ∧ List.Forall₂ (fun x y => f x = .ok y) xs ys := by
  induction xs with
  | nil => exact ⟨[], rfl, .nil⟩
  | cons x rest ih =>
    obtain ⟨y, hy⟩ := h x List.mem_cons_self
    obtain ⟨ys, hys, hrest⟩ := ih fun x hx => h x (List.mem_cons_of_mem _ hx)
    refine ⟨y :: ys, ?_, .cons hy hrest⟩
    rw [List.mapM_cons, hy, hys]
    rfl

theorem Except.forall₂_of_mapM {ys : List β} (h : xs.mapM f = .ok ys) :
    List.Forall₂ (fun x y => f x = .ok y) xs ys := by
  induction xs generalizing ys with
  | nil =>
    cases h
    exact .nil
  | cons x rest ih =>
    rw [List.mapM_cons] at h
    obtain ⟨y, hy, h⟩ := Except.bind_eq_ok h
    obtain ⟨ys', hys, h⟩ := Except.bind_eq_ok h
    cases h
    exact .cons hy (ih hys)

theorem Option.forall₂_of_mapM {f : α → Option β} {ys : List β} (h : xs.mapM f = some ys) :
    List.Forall₂ (fun x y => f x = some y) xs ys := by
  induction xs generalizing ys with
  | nil =>
    cases h
    exact .nil
  | cons x rest ih =>
    rw [List.mapM_cons] at h
    obtain ⟨y, hy, h⟩ := Option.bind_eq_some_iff.1 h
    obtain ⟨ys', hys, h⟩ := Option.bind_eq_some_iff.1 h
    cases h
    exact .cons hy (ih hys)

/-- One check for each element. -/
theorem Except.forM_eq_ok {check : α → Except ε Unit} :
    xs.forM check = .ok () ↔ ∀ x ∈ xs, check x = .ok () := by
  induction xs with
  | nil => exact ⟨fun _ => nofun, fun _ => rfl⟩
  | cons x rest ih =>
    change (check x >>= fun _ => rest.forM check) = .ok () ↔ _
    rw [Except.check_eq_ok, ih, List.forall_mem_cons]

/-- The text of the first condition that holds. -/
def firstRefusal {ε : Type} : List (Bool × ε) → Option ε
  | [] => none
  | (refuses, reason) :: rest => if refuses then some reason else firstRefusal rest

@[simp] theorem firstRefusal_nil {ε : Type} : firstRefusal ([] : List (Bool × ε)) = none := rfl

@[simp] theorem firstRefusal_cons {ε : Type} {refuses : Bool} {reason : ε}
    {rest : List (Bool × ε)} :
    firstRefusal ((refuses, reason) :: rest) = none ↔
      refuses = false ∧ firstRefusal rest = none := by
  cases refuses <;> simp [firstRefusal]
