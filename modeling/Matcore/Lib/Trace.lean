import Mathlib

/-!
# Machines that emit events

A machine is a partial step function `next : σ → α → Option (σ × List ε)`. `run` takes a list of
actions and collects the events.
-/

namespace Trace

open List (append_assoc append_nil)

variable {σ α ε : Type} (next : σ → α → Option (σ × List ε))

/-- The state behind a list of actions, and the events they emitted. -/
def run (s : σ) : List α → Option (σ × List ε)
  | [] => some (s, [])
  | a :: as => (next s a).bind fun (s, es) => (run s as).map fun (s, es') => (s, es ++ es')

variable {next} {s t : σ} {es : List ε} {as : List α}

theorem run_append {bs : List α} :
    run next s (as ++ bs) = some (t, es) ↔
      ∃ u es₁ es₂, run next s as = some (u, es₁) ∧ run next u bs = some (t, es₂) ∧
        es = es₁ ++ es₂ := by
  induction as generalizing s t es with
  | nil =>
    constructor
    · exact fun h => ⟨s, [], es, rfl, h, rfl⟩
    · rintro ⟨u, es₁, es₂, h, h', rfl⟩
      cases h
      exact h'
  | cons a as ih =>
    simp only [List.cons_append, run, Option.bind_eq_some_iff, Option.map_eq_some_iff, Prod.exists,
      Prod.mk.injEq, ih]
    constructor
    · rintro ⟨u, es₁, hn, v, es', ⟨u', es₂, es₃, h₁, h₂, rfl⟩, rfl, rfl⟩
      exact ⟨u', es₁ ++ es₂, es₃, ⟨u, es₁, hn, u', es₂, h₁, rfl, rfl⟩, h₂,
        (append_assoc _ _ _).symm⟩
    · rintro ⟨u', es₁, es₃, ⟨u, es₀, hn, v, es₂, h₁, rfl, rfl⟩, h₂, rfl⟩
      exact ⟨u, es₀, hn, t, es₂ ++ es₃, ⟨v, es₂, es₃, h₁, h₂, rfl⟩, rfl,
        (append_assoc _ _ _).symm⟩

variable {a : α}

theorem run_singleton : run next s [a] = next s a := by
  unfold run
  cases next s a <;> simp [run]

theorem run_concat :
    run next s (as ++ [a]) = some (t, es) ↔
      ∃ u es₁ es₂, run next s as = some (u, es₁) ∧ next u a = some (t, es₂) ∧ es = es₁ ++ es₂ := by
  simp only [run_append, run_singleton]

theorem run_cons {u : σ} {es' : List ε} (h : next s a = some (u, es))
    (h' : run next u as = some (t, es')) : run next s (a :: as) = some (t, es ++ es') := by
  simp [run, h, h']

variable {P : List ε → σ → Prop}

/-- **Invariants.** -/
theorem run_invariant (start : P [] s)
    (step : ∀ es u a es' t, P es u → next u a = some (t, es') → P (es ++ es') t)
    (h : run next s as = some (t, es)) : P es t := by
  induction as using List.reverseRecOn generalizing t es with
  | nil => cases h; exact start
  | append_singleton as a ih =>
    obtain ⟨u, es₁, es₂, h₁, h₂, rfl⟩ := run_concat.1 h
    exact step es₁ u a es₂ t (ih h₁) h₂

/-- Every step of a run meets a condition on the state before it. -/
def Along (next : σ → α → Option (σ × List ε)) (M : σ → α → Prop) (s : σ) : List α → Prop
  | [] => True
  | a :: as => M s a ∧ ∀ t es, next s a = some (t, es) → Along next M t as

variable {M : σ → α → Prop}

theorem along_cons {u : σ} {es' : List ε} (hmeets : M s a) (h : next s a = some (u, es'))
    (h' : Along next M u as) : Along next M s (a :: as) := by
  refine ⟨hmeets, fun t es ht => ?_⟩
  rw [h] at ht
  cases ht
  exact h'

theorem Along.and {N : α → Prop} (h : Along next M s as) (hall : ∀ a ∈ as, N a) :
    Along next (fun s a => M s a ∧ N a) s as := by
  induction as generalizing s with
  | nil => trivial
  | cons a as ih =>
    refine ⟨⟨h.1, hall a List.mem_cons_self⟩, fun t es ht => ?_⟩
    exact ih (h.2 t es ht) fun b hb => hall b (List.mem_cons_of_mem a hb)

/-- **Invariants under a condition.** -/
theorem run_along {before : List ε} (start : P before s)
    (step : ∀ es u a es' t, P es u → M u a → next u a = some (t, es') → P (es ++ es') t)
    (along : Along next M s as) (h : run next s as = some (t, es)) : P (before ++ es) t := by
  induction as generalizing s before es with
  | nil => cases h; rwa [append_nil]
  | cons a as ih =>
    simp only [run, Option.bind_eq_some_iff, Option.map_eq_some_iff, Prod.exists,
      Prod.mk.injEq] at h
    obtain ⟨u, es₁, hn, v, es₂, hrun, rfl, rfl⟩ := h
    obtain ⟨hmeets, hrest⟩ := along
    rw [← append_assoc]
    exact ih (step before s a es₁ u start hmeets hn) (hrest u es₁ hn) hrun

/-- An event of a run was emitted by a step, behind a run of the events before it. -/
theorem run_emitted (h : run next s as = some (t, es)) {before after : List ε} {e : ε}
    (he : es = before ++ e :: after) :
    ∃ bs u a v cs es₁ l r es₂, run next s bs = some (u, es₁) ∧ next u a = some (v, l ++ e :: r) ∧
      run next v cs = some (t, es₂) ∧ before = es₁ ++ l := by
  induction as using List.reverseRecOn generalizing t es before after with
  | nil => cases h; simp at he
  | append_singleton as a ih =>
    obtain ⟨u, es₁, es₂, h₁, h₂, rfl⟩ := run_concat.1 h
    rcases List.append_eq_append_iff.1 he with ⟨l, rfl, hl⟩ | ⟨r, hr, -⟩
    · exact ⟨as, u, a, t, [], es₁, l, after, [], h₁, hl ▸ h₂, rfl, rfl⟩
    · rcases r with - | ⟨e', r⟩
      · rw [append_nil] at hr
        subst hr
        simp only [List.append_cancel_left_eq] at he
        exact ⟨as, u, a, t, [], es₁, [], after, [], h₁, he ▸ h₂, rfl, (append_nil _).symm⟩
      · simp only [hr, append_assoc, List.cons_append, List.append_cancel_left_eq,
          List.cons.injEq] at he
        obtain ⟨rfl, -⟩ := he
        obtain ⟨bs, u', a', v, cs, es₃, l, r', es₄, hrun, hn, hrest, hbefore⟩ := ih h₁ hr
        exact ⟨bs, u', a', v, cs ++ [a], es₃, l, r', es₄ ++ es₂, hrun, hn,
          run_concat.2 ⟨u, es₄, es₂, hrest, h₂, rfl⟩, hbefore⟩

/-- **Progress.** If from every state with `P`, short of the goal, some allowed action lowers the
rank and keeps `P`, then a run of allowed actions reaches the goal. -/
theorem run_of_rank {G : List ε → σ → Prop} {A : α → Prop} (rank : σ → ℕ)
    (step : ∀ es s, P es s → ¬ G es s → ∃ a t es', A a ∧ next s a = some (t, es') ∧
      P (es ++ es') t ∧ rank t < rank s) (hp : P es s) :
    ∃ as t es', (∀ a ∈ as, A a) ∧ run next s as = some (t, es') ∧ G (es ++ es') t := by
  induction hr : rank s using Nat.strong_induction_on generalizing s es with
  | _ r ih =>
    subst hr
    by_cases hg : G es s
    · exact ⟨[], s, [], by simp, rfl, by rwa [append_nil]⟩
    · obtain ⟨a, u, es₁, ha, hn, hp', hlt⟩ := step es s hp hg
      obtain ⟨as, t, es₂, has, hrun, hgoal⟩ := ih (rank u) hlt hp' rfl
      exact ⟨a :: as, t, es₁ ++ es₂, List.forall_mem_cons.2 ⟨ha, has⟩, run_cons hn hrun,
        by rwa [← append_assoc]⟩

end Trace
