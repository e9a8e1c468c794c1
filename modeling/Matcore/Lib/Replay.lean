import Mathlib.Data.List.Sort
import Mathlib.Data.String.Basic

/-!
# Clients of a service that records its answers

A client chooses each query from the answers so far. `transcript` is what it asks and hears in so
many rounds.
-/

namespace Replay

variable {Query Answer State State' : Type}

/-- So many rounds, behind those of `log`. -/
def transcript (serve : Query → State → Answer × State) (client : List Answer → Option Query) :
    ℕ → List (Query × Answer) → State → List (Query × Answer) × State
  | 0, log, s => (log, s)
  | rounds + 1, log, s =>
    match client (log.map (·.2)) with
    | none => (log, s)
    | some query =>
      transcript serve client rounds (log ++ [(query, (serve query s).1)]) (serve query s).2

variable {serve : Query → State → Answer × State} {serve' : Query → State' → Answer × State'}
  {client : List Answer → Option Query} {rounds : ℕ} {log log' : List (Query × Answer)}
  {s s' : State}

theorem transcript_grows (h : transcript serve client rounds log s = (log', s')) :
    log <+: log' := by
  induction rounds generalizing log s with
  | zero =>
    cases h
    exact List.prefix_rfl
  | succ rounds ih =>
    unfold transcript at h
    split at h
    · cases h
      exact List.prefix_rfl
    · exact (List.prefix_append log _).trans (ih h)

/-- What every round preserves. -/
theorem transcript_invariant {P : List (Query × Answer) → State → Prop} (start : P log s)
    (step : ∀ log s query, P log s →
      P (log ++ [(query, (serve query s).1)]) (serve query s).2)
    (h : transcript serve client rounds log s = (log', s')) : P log' s' := by
  induction rounds generalizing log s with
  | zero =>
    cases h
    exact start
  | succ rounds ih =>
    unfold transcript at h
    split at h
    · cases h
      exact start
    · exact ih (step _ _ _ start) h

/-- **Repetition.** -/
theorem transcript_repeat {t : State'}
    (hrepeat : ∀ query answer, (query, answer) ∈ log' → serve' query t = (answer, t))
    (h : transcript serve client rounds log s = (log', s')) :
    transcript serve' client rounds log t = (log', t) := by
  induction rounds generalizing log s with
  | zero =>
    cases h
    rfl
  | succ rounds ih =>
    unfold transcript at h ⊢
    split at h
    · cases h
      rfl
    · rename_i query _
      -- this round is one of the transcript, so that its answer is repeated
      have hmem : (query, (serve query s).1) ∈ log' :=
        (transcript_grows h).subset (List.mem_append_right _ List.mem_cons_self)
      have hsame := hrepeat _ _ hmem
      have hrest := ih h
      simp only [hsame]
      exact hrest

variable {α : Type}

/-- Answers by their key. -/
abbrev Table (α : Type) := List (String × α)

/-- A new key is entered. -/
def Table.emplace (table : Table α) (key : String) (record : α) : Table α :=
  table.orderedInsert (fun a b => a.1 ≤ b.1) (key, record)

theorem Table.lookup_cons (key : String) (record : α) (table : Table α) (k : String) :
    List.lookup k ((key, record) :: table) = if k = key then some record else table.lookup k := by
  by_cases hk : k = key
  · rw [if_pos hk, hk, List.lookup_cons_self]
  · rw [if_neg hk, List.lookup_cons, beq_eq_false_iff_ne.2 hk]

theorem Table.lookup_emplace {table : Table α} {key : String} {record : α}
    (hnew : table.lookup key = none) (k : String) :
    (table.emplace key record).lookup k = if k = key then some record else table.lookup k := by
  induction table with
  | nil => exact lookup_cons key record [] k
  | cons entry table ih =>
    obtain ⟨key', record'⟩ := entry
    rw [lookup_cons] at hnew ⊢
    split at hnew
    · cases hnew
    · rename_i hne
      have ih := ih hnew
      unfold emplace at ih ⊢
      rw [List.orderedInsert]
      split
      · rw [lookup_cons, lookup_cons]
      · rw [lookup_cons, ih]
        by_cases hk : k = key'
        · have hkey : k ≠ key := fun h => hne (h.symm.trans hk)
          rw [if_pos hk, if_neg hkey]
          exact (if_pos hk).symm
        · rw [if_neg hk]
          exact (if_congr Iff.rfl rfl (if_neg hk)).symm

end Replay
