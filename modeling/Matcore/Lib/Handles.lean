import Mathlib.Data.List.Nodup

/-!
# Handles that are destroyed once

Handles are numbered in the order in which they are created. A name holds at most one handle, and
what nobody holds has been destroyed.
-/

namespace Handles

open Function (update update_self update_of_ne)

variable {N : Type*}

/-- Every handle is held by one name, or was destroyed once. -/
structure Ledger (created : ℕ) (destroyed : List ℕ) (held : N → Option ℕ) : Prop where
  nodup : destroyed.Nodup
  lt : ∀ h ∈ destroyed, h < created
  live : ∀ n h, held n = some h → h < created ∧ h ∉ destroyed
  unique : ∀ n m h, held n = some h → held m = some h → n = m
  kept : ∀ h < created, h ∈ destroyed ∨ ∃ n, held n = some h

namespace Ledger

variable {created : ℕ} {destroyed : List ℕ} {held : N → Option ℕ}

theorem empty : Ledger 0 [] fun _ : N => none :=
  ⟨List.nodup_nil, nofun, nofun, nofun, nofun⟩

/-- A handle that is created and destroyed. -/
theorem spend (h : Ledger created destroyed held) :
    Ledger (created + 1) (created :: destroyed) held := by
  refine ⟨List.nodup_cons.2 ⟨fun hd => Nat.lt_irrefl _ (h.lt _ hd), h.nodup⟩, ?_, ?_, h.unique, ?_⟩
  · intro k hk
    rcases List.mem_cons.1 hk with rfl | hk
    · exact Nat.lt_succ_self k
    · exact Nat.lt_succ_of_lt (h.lt k hk)
  · intro n k hk
    obtain ⟨hlt, hlive⟩ := h.live n k hk
    refine ⟨Nat.lt_succ_of_lt hlt, fun hd => ?_⟩
    rcases List.mem_cons.1 hd with rfl | hd
    · exact Nat.lt_irrefl k hlt
    · exact hlive hd
  · intro k hk
    by_cases hnew : k = created
    · exact .inl (hnew ▸ List.mem_cons_self)
    · rcases h.kept k (by omega) with hd | hheld
      · exact .inl (List.mem_cons_of_mem _ hd)
      · exact .inr hheld

variable [DecidableEq N]

section

variable (h : Ledger created destroyed held)

include h

/-- A name that holds nothing gets a new handle. -/
theorem take {n : N} (hn : held n = none) :
    Ledger (created + 1) destroyed (update held n (some created)) := by
  have hother : ∀ m k, update held n (some created) m = some k →
      m = n ∧ k = created ∨ m ≠ n ∧ held m = some k := by
    intro m k hk
    by_cases hm : m = n
    · subst hm
      rw [update_self] at hk
      exact .inl ⟨rfl, (Option.some.inj hk).symm⟩
    · rw [update_of_ne hm] at hk
      exact .inr ⟨hm, hk⟩
  refine ⟨h.nodup, fun k hk => Nat.lt_succ_of_lt (h.lt k hk), ?_, ?_, ?_⟩
  · intro m k hk
    rcases hother m k hk with ⟨rfl, rfl⟩ | ⟨-, hk⟩
    · exact ⟨Nat.lt_succ_self k, fun hd => Nat.lt_irrefl k (h.lt k hd)⟩
    · exact ⟨Nat.lt_succ_of_lt (h.live m k hk).1, (h.live m k hk).2⟩
  · intro m m' k hk hk'
    rcases hother m k hk with ⟨hm, hnew⟩ | ⟨-, hold⟩
    · rcases hother m' k hk' with ⟨hm', -⟩ | ⟨-, hold'⟩
      · rw [hm, hm']
      · exact absurd (h.live m' k hold').1 (by omega)
    · rcases hother m' k hk' with ⟨-, hnew⟩ | ⟨-, hold'⟩
      · exact absurd (h.live m k hold).1 (by omega)
      · exact h.unique m m' k hold hold'
  · intro k hk
    by_cases hnew : k = created
    · exact .inr ⟨n, by rw [update_self, hnew]⟩
    · rcases h.kept k (by omega) with hd | ⟨m, hm⟩
      · exact .inl hd
      · refine .inr ⟨m, ?_⟩
        rw [update_of_ne fun heq => ?_, hm]
        rw [heq, hn] at hm
        cases hm

/-- A name destroys what it holds. -/
theorem drop (n : N) :
    Ledger created ((held n).toList ++ destroyed) (update held n none) := by
  cases hn : held n with
  | none =>
    have hsame : update held n none = held := by rw [← hn, Function.update_eq_self]
    rw [hsame]
    exact h
  | some k =>
    have hother : ∀ m j, update held n none m = some j → m ≠ n ∧ held m = some j := by
      intro m j hj
      by_cases hm : m = n
      · rw [hm, update_self] at hj
        cases hj
      · rw [update_of_ne hm] at hj
        exact ⟨hm, hj⟩
    refine ⟨List.nodup_cons.2 ⟨(h.live n k hn).2, h.nodup⟩, ?_, ?_, ?_, ?_⟩
    · intro j hj
      rcases List.mem_cons.1 hj with rfl | hj
      · exact (h.live n j hn).1
      · exact h.lt j hj
    · intro m j hj
      obtain ⟨hm, hj⟩ := hother m j hj
      refine ⟨(h.live m j hj).1, fun hd => ?_⟩
      rcases List.mem_cons.1 hd with rfl | hd
      · exact hm (h.unique m n j hj hn)
      · exact (h.live m j hj).2 hd
    · intro m m' j hj hj'
      exact h.unique m m' j (hother m j hj).2 (hother m' j hj').2
    · intro j hj
      rcases h.kept j hj with hd | ⟨m, hm⟩
      · exact .inl (List.mem_cons_of_mem k hd)
      · by_cases hmn : m = n
        · rw [hmn, hn] at hm
          exact .inl (Option.some.inj hm ▸ List.mem_cons_self)
        · exact .inr ⟨m, by rw [update_of_ne hmn, hm]⟩

/-- What one name holds goes to another one, which holds nothing. -/
theorem move {n m : N} (hne : n ≠ m) (hn : held n = none) :
    Ledger created destroyed (update (update held n (held m)) m none) := by
  have hother : ∀ p k, update (update held n (held m)) m none p = some k →
      p = n ∧ held m = some k ∨ p ≠ n ∧ p ≠ m ∧ held p = some k := by
    intro p k hk
    by_cases hpm : p = m
    · rw [hpm, update_self] at hk
      cases hk
    · rw [update_of_ne hpm] at hk
      by_cases hpn : p = n
      · rw [hpn, update_self] at hk
        exact .inl ⟨hpn, hk⟩
      · rw [update_of_ne hpn] at hk
        exact .inr ⟨hpn, hpm, hk⟩
  refine ⟨h.nodup, h.lt, ?_, ?_, ?_⟩
  · intro p k hk
    rcases hother p k hk with ⟨-, hk⟩ | ⟨-, -, hk⟩
    · exact h.live m k hk
    · exact h.live p k hk
  · intro p q k hk hk'
    rcases hother p k hk with ⟨hp, hold⟩ | ⟨-, hpm, hold⟩
    · rcases hother q k hk' with ⟨hq, -⟩ | ⟨-, hqm, hold'⟩
      · rw [hp, hq]
      · exact absurd (h.unique q m k hold' hold) hqm
    · rcases hother q k hk' with ⟨-, hold'⟩ | ⟨-, -, hold'⟩
      · exact absurd (h.unique p m k hold hold') hpm
      · exact h.unique p q k hold hold'
  · intro k hk
    rcases h.kept k hk with hd | ⟨p, hp⟩
    · exact .inl hd
    · by_cases hpm : p = m
      · refine .inr ⟨n, ?_⟩
        rw [update_of_ne hne, update_self, ← hpm, hp]
      · refine .inr ⟨p, ?_⟩
        rw [update_of_ne hpm, update_of_ne fun heq => ?_, hp]
        rw [heq, hn] at hp
        cases hp

end

end Ledger

end Handles
