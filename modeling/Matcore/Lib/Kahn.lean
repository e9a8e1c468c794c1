import Mathlib.Algebra.Order.BigOperators.Group.Finset

/-!
# Kahn's algorithm

The nodes of a graph in an order in which every edge goes forward, and in levels without an edge
inside of one. `outgoing` lists the targets of a node, as often as there are edges to them.

* `order_spec`, `levels_spec`: with as many rounds as nodes, and edges along which a rank grows,
  every node comes out once, and no edge goes backward.
-/

namespace Kahn

open List (append_assoc mem_singleton nodup_append mem_toFinset)
open scoped BigOperators
open Function (update update_self update_of_ne)

variable {α : Type} [DecidableEq α]

/-- The edges to these targets are taken away. A node that has none left joins the others. -/
def relax (indegree : α → ℕ) (ready : List α) : List α → (α → ℕ) × List α
  | [] => (indegree, ready)
  | target :: targets =>
    let indegree := update indegree target (indegree target - 1)
    relax indegree (if indegree target = 0 then ready ++ [target] else ready) targets

variable (outgoing : α → List α)

/-- So many rounds of the algorithm with a queue. -/
def order : ℕ → (α → ℕ) → List α → List α
  | 0, _, _ => []
  | _ + 1, _, [] => []
  | rounds + 1, indegree, current :: ready =>
    let (indegree, ready) := relax indegree ready (outgoing current)
    current :: order rounds indegree ready

/-- So many rounds of the algorithm with a frontier, which is put in order in each of them. -/
def levels (sort : List α → List α) : ℕ → (α → ℕ) → List α → List (List α)
  | 0, _, _ => []
  | _ + 1, _, [] => []
  | rounds + 1, indegree, frontier@(_ :: _) =>
    let level := sort frontier
    let (indegree, next) := relax indegree [] (level.flatMap outgoing)
    level :: levels sort rounds indegree next

variable {outgoing}

/-- What holds between two rounds: `done` has come out, and `ready` has no edges left. -/
structure Inv (outgoing : α → List α) (nodes : Finset α) (done ready : List α)
    (indegree : α → ℕ) : Prop where
  nodup : (done ++ ready).Nodup
  within : ∀ d ∈ done ++ ready, d ∈ nodes
  degree : ∀ d, indegree d = ∑ s ∈ nodes \ done.toFinset, (outgoing s).count d
  ready : ∀ d ∈ nodes, d ∈ done ++ ready ↔ indegree d = 0

variable {nodes : Finset α} {done ready : List α} {indegree : α → ℕ}

theorem Inv.perm {ready' : List α} (h : Inv outgoing nodes done ready indegree)
    (hperm : ready.Perm ready') : Inv outgoing nodes done ready' indegree := by
  have hall : (done ++ ready).Perm (done ++ ready') := hperm.append_left done
  exact ⟨hall.nodup_iff.1 h.nodup, fun d hd => h.within d (hall.mem_iff.2 hd), h.degree,
    fun d hd => by rw [← hall.mem_iff]; exact h.ready d hd⟩

/-- **Taking edges away.** -/
theorem relax_spec {base : α → ℕ} {targets : List α}
    (hdegree : ∀ d, indegree d = base d + targets.count d) (htargets : ∀ d ∈ targets, d ∈ nodes)
    (hnodup : (done ++ ready).Nodup) (hwithin : ∀ d ∈ done ++ ready, d ∈ nodes)
    (hready : ∀ d ∈ nodes, d ∈ done ++ ready ↔ indegree d = 0) :
    (∀ d, (relax indegree ready targets).1 d = base d) ∧
      (done ++ (relax indegree ready targets).2).Nodup ∧
      (∀ d ∈ done ++ (relax indegree ready targets).2, d ∈ nodes) ∧
      ∀ d ∈ nodes, d ∈ done ++ (relax indegree ready targets).2 ↔
        (relax indegree ready targets).1 d = 0 := by
  induction targets generalizing indegree ready with
  | nil => exact ⟨fun d => by simpa [relax] using hdegree d, hnodup, hwithin, hready⟩
  | cons target targets ih =>
    have htarget := htargets target List.mem_cons_self
    have hpos : indegree target = base target + (targets.count target + 1) := by
      simpa using hdegree target
    -- the target has an edge left, so that it has not been found before
    have hnew : target ∉ done ++ ready := by
      rw [hready target htarget]
      omega
    have hdegree' : ∀ d, update indegree target (indegree target - 1) d =
        base d + targets.count d := by
      intro d
      by_cases hd : d = target
      · subst hd
        rw [update_self]
        omega
      · rw [update_of_ne hd, hdegree d, List.count_cons_of_ne (Ne.symm hd)]
    have hrest : ∀ d ∈ targets, d ∈ nodes := fun d hd => htargets d (List.mem_cons_of_mem _ hd)
    have hother : ∀ d, d ≠ target →
        update indegree target (indegree target - 1) d = indegree d := fun d hd =>
      update_of_ne hd _ _
    unfold relax
    simp only [update_self]
    split
    · rename_i hzero
      refine ih hdegree' hrest ?_ ?_ ?_
      · rw [← append_assoc]
        exact hnodup.append (List.nodup_singleton target)
          (List.disjoint_singleton.2 hnew)
      · intro d hd
        rw [← append_assoc, List.mem_append, mem_singleton] at hd
        rcases hd with hd | rfl
        · exact hwithin d hd
        · exact htarget
      · intro d hd
        rw [← append_assoc, List.mem_append, mem_singleton]
        by_cases hdt : d = target
        · subst hdt
          simp [hzero]
        · simp [hdt, ← hready d hd]
    · rename_i hzero
      refine ih hdegree' hrest hnodup hwithin fun d hd => ?_
      by_cases hdt : d = target
      · subst hdt
        simp [hzero, hnew]
      · rw [hother d hdt]
        exact hready d hd

/-- **One round.** A batch of nodes that have no edges left comes out. -/
theorem advance (batch : List α) {rest : List α} (h : Inv outgoing nodes done (batch ++ rest) indegree)
    (hforward : ∀ s ∈ nodes, ∀ d ∈ outgoing s, d ∈ nodes) :
    Inv outgoing nodes (done ++ batch) (relax indegree rest (batch.flatMap outgoing)).2
      (relax indegree rest (batch.flatMap outgoing)).1 := by
  have hnodup := h.nodup
  rw [← append_assoc] at hnodup
  have hdone : (done ++ batch).Nodup := (nodup_append.1 hnodup).1
  have hbatch : batch.Nodup := (nodup_append.1 hdone).2.1
  have hsub : batch.toFinset ⊆ nodes \ done.toFinset := by
    intro s hs
    rw [mem_toFinset] at hs
    rw [Finset.mem_sdiff, mem_toFinset]
    refine ⟨h.within s (List.mem_append_right _ (List.mem_append_left _ hs)), fun hd => ?_⟩
    exact (nodup_append.1 hdone).2.2 s hd s hs rfl
  have hleft : (nodes \ done.toFinset) \ batch.toFinset = nodes \ (done ++ batch).toFinset := by
    ext s
    simp [not_or, and_assoc]
  -- the edges of the batch are the ones that are taken away
  have hdegree : ∀ d, indegree d =
      (∑ s ∈ nodes \ (done ++ batch).toFinset, (outgoing s).count d) +
        (batch.flatMap outgoing).count d := by
    intro d
    have hedges : (batch.flatMap outgoing).count d = ∑ s ∈ batch.toFinset, (outgoing s).count d := by
      rw [List.count_flatMap, List.sum_toFinset _ hbatch]
      rfl
    rw [h.degree d, hedges, ← hleft, Finset.sum_sdiff hsub]
  have htargets : ∀ d ∈ batch.flatMap outgoing, d ∈ nodes := by
    intro d hd
    obtain ⟨s, hs, hd⟩ := List.mem_flatMap.1 hd
    exact hforward s (Finset.mem_sdiff.1 (hsub (mem_toFinset.2 hs))).1 d hd
  obtain ⟨hbase, hnodup', hwithin', hready'⟩ := relax_spec hdegree htargets hnodup
    (fun d hd => h.within d (by rwa [append_assoc] at hd))
    (fun d hd => by rw [append_assoc]; exact h.ready d hd)
  exact ⟨hnodup', hwithin', hbase, hready'⟩

/-- A node that has come out, or can, has no edge from one that has not. -/
theorem Inv.no_edge (h : Inv outgoing nodes done ready indegree) {s d : α}
    (hd : d ∈ done ++ ready) (hs : s ∈ nodes) (hnot : s ∉ done) : d ∉ outgoing s := by
  intro hedge
  have hzero := (h.ready d (h.within d hd)).1 hd
  rw [h.degree d, Finset.sum_eq_zero_iff] at hzero
  have hcount := hzero s (Finset.mem_sdiff.2 ⟨hs, by rwa [mem_toFinset]⟩)
  exact absurd hedge (List.count_eq_zero.1 hcount)

/-- Where nothing can come out any more, everything has. -/
theorem Inv.complete (h : Inv outgoing nodes done [] indegree) {rank : α → ℕ}
    (hrank : ∀ s ∈ nodes, ∀ d ∈ outgoing s, rank s < rank d) {d : α} (hd : d ∈ nodes) : d ∈ done := by
  induction hn : rank d using Nat.strong_induction_on generalizing d with
  | _ n ih =>
    have hzero : indegree d = 0 := by
      rw [h.degree d, Finset.sum_eq_zero_iff]
      intro s hs
      obtain ⟨hs, hnot⟩ := Finset.mem_sdiff.1 hs
      rw [mem_toFinset] at hnot
      refine List.count_eq_zero.2 fun hedge => hnot ?_
      exact ih (rank s) (hn ▸ hrank s hs d hedge) hs rfl
    simpa using (h.ready d hd).2 hzero

/-- With as many rounds left as nodes, the last one leaves nothing. -/
theorem Inv.ready_nil (h : Inv outgoing nodes done ready indegree)
    (hrounds : nodes.card ≤ done.length) : ready = [] := by
  have hcard : (done ++ ready).toFinset.card ≤ nodes.card :=
    Finset.card_le_card fun d hd => h.within d (mem_toFinset.1 hd)
  rw [List.toFinset_card_of_nodup h.nodup, List.length_append] at hcard
  exact List.length_eq_zero_iff.1 (by omega)

/-- What comes out: every node once, and no edge goes backward. -/
structure Sorted (outgoing : α → List α) (nodes : Finset α) (done : List α) : Prop where
  nodup : done.Nodup
  all : ∀ d, d ∈ done ↔ d ∈ nodes
  forward : done.Pairwise fun x y => x ∉ outgoing y

section

variable (rank : α → ℕ) (hforward : ∀ s ∈ nodes, ∀ d ∈ outgoing s, d ∈ nodes)
  (hrank : ∀ s ∈ nodes, ∀ d ∈ outgoing s, rank s < rank d)

include hforward hrank

omit hforward in
theorem Inv.sorted (h : Inv outgoing nodes done [] indegree)
    (hdone : done.Pairwise fun x y => x ∉ outgoing y) : Sorted outgoing nodes done where
  nodup := by simpa using h.nodup
  all d := ⟨fun hd => h.within d (by simpa using hd), h.complete hrank⟩
  forward := hdone

theorem order_sorted {rounds : ℕ} (h : Inv outgoing nodes done ready indegree)
    (hdone : done.Pairwise fun x y => x ∉ outgoing y)
    (hrounds : nodes.card ≤ done.length + rounds) :
    Sorted outgoing nodes (done ++ order outgoing rounds indegree ready) := by
  induction rounds generalizing done ready indegree with
  | zero =>
    have hready := h.ready_nil hrounds
    subst hready
    simpa [order] using h.sorted rank hrank hdone
  | succ rounds ih =>
    cases ready with
    | nil => simpa [order] using h.sorted rank hrank hdone
    | cons current ready =>
      have hnext := advance [current] h hforward
      rw [List.flatMap_singleton] at hnext
      have hcurrent : current ∈ nodes := h.within current (by simp)
      have hnot : current ∉ done := fun hd =>
        (nodup_append.1 h.nodup).2.2 current hd current List.mem_cons_self rfl
      have hpairs : (done ++ [current]).Pairwise fun x y => x ∉ outgoing y := by
        refine List.pairwise_append.2 ⟨hdone, List.pairwise_singleton _ _, ?_⟩
        intro x hx y hy
        rw [mem_singleton.1 hy]
        exact h.no_edge (List.mem_append_left _ hx) hcurrent hnot
      have hrest := ih hnext hpairs (by simp; omega)
      rwa [append_assoc] at hrest

theorem levels_sorted {sort : List α → List α} (hsort : ∀ l, (sort l).Perm l) {rounds : ℕ}
    (h : Inv outgoing nodes done ready indegree) (hrounds : nodes.card ≤ done.length + rounds) :
    (done ++ (levels outgoing sort rounds indegree ready).flatten).Nodup ∧
      (∀ d, d ∈ done ++ (levels outgoing sort rounds indegree ready).flatten ↔ d ∈ nodes) ∧
      ∀ level ∈ levels outgoing sort rounds indegree ready,
        ∀ x ∈ level, ∀ y ∈ level, x ∉ outgoing y := by
  induction rounds generalizing done ready indegree with
  | zero =>
    have hready := h.ready_nil hrounds
    subst hready
    have hnodup := h.nodup
    simp only [levels, List.flatten_nil]
    exact ⟨hnodup, fun d => ⟨h.within d, fun hd => by simpa using h.complete hrank hd⟩, nofun⟩
  | succ rounds ih =>
    cases ready with
    | nil =>
      simp only [levels, List.flatten_nil]
      exact ⟨h.nodup, fun d => ⟨h.within d, fun hd => by simpa using h.complete hrank hd⟩, nofun⟩
    | cons first frontier =>
      have hperm := hsort (first :: frontier)
      have hbatch : Inv outgoing nodes done (sort (first :: frontier) ++ []) indegree := by
        rw [List.append_nil]
        exact h.perm hperm.symm
      have hnext := advance _ hbatch hforward
      have hlength : (sort (first :: frontier)).length = frontier.length + 1 := hperm.length_eq
      obtain ⟨hnodup, hall, hlevels⟩ := ih hnext (by rw [List.length_append]; omega)
      simp only [levels, List.flatten_cons]
      rw [append_assoc] at hnodup
      refine ⟨hnodup, fun d => ?_, fun level hlevel => ?_⟩
      · rw [← hall d, append_assoc]
      · rcases List.mem_cons.1 hlevel with rfl | hlevel
        · intro x hx y hy
          rw [List.append_nil] at hbatch
          refine hbatch.no_edge (List.mem_append_right _ hx)
            (hbatch.within y (List.mem_append_right _ hy)) fun hd => ?_
          exact (nodup_append.1 hbatch.nodup).2.2 y hd y hy rfl
        · exact hlevels level hlevel

end

theorem inv_start {all : List α} (hnodup : all.Nodup)
    (hdegree : ∀ d, indegree d = ∑ s ∈ all.toFinset, (outgoing s).count d) :
    Inv outgoing all.toFinset [] (all.filter fun d => indegree d = 0) indegree := by
  refine ⟨by simpa using hnodup.filter _, fun d hd => ?_, fun d => ?_, fun d hd => ?_⟩
  · simp only [List.nil_append, List.mem_filter] at hd
    exact mem_toFinset.2 hd.1
  · simpa using hdegree d
  · rw [mem_toFinset] at hd
    simp [hd]

end Kahn
