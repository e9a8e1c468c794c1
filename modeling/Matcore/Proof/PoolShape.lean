import Matcore.Gpu.MemoryPool

/-!
# The containers of the memory pool

What the critical sections of `acquire` and `release` do to the containers, and that they keep the
shape.
-/

namespace Matcore.Gpu.MemoryPool.Pool

open List (sum nodup_cons mem_cons mem_map map_cons mem_cons_of_mem mem_cons_self map_nil
  mem_singleton)
open Function (update update_of_ne update_self)

variable {pool : Pool} {ptr candidate sizeBytes : ℕ} {entry : PooledEntry} {list rest : List ℕ}
  {order : List OrderNode} {event : Option ℕ}

/-- The size of the entry of an address. -/
def sizeOf (pool : Pool) (ptr : ℕ) : ℕ := ((pool.pooledEntries ptr).map (·.sizeBytes)).getD 0

/-- The bytes of the entries that a list of nodes names. -/
def bytesOf (pool : Pool) (order : List OrderNode) : ℕ := (order.map fun n => pool.sizeOf n.ptr).sum

/-- The containers agree, with a list of nodes as `pooled_order_`. -/
structure Shape (pool : Pool) (order : List OrderNode) : Prop where
  ptrs : (order.map (·.ptr)).Nodup
  names : (order.map (·.name)).Nodup
  inserted : ∀ n ∈ order, n.name < pool.nodes
  listed : ∀ p entry, pool.pooledEntries p = some entry → ⟨entry.orderIt, p⟩ ∈ order
  pooled : ∀ n ∈ order, (pool.pooledEntries n.ptr).isSome
  bytes : pool.pooledBytes = pool.bytesOf order
  small : pool.pooledBytes < 2 ^ 64
  sizes : ∀ p entry, pool.pooledEntries p = some entry →
    pool.allocationSizes p = some entry.sizeBytes

theorem wrap_sub {n k : ℕ} (hk : k ≤ n) (hn : n < 2 ^ 64) : wrap (n + (2 ^ 64 - k)) = n - k := by
  unfold wrap
  rw [show n + (2 ^ 64 - k) = n - k + 2 ^ 64 by omega, Nat.add_mod_right]
  exact Nat.mod_eq_of_lt (by omega)

theorem sizeOf_eq (h : pool.pooledEntries ptr = some entry) : pool.sizeOf ptr = entry.sizeBytes := by
  simp [sizeOf, h]

variable {pool' : Pool}

theorem bytesOf_congr (h : ∀ n ∈ order, pool'.pooledEntries n.ptr = pool.pooledEntries n.ptr) :
    pool'.bytesOf order = pool.bytesOf order := by
  unfold bytesOf
  exact congrArg sum (List.map_congr_left fun n hn => by simp only [sizeOf, h n hn])

theorem perm_erase {node : OrderNode} (hnames : (order.map (·.name)).Nodup) (hnode : node ∈ order) :
    order.Perm (node :: order.filter (·.name ≠ node.name)) := by
  induction order with
  | nil => cases hnode
  | cons head order ih =>
    obtain ⟨hhead, hrest⟩ := nodup_cons.1 hnames
    rcases mem_cons.1 hnode with rfl | hmem
    · rw [List.filter_cons_of_neg (by simp), List.filter_eq_self.2]
      intro n hn
      have hne : n.name ≠ node.name := fun he =>
        hhead (mem_map.2 ⟨n, hn, he⟩)
      simpa using hne
    · have hne : head.name ≠ node.name := fun he =>
        hhead (mem_map.2 ⟨node, hmem, he.symm⟩)
      rw [List.filter_cons_of_pos (by simpa using hne)]
      exact ((ih hrest hmem).cons head).trans (List.Perm.swap node head _)

namespace Shape

theorem mem_iff (h : pool.Shape order) :
    ptr ∈ order.map (·.ptr) ↔ (pool.pooledEntries ptr).isSome := by
  constructor
  · rintro hmem
    obtain ⟨n, hn, rfl⟩ := mem_map.1 hmem
    exact h.pooled n hn
  · intro hsome
    obtain ⟨entry, hentry⟩ := Option.isSome_iff_exists.1 hsome
    exact mem_map.2 ⟨_, h.listed ptr entry hentry, rfl⟩

theorem remove (h : pool.Shape order) (hentry : pool.pooledEntries ptr = some entry)
    (pool' : Pool) {order' : List OrderNode}
    (hperm : order.Perm (⟨entry.orderIt, ptr⟩ :: order'))
    (hentries : pool'.pooledEntries = update pool.pooledEntries ptr none)
    (hbytes : pool'.pooledBytes = wrap (pool.pooledBytes + (2 ^ 64 - entry.sizeBytes)))
    (hnodes : pool'.nodes = pool.nodes)
    (hsizes : ∀ p, p ≠ ptr → pool'.allocationSizes p = pool.allocationSizes p) :
    pool'.Shape order' ∧ pool'.pooledBytes ≤ pool.pooledBytes := by
  have hptrs := (hperm.map (·.ptr)).nodup_iff.1 h.ptrs
  have hnames := (hperm.map (·.name)).nodup_iff.1 h.names
  have hne : ∀ n ∈ order', n.ptr ≠ ptr := fun n hn he =>
    (nodup_cons.1 hptrs).1 (mem_map.2 ⟨n, hn, he⟩)
  have hother : ∀ p, p ≠ ptr → pool'.pooledEntries p = pool.pooledEntries p := fun p hp => by
    rw [hentries, update_of_ne hp]
  have hsum : pool.pooledBytes = entry.sizeBytes + pool.bytesOf order' := by
    rw [h.bytes, bytesOf, (hperm.map _).sum_eq, map_cons, List.sum_cons, sizeOf_eq hentry]
    rfl
  have hbytes' : pool'.pooledBytes = pool.pooledBytes - entry.sizeBytes := by
    rw [hbytes, wrap_sub (by omega) h.small]
  have hsmall := h.small
  refine ⟨⟨(nodup_cons.1 hptrs).2, (nodup_cons.1 hnames).2, ?_, ?_, ?_, ?_, by omega, ?_⟩,
    by omega⟩
  · intro n hn
    rw [hnodes]
    exact h.inserted n (hperm.symm.subset (mem_cons_of_mem _ hn))
  · intro p entry' hp
    have hpne : p ≠ ptr := by
      rintro rfl
      rw [hentries, update_self] at hp
      cases hp
    rw [hother p hpne] at hp
    rcases mem_cons.1 (hperm.subset (h.listed p entry' hp)) with he | hmem
    · exact absurd (congrArg OrderNode.ptr he) hpne
    · exact hmem
  · intro n hn
    rw [hother _ (hne n hn)]
    exact h.pooled n (hperm.symm.subset (mem_cons_of_mem _ hn))
  · rw [bytesOf_congr fun n hn => hother _ (hne n hn)]
    omega
  · intro p entry' hp
    have hpne : p ≠ ptr := by
      rintro rfl
      rw [hentries, update_self] at hp
      cases hp
    rw [hsizes p hpne]
    exact h.sizes p entry' (hother p hpne ▸ hp)

end Shape

theorem popValid_some (h : pool.popValid sizeBytes list = some (candidate, entry, rest)) :
    pool.pooledEntries candidate = some entry ∧ entry.sizeBytes = sizeBytes := by
  induction list with
  | nil => cases h
  | cons head list ih =>
    unfold popValid at h
    split at h
    · rename_i found hfound
      split at h
      · rename_i hsize
        obtain ⟨rfl, rfl, -⟩ := h
        exact ⟨hfound, hsize⟩
      · exact ih h
    · exact ih h

variable {answers : List (ℕ × QueryResult)}

/-- What the loop takes is pooled with the size asked for, and its fence, if it has one, was
answered otherwise than `CUDA_ERROR_NOT_READY`. -/
theorem scan_some (h : pool.scan sizeBytes answers list = some (some (candidate, entry), rest)) :
    pool.pooledEntries candidate = some entry ∧ entry.sizeBytes = sizeBytes ∧
      ∀ fence, entry.fenceEvent = some fence →
        (fence, .success) ∈ answers ∨ (fence, .error) ∈ answers := by
  induction answers generalizing list with
  | nil =>
    unfold scan at h
    split at h
    · simp at h
    · rename_i hpop
      split at h
      · rename_i hfence
        obtain ⟨⟨rfl, rfl⟩, -⟩ := h
        obtain ⟨hentry, hsize⟩ := popValid_some hpop
        exact ⟨hentry, hsize, fun fence hf => by rw [hfence] at hf; cases hf⟩
      · cases h
      · rename_i heq
        cases heq
  | cons answer answers ih =>
    unfold scan at h
    split at h
    · simp at h
    · rename_i hpop
      obtain ⟨hentry, hsize⟩ := popValid_some hpop
      split at h
      · simp at h
      · rename_i heq
        cases heq
      · rename_i fence event result answers' hfence heq
        cases heq
        split at h
        · cases h
        rename_i hevent
        split at h
        · obtain ⟨h1, h2, h3⟩ := ih h
          exact ⟨h1, h2, fun f hf => (h3 f hf).imp (mem_cons_of_mem _) (mem_cons_of_mem _)⟩
        rename_i hready
        split at h
        · simp only [Option.some.injEq, Prod.mk.injEq] at h
          obtain ⟨⟨rfl, rfl⟩, -⟩ := h
          refine ⟨hentry, hsize, fun f hf => ?_⟩
          obtain rfl : fence = f := Option.some.inj (hfence.symm.trans hf)
          obtain rfl : event = fence := not_not.1 hevent
          cases result
          · exact .inl mem_cons_self
          · exact absurd rfl hready
          · exact .inr mem_cons_self
        · cases h

/-- **The critical section of `acquire`** leaves the containers alone, or takes one entry of the
size asked for. -/
theorem acquireLocked_cases {taken : Option (ℕ × PooledEntry)}
    (h : pool.acquireLocked sizeBytes answers = some (pool', taken)) :
    (taken = none ∧ ∃ rest, pool' =
        { pool with freeLists := update pool.freeLists sizeBytes rest }) ∨
      ∃ candidate entry rest, taken = some (candidate, entry) ∧
        pool' = pool.take candidate entry rest ∧ pool.pooledEntries candidate = some entry ∧
        entry.sizeBytes = sizeBytes ∧ ∀ fence, entry.fenceEvent = some fence →
          (fence, .success) ∈ answers ∨ (fence, .error) ∈ answers := by
  unfold acquireLocked at h
  split at h
  · cases h
  · rename_i rest _
    cases h
    exact .inl ⟨rfl, rest, rfl⟩
  · rename_i candidate entry rest hscan
    cases h
    obtain ⟨hentry, hsize, hfence⟩ := scan_some hscan
    exact .inr ⟨candidate, entry, rest, rfl, rfl, hentry, hsize, hfence⟩

theorem shape_take (h : pool.Shape pool.pooledOrder)
    (hentry : pool.pooledEntries candidate = some entry) (rest : List ℕ) :
    (pool.take candidate entry rest).Shape (pool.take candidate entry rest).pooledOrder ∧
      (pool.take candidate entry rest).pooledBytes ≤ pool.pooledBytes :=
  h.remove hentry _ (perm_erase h.names (h.listed _ _ hentry)) rfl rfl rfl fun _ _ => rfl

theorem shape_push (h : pool.Shape pool.pooledOrder)
    (hnone : pool.pooledEntries ptr = none) (hsize : pool.allocationSizes ptr = some sizeBytes)
    (hbytes : pool.pooledBytes + sizeBytes < 2 ^ 64) :
    (pool.push ptr sizeBytes event).Shape (pool.push ptr sizeBytes event).pooledOrder := by
  set after := pool.push ptr sizeBytes event
  have hne : ∀ n ∈ pool.pooledOrder, n.ptr ≠ ptr := by
    intro n hn he
    have := h.pooled n hn
    rw [he, hnone] at this
    cases this
  have hother : ∀ p, p ≠ ptr → after.pooledEntries p = pool.pooledEntries p := fun p hp =>
    update_of_ne hp _ _
  have hself : after.pooledEntries ptr = some ⟨sizeBytes, pool.nodes, event⟩ := update_self ..
  refine ⟨?_, ?_, ?_, ?_, ?_, ?_, Nat.mod_lt _ (by decide), ?_⟩
  · simp only [after, push, List.map_append, map_cons, map_nil]
    refine List.Nodup.append h.ptrs (List.nodup_singleton _) ?_
    intro p hp hp'
    obtain ⟨n, hn, rfl⟩ := mem_map.1 hp
    exact hne n hn (mem_singleton.1 hp')
  · simp only [after, push, List.map_append, map_cons, map_nil]
    refine List.Nodup.append h.names (List.nodup_singleton _) ?_
    intro x hx hx'
    obtain ⟨n, hn, rfl⟩ := mem_map.1 hx
    exact (h.inserted n hn).ne (mem_singleton.1 hx')
  · intro n hn
    rcases List.mem_append.1 hn with hn | hn
    · exact (h.inserted n hn).trans (Nat.lt_succ_self _)
    · rw [mem_singleton.1 hn]
      exact Nat.lt_succ_self _
  · intro p entry hp
    by_cases hpp : p = ptr
    · subst hpp
      rw [hself] at hp
      cases hp
      exact List.mem_append_right _ (mem_singleton.2 rfl)
    · exact List.mem_append_left _ (h.listed p entry (hother p hpp ▸ hp))
  · intro n hn
    rcases List.mem_append.1 hn with hn | hn
    · rw [hother _ (hne n hn)]
      exact h.pooled n hn
    · rw [mem_singleton.1 hn, hself]
      rfl
  · have hold : after.bytesOf pool.pooledOrder = pool.pooledBytes := by
      rw [bytesOf_congr fun n hn => hother _ (hne n hn), h.bytes]
    have hnew : after.bytesOf [⟨pool.nodes, ptr⟩] = sizeBytes := by
      simp [bytesOf, sizeOf_eq hself]
    have happend : after.bytesOf after.pooledOrder =
        after.bytesOf pool.pooledOrder + after.bytesOf [⟨pool.nodes, ptr⟩] := by
      simp [after, bytesOf, push]
    rw [happend, hold, hnew]
    exact Nat.mod_eq_of_lt hbytes
  · intro p entry hp
    by_cases hpp : p = ptr
    · subst hpp
      rw [hself] at hp
      cases hp
      exact hsize
    · exact h.sizes p entry (hother p hpp ▸ hp)

/-- **The loop of `release`.** It drops a duplicate-free list of pooled addresses, with their
fences, and stops within the limit. -/
structure Evicted (pool left : Pool) (toFree events : List ℕ) : Prop where
  shape : left.Shape left.pooledOrder
  bounded : left.pooledBytes ≤ left.maxPooledBytes
  limit : left.maxPooledBytes = pool.maxPooledBytes
  nodup : toFree.Nodup
  victims : ∀ p ∈ toFree, (pool.pooledEntries p).isSome
  entries : ∀ p, left.pooledEntries p = if p ∈ toFree then none else pool.pooledEntries p
  sizes : ∀ p, left.allocationSizes p = if p ∈ toFree then none else pool.allocationSizes p
  fences : events = toFree.flatMap fun p => ((pool.pooledEntries p).bind (·.fenceEvent)).toList

theorem evict_spec (h : pool.Shape order) :
    Evicted pool (pool.evict order).1 (pool.evict order).2.1 (pool.evict order).2.2 := by
  induction order generalizing pool with
  | nil =>
    have hbytes : pool.pooledBytes = 0 := h.bytes
    have hshape : ({ pool with pooledOrder := [] } : Pool).Shape [] :=
      ⟨h.ptrs, h.names, h.inserted, h.listed, h.pooled, h.bytes, h.small, h.sizes⟩
    exact ⟨hshape, hbytes ▸ Nat.zero_le _, rfl, List.nodup_nil, by simp [evict],
      by simp [evict], by simp [evict], rfl⟩
  | cons victim order ih =>
    by_cases hle : pool.pooledBytes ≤ pool.maxPooledBytes
    · have hevict : pool.evict (victim :: order) =
          ({ pool with pooledOrder := victim :: order }, [], []) := by
        rw [evict, if_pos hle]
      have hshape : ({ pool with pooledOrder := victim :: order } : Pool).Shape (victim :: order) :=
        ⟨h.ptrs, h.names, h.inserted, h.listed, h.pooled, h.bytes, h.small, h.sizes⟩
      rw [hevict]
      exact ⟨hshape, hle, rfl, List.nodup_nil, by simp, by simp, by simp, rfl⟩
    · obtain ⟨entry, hentry⟩ := Option.isSome_iff_exists.1 (h.pooled victim mem_cons_self)
      have hnode : victim = ⟨entry.orderIt, victim.ptr⟩ := by
        have hlisted := h.listed _ _ hentry
        rcases mem_cons.1 hlisted with he | hmem
        · exact he.symm
        · exact absurd (List.mem_map_of_mem (f := (·.ptr)) hmem) (nodup_cons.1 h.ptrs).1
      let dropped := pool.drop victim.ptr entry
      have hdrop := (h.remove hentry dropped
        (List.Perm.of_eq (congrArg (· :: order) hnode)) rfl rfl rfl fun p hp => update_of_ne hp _ _).1
      -- the rest is evicted from the pool without the victim
      have ih := ih hdrop
      have hevict : pool.evict (victim :: order) =
          ((dropped.evict order).1, victim.ptr :: (dropped.evict order).2.1,
            entry.fenceEvent.toList ++ (dropped.evict order).2.2) := by
        rw [evict, if_neg hle]
        simp only [hentry, dropped]
      rw [hevict]
      have hself : dropped.pooledEntries victim.ptr = none := update_self ..
      have hother : ∀ p, p ≠ victim.ptr → dropped.pooledEntries p = pool.pooledEntries p :=
        fun p hp => update_of_ne hp _ _
      have hnot : victim.ptr ∉ (dropped.evict order).2.1 := by
        intro hmem
        have := ih.victims _ hmem
        rw [hself] at this
        cases this
      refine ⟨ih.shape, ih.bounded, ih.limit, nodup_cons.2 ⟨hnot, ih.nodup⟩, ?_, ?_, ?_, ?_⟩
      · intro p hp
        rcases mem_cons.1 hp with rfl | hp
        · rw [hentry]; rfl
        · have hpne : p ≠ victim.ptr := fun he => hnot (he ▸ hp)
          rw [← hother p hpne]
          exact ih.victims p hp
      · intro p
        rw [ih.entries p]
        by_cases hpp : p = victim.ptr
        · subst hpp
          simp [hself]
        · simp [hother p hpp, hpp]
      · intro p
        rw [ih.sizes p]
        by_cases hpp : p = victim.ptr
        · subst hpp
          simp [dropped, drop]
        · simp [dropped, drop, hpp]
      · rw [ih.fences, List.flatMap_cons, hentry]
        refine congrArg (_ ++ ·) (List.flatMap_congr fun p hp => ?_)
        have hpne : p ≠ victim.ptr := fun he => hnot (he ▸ hp)
        rw [hother p hpne]

end Matcore.Gpu.MemoryPool.Pool
