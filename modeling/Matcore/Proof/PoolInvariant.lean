import Matcore.Proof.PoolShape

/-!
# Who has an address, and who has a fence

What the parts of a step do to `Inv`.
-/

namespace Matcore.Gpu.MemoryPool

open Function (update_of_ne update update_self)

/-- Two allocations that share no byte. -/
def Apart (a b : ℕ × ℕ) : Prop := a.1 + a.2 ≤ b.1 ∨ b.1 + b.2 ≤ a.1

/-- What the driver guarantees of the live allocations. -/
structure Memory (device : Device) : Prop where
  apart : ∀ a ∈ device.allocations, ∀ b ∈ device.allocations, a ≠ b → Apart a b
  within : ∀ a ∈ device.allocations, 0 < a.1 ∧ 0 < a.2 ∧ a.1 + a.2 ≤ 2 ^ 64

namespace Memory

variable {device : Device} {ptr n m : ℕ}

section

variable (h : Memory device)

include h

theorem size_unique (hn : (ptr, n) ∈ device.allocations) (hm : (ptr, m) ∈ device.allocations) :
    n = m := by
  by_contra hne
  have hn' := (h.within _ hn).2.1
  have hm' := (h.within _ hm).2.1
  rcases h.apart _ hn _ hm (by simpa using hne) with ha | ha <;> simp only at ha hn' hm' <;> omega

theorem sizeOf_eq (hn : (ptr, n) ∈ device.allocations) : device.sizeOf ptr = n := by
  unfold Device.sizeOf
  cases hl : device.allocations.lookup ptr with
  | none => exact absurd hn (by simpa using List.lookup_eq_none_iff.1 hl (ptr, n))
  | some m =>
    obtain ⟨l, r, hlr, -⟩ := List.lookup_eq_some_iff.1 hl
    exact h.size_unique (hlr ▸ List.mem_append_right _ List.mem_cons_self) hn

theorem sum_lt {l : List (ℕ × ℕ)} (hnodup : l.Nodup) (hlive : ∀ a ∈ l, a ∈ device.allocations) :
    (l.map (·.2)).sum < 2 ^ 64 := by
  have hdisjoint : Set.PairwiseDisjoint (l.toFinset : Set (ℕ × ℕ))
      fun a => Finset.Ico a.1 (a.1 + a.2) := by
    intro a ha b hb hne
    have ha' := hlive a (List.mem_toFinset.1 ha)
    have hb' := hlive b (List.mem_toFinset.1 hb)
    refine Finset.disjoint_left.2 fun x hx hx' => ?_
    rw [Finset.mem_Ico] at hx hx'
    rcases h.apart a ha' b hb' hne with h | h <;> omega
  have hsubset : l.toFinset.biUnion (fun a => Finset.Ico a.1 (a.1 + a.2)) ⊆
      Finset.Ico 1 (2 ^ 64) := by
    intro x hx
    obtain ⟨a, ha, hx⟩ := Finset.mem_biUnion.1 hx
    have := h.within a (hlive a (List.mem_toFinset.1 ha))
    rw [Finset.mem_Ico] at hx ⊢
    omega
  have hsum : (l.map (·.2)).sum =
      (l.toFinset.biUnion fun a => Finset.Ico a.1 (a.1 + a.2)).card := by
    rw [← List.sum_toFinset _ hnodup, Finset.card_biUnion hdisjoint]
    exact Finset.sum_congr rfl fun a _ => by rw [Nat.card_Ico]; omega
  have hcard := Finset.card_le_card hsubset
  rw [Nat.card_Ico] at hcard
  omega

theorem allocate (hn : 0 < n) (hvacant : device.vacant ptr n = true) :
    Memory { device with allocations := (ptr, n) :: device.allocations } := by
  simp only [Device.vacant, Bool.and_eq_true, decide_eq_true_eq, List.all_eq_true,
    Bool.or_eq_true] at hvacant
  obtain ⟨⟨hptr, hend⟩, hapart⟩ := hvacant
  constructor
  · intro a ha b hb hne
    rcases List.mem_cons.1 ha with rfl | ha <;> rcases List.mem_cons.1 hb with rfl | hb
    · exact absurd rfl hne
    · exact (hapart b hb).symm
    · exact hapart a ha
    · exact h.apart a ha b hb hne
  · refine List.forall_mem_cons.2 ⟨?_, h.within⟩
    exact ⟨Nat.pos_of_ne_zero hptr, hn, hend⟩

theorem not_live (hn : 0 < n) (hvacant : device.vacant ptr n = true) :
    (ptr, m) ∉ device.allocations := by
  simp only [Device.vacant, Bool.and_eq_true, decide_eq_true_eq, List.all_eq_true,
    Bool.or_eq_true] at hvacant
  intro hmem
  have := (h.within _ hmem).2.1
  rcases hvacant.2 _ hmem with hle | hle <;> simp only at hle this <;> omega

theorem free (p : ℕ × ℕ → Bool) :
    Memory { device with allocations := device.allocations.filter p } :=
  ⟨fun a ha b hb => h.apart a (List.mem_of_mem_filter ha) b (List.mem_of_mem_filter hb),
    fun a ha => h.within a (List.mem_of_mem_filter ha)⟩

end

end Memory

/-- Who has a live address. -/
inductive Owner where
  | pool
  | holder (c : ℕ)
  | call (c : ℕ)

/-- Where an event is: with the call that created it, in an entry, with the call that took the
entry out of the pool, destroyed, or lost in a call that failed. -/
inductive Place where
  | unborn
  | made (c : ℕ)
  | entry (ptr : ℕ)
  | taken (c : ℕ)
  | destroyed
  | lost
  deriving DecidableEq

/-- The memory that `acquire` returns is of the size asked for, and no work that was queued on the
stream of its last release is outstanding. -/
def Source.Serves (sizeBytes : ℕ) : Source → Prop
  | fresh bytes => bytes = sizeBytes
  | pooled bytes _ queued completed => bytes = sizeBytes ∧ queued ≤ completed

/-- The thread took an entry with this fence out of the pool, and has yet to destroy the fence. -/
def Pc.owes (event : ℕ) : Pc → Prop
  | handing _ _ e _ => e = event
  | clearing _ events => event ∈ events
  | idle | scanning _ | allocating _ | recording _ _ | creating _ _ | marking _ _ _
  | pooling _ _ _ => False

section

variable (s : State) (owner : ℕ → Option Owner) (place : ℕ → Place) (c : ℕ)

/-- What a call of `release` knows of its address. -/
def Releasing (ptr : ℕ) (released : Released) : Prop :=
  released.queued ≤ s.device.queued released.stream ∧
    (released.held = true → owner ptr = some (.call c) ∧ (s.pool.allocationSizes ptr).isSome)

/-- What a thread has in its hands. -/
def Carries : Pc → Prop
  | .idle => True
  | .scanning n | .allocating n => 0 < n
  | .handing n ptr event source => owner ptr = some (.call c) ∧
      (s.pool.allocationSizes ptr).isSome ∧ place event = .taken c ∧ source.Serves n
  | .recording n ptr => owner ptr = some (.call c) ∧ (ptr, n) ∈ s.device.allocations
  | .creating ptr released => Releasing s owner c ptr released
  | .marking ptr event released => Releasing s owner c ptr released ∧ place event = .made c
  | .pooling ptr event released => Releasing s owner c ptr released ∧
      ∀ e, event = some e → place e = .made c ∧
        ∃ items, s.device.recorded e = some (released.stream, items) ∧ released.queued ≤ items
  | .clearing toFree events => toFree.Nodup ∧
      (∀ p ∈ toFree, owner p = some (.call c) ∧ s.pool.allocationSizes p = none) ∧
      events.Nodup ∧ ∀ e ∈ events, place e = .taken c

/-- The fence of an entry covers the work queued before the release of its address; without a
fence, none of it is outstanding. -/
def Marked (ptr : ℕ) (entry : PooledEntry) : Prop :=
  match entry.fenceEvent with
  | none => (s.released ptr).queued ≤ s.device.completed (s.released ptr).stream
  | some event => ∃ items, s.device.recorded event = some ((s.released ptr).stream, items) ∧
      (s.released ptr).queued ≤ items

end

/-- A live address is in the pool, with one holder or in one call in progress; a fence is with one
call, in one entry or destroyed once; and the fence of an entry was recorded behind the work queued
before the release of its address. -/
structure Inv (es : List Event) (s : State) (owner : ℕ → Option Owner) (place : ℕ → Place) :
    Prop where
  shape : s.pool.Shape s.pool.pooledOrder
  memory : Memory s.device
  sized : ∀ p n, s.pool.allocationSizes p = some n → (p, n) ∈ s.device.allocations
  owned : ∀ p o, owner p = some o → ∃ n, (p, n) ∈ s.device.allocations
  pooled : ∀ p, (s.pool.pooledEntries p).isSome → owner p = some .pool
  held : ∀ p c, c ∈ s.holders p →
    owner p = some (.holder c) ∧ (s.pool.allocationSizes p).isSome
  single : ∀ p, (s.holders p).length ≤ 1
  threads : ∀ c, Carries s owner place c (s.threads c)
  marked : ∀ p entry, s.pool.pooledEntries p = some entry → Marked s p entry
  entries : ∀ p entry e, s.pool.pooledEntries p = some entry → entry.fenceEvent = some e →
    place e = .entry p
  unborn : ∀ e, s.device.events ≤ e → place e = .unborn
  placed : ∀ p e, place e = .entry p →
    ∃ entry, s.pool.pooledEntries p = some entry ∧ entry.fenceEvent = some e
  owed : ∀ c e, place e = .taken c → (s.threads c).owes e
  counted : ∀ e, es.count (.destroyed e) = if place e = .destroyed then 1 else 0
  fenced : ∀ e, .fenced e ∈ es → place e ≠ .unborn ∧ place e ≠ .lost ∧ ∀ c, place e ≠ .made c
  served : ∀ c n p source, .acquired c n p source ∈ es → source.Serves n

theorem inv_init (limit : ℕ) : Inv [] (init limit) (fun _ => none) (fun _ => .unborn) where
  shape := ⟨List.nodup_nil, List.nodup_nil, nofun, nofun, nofun, rfl, Nat.two_pow_pos 64,
    nofun⟩
  memory := ⟨nofun, nofun⟩
  sized := nofun
  owned := nofun
  pooled := nofun
  held := nofun
  single _ := Nat.zero_le _
  threads _ := trivial
  marked := nofun
  entries := nofun
  unborn _ _ := rfl
  placed := nofun
  owed := nofun
  counted _ := rfl
  fenced := nofun
  served := nofun

namespace Inv

variable {es : List Event} {s : State} {owner : ℕ → Option Owner} {place : ℕ → Place}
  {c d ptr n : ℕ} {entry : PooledEntry}

variable {place' : ℕ → Place} {owner' : ℕ → Option Owner}

theorem frame {s' : State} {pc : Pc} (h : Carries s owner place d pc)
    (howner : ∀ p, owner p = some (.call d) → owner' p = some (.call d) ∧
      s'.pool.allocationSizes p = s.pool.allocationSizes p ∧
      ∀ n, (p, n) ∈ s.device.allocations → (p, n) ∈ s'.device.allocations)
    (hplace : ∀ e, place e = .made d ∨ place e = .taken d → place' e = place e ∧
      s'.device.recorded e = s.device.recorded e)
    (hqueued : ∀ stream, s.device.queued stream ≤ s'.device.queued stream) :
    Carries s' owner' place' d pc := by
  have hreleasing : ∀ ptr released, Releasing s owner d ptr released →
      Releasing s' owner' d ptr released := by
    rintro ptr released ⟨hq, hheld⟩
    refine ⟨hq.trans (hqueued _), fun hr => ?_⟩
    obtain ⟨ho, hs⟩ := hheld hr
    exact ⟨(howner ptr ho).1, by rw [(howner ptr ho).2.1]; exact hs⟩
  cases pc with
  | idle => trivial
  | scanning n => exact h
  | allocating n => exact h
  | handing n ptr event source =>
    obtain ⟨ho, hs, hp, hserves⟩ := h
    exact ⟨(howner ptr ho).1, by rw [(howner ptr ho).2.1]; exact hs,
      (hplace event (.inr hp)).1.trans hp, hserves⟩
  | recording n ptr => exact ⟨(howner ptr h.1).1, (howner ptr h.1).2.2 n h.2⟩
  | creating ptr released => exact hreleasing _ _ h
  | marking ptr event released =>
    exact ⟨hreleasing _ _ h.1, (hplace event (.inl h.2)).1.trans h.2⟩
  | pooling ptr event released =>
    refine ⟨hreleasing _ _ h.1, fun e he => ?_⟩
    obtain ⟨hp, items, hrecorded, hitems⟩ := h.2 e he
    exact ⟨(hplace e (.inl hp)).1.trans hp, items,
      (hplace e (.inl hp)).2.trans hrecorded, hitems⟩
  | clearing toFree events =>
    obtain ⟨hnodup, hfree, hnodup', hevents⟩ := h
    refine ⟨hnodup, fun p hp => ?_, hnodup', fun e he => ?_⟩
    · obtain ⟨ho, hs⟩ := hfree p hp
      exact ⟨(howner p ho).1, (howner p ho).2.1.trans hs⟩
    · exact (hplace e (.inr (hevents e he))).1.trans (hevents e he)

/-- The events of a step that neither frees a fence nor breaks what the others say. -/
theorem emit (h : Inv es s owner place) (es' : List Event) (hdestroyed : ∀ e, .destroyed e ∉ es')
    (hfenced : ∀ e, .fenced e ∈ es' → ∃ p, place e = .entry p)
    (hserved : ∀ c n p source, .acquired c n p source ∈ es' → source.Serves n) :
    Inv (es ++ es') s owner place :=
  { h with
    counted := fun e => by
      rw [List.count_append, List.count_eq_zero.2 (hdestroyed e), Nat.add_zero]
      exact h.counted e
    fenced := fun e he => by
      rcases List.mem_append.1 he with he | he
      · exact h.fenced e he
      · obtain ⟨p, hp⟩ := hfenced e he
        simp [hp]
    served := fun c n p source he =>
      (List.mem_append.1 he).elim (h.served c n p source) (hserved c n p source) }

theorem goto (h : Inv es s owner place) (pc : Pc) (hcarries : Carries s owner place c pc)
    (howed : ∀ e, place e = .taken c → pc.owes e) : Inv es (s.goto c pc) owner place :=
  { h with
    threads := fun d => by
      by_cases hd : d = c
      · subst hd
        simpa [State.goto, Carries, Releasing] using hcarries
      · simpa [State.goto, update_of_ne hd, Carries, Releasing] using h.threads d
    owed := fun d e he => by
      by_cases hd : d = c
      · subst hd
        simpa [State.goto] using howed e he
      · simpa [State.goto, update_of_ne hd] using h.owed d e he }

theorem acquired (h : Inv es s owner place) (c ptr : ℕ) {source : Source}
    (hserves : source.Serves n) :
    Inv (es ++ [.acquired c n ptr source]) s owner place := by
  refine h.emit _ (by simp) (by simp) ?_
  intro c' n' p' source' hmem
  simp only [List.mem_singleton, Event.acquired.injEq] at hmem
  obtain ⟨-, rfl, -, rfl⟩ := hmem
  exact hserves

theorem ne_of_owner {o o' : Owner} {p : ℕ} (howner : owner ptr = some o') (ho : owner p = some o)
    (hne : o ≠ o') : p ≠ ptr := by
  rintro rfl
  rw [howner] at ho
  exact hne (Option.some.inj ho).symm

theorem give (h : Inv es s owner place) (howner : owner ptr = some (.call c))
    (hsome : (s.pool.allocationSizes ptr).isSome) (howed : ∀ e, place e ≠ .taken c) :
    Inv es (s.give c ptr) (update owner ptr (some (.holder c))) place := by
  have hnone : s.holders ptr = [] := by
    refine List.eq_nil_iff_forall_not_mem.2 fun d hd => ?_
    have := (h.held ptr d hd).1
    rw [howner] at this
    cases this
  have hother : ∀ p o, owner p = some o → (∀ d, o ≠ .call d ∨ d ≠ c) →
      update owner ptr (some (.holder c)) p = some o := by
    intro p o ho hne
    rw [update_of_ne ?_, ho]
    rintro rfl
    rw [howner] at ho
    cases ho
    exact (hne c).elim (· rfl) (· rfl)
  exact { h with
    owned := fun p o ho => by
      by_cases hp : p = ptr
      · exact h.owned p _ (hp ▸ howner)
      · exact h.owned p o (by rwa [update_of_ne hp] at ho)
    pooled := fun p hp => hother p _ (h.pooled p hp) fun d => .inl nofun
    held := fun p d hd => by
      by_cases hp : p = ptr
      · subst hp
        simp only [State.give, update_self, hnone, List.mem_singleton] at hd
        subst hd
        exact ⟨update_self .., hsome⟩
      · simp only [State.give, update_of_ne hp] at hd
        rw [update_of_ne hp]
        exact h.held p d hd
    single := fun p => by
      by_cases hp : p = ptr
      · subst hp
        simp [State.give, hnone]
      · simpa [State.give, update_of_ne hp] using h.single p
    threads := fun d => by
      by_cases hd : d = c
      · subst hd
        simp [State.give, State.goto, Carries]
      · simp only [State.give, State.goto, update_of_ne hd]
        exact frame (h.threads d)
          (fun p hp => ⟨hother p _ hp fun x => by
            by_cases hx : x = d
            · exact .inr (hx ▸ hd)
            · exact .inl fun he => hx (Owner.call.inj he).symm, rfl, fun _ => id⟩)
          (fun _ _ => ⟨rfl, rfl⟩) fun _ => le_rfl
    owed := fun d e he => by
      by_cases hd : d = c
      · exact absurd (hd ▸ he) (howed e)
      · simpa [State.give, State.goto, update_of_ne hd] using h.owed d e he }

/-- The fences of some pooled addresses. -/
def fencesOf (pool : Pool) (gone : List ℕ) : List ℕ :=
  gone.flatMap fun p => ((pool.pooledEntries p).bind (·.fenceEvent)).toList

variable {pool : Pool} {gone : List ℕ}

theorem mem_fencesOf {e : ℕ} :
    e ∈ fencesOf pool gone ↔
      ∃ p ∈ gone, ∃ entry, pool.pooledEntries p = some entry ∧ entry.fenceEvent = some e := by
  simp [fencesOf, List.mem_flatMap, Option.bind_eq_some_iff]

theorem fencesOf_nodup (h : Inv es s owner place) (hnodup : gone.Nodup) :
    (fencesOf s.pool gone).Nodup := by
  refine List.nodup_flatMap.2 ⟨fun p _ => Option.toList_nodup _, ?_⟩
  refine hnodup.imp fun {p q} hne e hp hq => hne ?_
  simp only [Option.mem_toList, Option.bind_eq_some_iff] at hp hq
  obtain ⟨entry, hentry, hfence⟩ := hp
  obtain ⟨entry', hentry', hfence'⟩ := hq
  have hplace := h.entries p entry e hentry hfence
  rw [h.entries q entry' e hentry' hfence'] at hplace
  exact (Place.entry.inj hplace).symm

theorem leave (h : Inv es s owner place) (gone : List ℕ) (threads : ℕ → Pc)
    (hshape : pool.Shape pool.pooledOrder) (hgone : ∀ p ∈ gone, (s.pool.pooledEntries p).isSome)
    (hentries : ∀ p, pool.pooledEntries p = if p ∈ gone then none else s.pool.pooledEntries p)
    (hsizes : ∀ p, p ∉ gone → pool.allocationSizes p = s.pool.allocationSizes p)
    (hsub : ∀ p n, pool.allocationSizes p = some n → s.pool.allocationSizes p = some n)
    (howner : ∀ p, owner' p = if p ∈ gone then some (.call c) else owner p)
    (hplace : ∀ e, place' e = if e ∈ fencesOf s.pool gone then .taken c else place e)
    (hthreads : ∀ d, d ≠ c → threads d = s.threads d)
    (hcarries : Carries { s with pool, threads } owner' place' c (threads c))
    (howed : ∀ e, place' e = .taken c → (threads c).owes e) :
    Inv es { s with pool, threads } owner' place' := by
  have hpooled : ∀ p ∈ gone, owner p = some .pool := fun p hp => h.pooled p (hgone p hp)
  -- what leaves was the pool's, so nothing that a call holds changes
  have hkept : ∀ p o, owner p = some o → o ≠ .pool → p ∉ gone := by
    intro p o ho hne hp
    rw [hpooled p hp] at ho
    exact hne (Option.some.inj ho).symm
  have hfence : ∀ e ∈ fencesOf s.pool gone, ∃ p ∈ gone, place e = .entry p := by
    intro e he
    obtain ⟨p, hp, entry, hentry, hf⟩ := mem_fencesOf.1 he
    exact ⟨p, hp, h.entries p entry e hentry hf⟩
  have hsame : ∀ e q, place e = q → (∀ p, q ≠ .entry p) → place' e = q := by
    intro e q he hne
    rw [hplace, if_neg, he]
    intro hmem
    obtain ⟨p, -, hp⟩ := hfence e hmem
    exact hne p (he.symm.trans hp)
  have hentry : ∀ p entry, pool.pooledEntries p = some entry →
      p ∉ gone ∧ s.pool.pooledEntries p = some entry := by
    intro p entry hp
    rw [hentries] at hp
    split at hp
    · cases hp
    · exact ⟨‹_›, hp⟩
  exact {
    shape := hshape
    memory := h.memory
    sized := fun p n hp => h.sized p n (hsub p n hp)
    owned := fun p o ho => by
      rw [howner] at ho
      split at ho
      · exact h.owned p _ (hpooled p ‹_›)
      · exact h.owned p o ho
    pooled := fun p hp => by
      obtain ⟨entry, hp⟩ := Option.isSome_iff_exists.1 hp
      obtain ⟨hnot, hp⟩ := hentry p entry hp
      rw [howner, if_neg hnot]
      exact h.pooled p (hp ▸ rfl)
    held := fun p d hd => by
      obtain ⟨ho, hs⟩ := h.held p d hd
      have hnot := hkept p _ ho nofun
      rw [howner, if_neg hnot, hsizes p hnot]
      exact ⟨ho, hs⟩
    single := h.single
    threads := fun d => by
      by_cases hd : d = c
      · exact hd ▸ hcarries
      · simp only [hthreads d hd]
        refine frame (h.threads d) (fun p hp => ?_) (fun e he => ?_) fun _ => le_rfl
        · have hnot := hkept p _ hp nofun
          exact ⟨by rw [howner, if_neg hnot, hp], hsizes p hnot, fun _ => id⟩
        · rcases he with he | he <;>
            exact ⟨(hsame e _ he nofun).trans he.symm, rfl⟩
    marked := fun p entry hp => h.marked p entry (hentry p entry hp).2
    entries := fun p entry e hp he => by
      obtain ⟨hnot, hp⟩ := hentry p entry hp
      have hpe := h.entries p entry e hp he
      rw [hplace, if_neg, hpe]
      intro hmem
      obtain ⟨q, hq, hqe⟩ := hfence e hmem
      rw [hpe] at hqe
      cases hqe
      exact hnot hq
    unborn := fun e he => hsame e _ (h.unborn e he) nofun
    placed := fun p e he => by
      rw [hplace] at he
      split at he
      · cases he
      · obtain ⟨entry, hp, hf⟩ := h.placed p e he
        refine ⟨entry, ?_, hf⟩
        rw [hentries, if_neg, hp]
        exact fun hmem => ‹e ∉ _› (mem_fencesOf.2 ⟨p, hmem, entry, hp, hf⟩)
    owed := fun d e he => by
      by_cases hd : d = c
      · exact hd ▸ howed e (hd ▸ he)
      · simp only [hthreads d hd]
        rw [hplace] at he
        split at he
        · cases he
          exact absurd rfl hd
        · exact h.owed d e he
    counted := fun e => by
      rw [h.counted e]
      by_cases he : place e = .destroyed
      · rw [if_pos he, if_pos (hsame e _ he nofun)]
      · rw [if_neg he, if_neg]
        rw [hplace]
        split
        · nofun
        · exact he
    fenced := fun e he => by
      rw [hplace]
      split
      · exact ⟨nofun, nofun, nofun⟩
      · exact h.fenced e he
    served := h.served }

theorem destroy (h : Inv es s owner place) {event : ℕ} (pc : Pc)
    (hplace : place event = .made c ∨ place event = .taken c)
    (hcarries : Carries s owner (update place event .destroyed) c pc)
    (howed : ∀ e, e ≠ event → place e = .taken c → pc.owes e) :
    Inv (es ++ [.destroyed event]) (s.goto c pc) owner
      (update place event .destroyed) := by
  have hother : ∀ e q, place e = q → q ≠ .made c → q ≠ .taken c →
      update place event .destroyed e = q := by
    intro e q he hm ht
    rw [update_of_ne ?_, he]
    rintro rfl
    rcases hplace with hp | hp
    · exact hm (he.symm.trans hp)
    · exact ht (he.symm.trans hp)
  have hback : ∀ e q, update place event .destroyed e = q → q ≠ .destroyed →
      e ≠ event ∧ place e = q := by
    intro e q he hq
    by_cases hev : e = event
    · subst hev
      rw [update_self] at he
      exact absurd he.symm hq
    · exact ⟨hev, by rwa [update_of_ne hev] at he⟩
  -- the call holds the event, so it is destroyed here for the first time
  have hnot : place event ≠ .destroyed := by rcases hplace with hp | hp <;> simp [hp]
  exact { h with
    threads := fun d => by
      by_cases hd : d = c
      · subst hd
        simpa [State.goto, Carries, Releasing] using hcarries
      · simp only [State.goto, update_of_ne hd]
        refine frame (h.threads d) (fun p hp => ⟨hp, rfl, fun _ => id⟩) (fun e he => ?_)
          fun _ => le_rfl
        rcases he with he | he
        · exact ⟨(hother e _ he (fun hx => hd (Place.made.inj hx)) nofun).trans he.symm, rfl⟩
        · exact ⟨(hother e _ he nofun fun hx => hd (Place.taken.inj hx)).trans he.symm, rfl⟩
    entries := fun p entry e hp he => hother e _ (h.entries p entry e hp he) nofun nofun
    unborn := fun e he => hother e _ (h.unborn e he) nofun nofun
    placed := fun p e he => h.placed p e (hback e _ he nofun).2
    owed := fun d e he => by
      obtain ⟨hne, he⟩ := hback e _ he nofun
      by_cases hd : d = c
      · subst hd
        simpa [State.goto] using howed e hne he
      · simpa [State.goto, update_of_ne hd] using h.owed d e he
    counted := fun e => by
      rw [List.count_append, h.counted e]
      by_cases he : e = event
      · subst he
        simp [hnot]
      · simp [update_of_ne he, Ne.symm he]
    fenced := fun e he => by
      have he : .fenced e ∈ es := by simpa using he
      by_cases hev : e = event
      · subst hev
        simp
      · rw [update_of_ne hev]
        exact h.fenced e he
    served := fun c n p source he => h.served c n p source (by simpa using he) }

variable {event : Option ℕ}

theorem lose (h : Inv es s owner place) (place' : ℕ → Place)
    (hmade : ∀ e, event = some e → place e = .made c)
    (hplace : ∀ e, place' e = if event = some e then .lost else place e)
    (hthread : ∀ e, ¬ (s.threads c).owes e) (hfenced : ∀ e, event = some e → .fenced e ∉ es) :
    Inv es (s.goto c .idle) owner place' := by
  have hsame : ∀ e q, place e = q → q ≠ .made c → place' e = q := by
    intro e q he hne
    rw [hplace, if_neg, he]
    exact fun hev => hne (he.symm.trans (hmade e hev))
  have hback : ∀ e q, place' e = q → q ≠ .lost → place e = q := by
    intro e q he hq
    rw [hplace] at he
    split at he
    · exact absurd he.symm hq
    · exact he
  exact { h with
    threads := fun d => by
      by_cases hd : d = c
      · subst hd
        simp [State.goto, Carries]
      · simp only [State.goto, update_of_ne hd]
        refine frame (h.threads d) (fun p hp => ⟨hp, rfl, fun _ => id⟩) (fun e he => ?_)
          fun _ => le_rfl
        rcases he with he | he
        · exact ⟨(hsame e _ he fun hx => hd (Place.made.inj hx)).trans he.symm, rfl⟩
        · exact ⟨(hsame e _ he nofun).trans he.symm, rfl⟩
    entries := fun p entry e hp he => hsame e _ (h.entries p entry e hp he) nofun
    unborn := fun e he => hsame e _ (h.unborn e he) nofun
    placed := fun p e he => h.placed p e (hback e _ he nofun)
    owed := fun d e he => by
      have he := h.owed d e (hback e _ he nofun)
      by_cases hd : d = c
      · subst hd
        exact (hthread e he).elim
      · simpa [State.goto, update_of_ne hd] using he
    counted := fun e => by
      rw [h.counted e]
      by_cases he : place e = .destroyed
      · rw [if_pos he, if_pos (hsame e _ he nofun)]
      · rw [if_neg he, if_neg fun hx => he (hback e _ hx nofun)]
    fenced := fun e he => by
      rw [hplace, if_neg fun hev => hfenced e hev he]
      exact h.fenced e he }

theorem push (h : Inv es s owner place) {released : Released} (place' : ℕ → Place)
    (hthread : s.threads c = .pooling ptr event released)
    (hsize : s.pool.allocationSizes ptr = some n) (hheld : released.held = true)
    (hdone : event = none → released.queued ≤ s.device.completed released.stream)
    (hplace : ∀ e, place' e = if event = some e then .entry ptr else place e) :
    Inv es { s.goto c .idle with
      pool := s.pool.push ptr n event
      released := update s.released ptr released }
      (update owner ptr (some .pool)) place' := by
  have hcarries := h.threads c
  rw [hthread] at hcarries
  obtain ⟨⟨-, hreleasing⟩, hevent⟩ := hcarries
  have howner := (hreleasing hheld).1
  -- an address that a call has is in no entry
  have hnone : s.pool.pooledEntries ptr = none := by
    by_contra hne
    have := h.pooled ptr (Option.isSome_iff_ne_none.2 hne)
    rw [howner] at this
    cases this
  have hsame : ∀ e q, place e = q → q ≠ .made c → place' e = q := by
    intro e q he hne
    rw [hplace, if_neg, he]
    exact fun hev => hne (he.symm.trans (hevent e hev).1)
  have hbytes : s.pool.pooledBytes + n < 2 ^ 64 := by
    have hsum := h.memory.sum_lt
      (l := (ptr, n) :: s.pool.pooledOrder.map fun node => (node.ptr, s.pool.sizeOf node.ptr))
      (by
        refine List.nodup_cons.2 ⟨?_, ?_⟩
        · intro hmem
          obtain ⟨node, hnode, heq⟩ := List.mem_map.1 hmem
          have := h.shape.pooled node hnode
          rw [(Prod.mk.inj heq).1, hnone] at this
          cases this
        · exact List.Nodup.of_map Prod.fst (by rw [List.map_map]; exact h.shape.ptrs))
      (by
        intro a ha
        rcases List.mem_cons.1 ha with rfl | ha
        · exact h.sized ptr n hsize
        · obtain ⟨node, hnode, rfl⟩ := List.mem_map.1 ha
          obtain ⟨entry, hentry⟩ := Option.isSome_iff_exists.1 (h.shape.pooled node hnode)
          rw [Pool.sizeOf_eq hentry]
          exact h.sized _ _ (h.shape.sizes _ _ hentry))
    rw [List.map_cons, List.sum_cons, List.map_map] at hsum
    have := h.shape.bytes
    unfold Pool.bytesOf at this
    simp only [Function.comp_def] at hsum
    omega
  have hself : (s.pool.push ptr n event).pooledEntries ptr =
      some ⟨n, s.pool.nodes, event⟩ := update_self ..
  have hother : ∀ p, p ≠ ptr →
      (s.pool.push ptr n event).pooledEntries p = s.pool.pooledEntries p := fun p hp =>
    update_of_ne hp _ _
  exact {
    shape := Pool.shape_push h.shape hnone hsize hbytes
    memory := h.memory
    sized := h.sized
    owned := fun p o ho => by
      by_cases hp : p = ptr
      · exact h.owned p _ (hp ▸ howner)
      · exact h.owned p o (by rwa [update_of_ne hp] at ho)
    pooled := fun p hp => by
      by_cases hpp : p = ptr
      · rw [hpp, update_self]
      · rw [update_of_ne hpp]
        exact h.pooled p (hother p hpp ▸ hp)
    held := fun p d hd => by
      obtain ⟨ho, hs⟩ := h.held p d hd
      rw [update_of_ne (ne_of_owner howner ho nofun)]
      exact ⟨ho, hs⟩
    single := h.single
    threads := fun d => by
      by_cases hd : d = c
      · subst hd
        simp [State.goto, Carries]
      · simp only [State.goto, update_of_ne hd]
        refine frame (h.threads d) (fun p hp => ⟨?_, rfl, fun _ => id⟩) (fun e he => ?_)
          fun _ => le_rfl
        · rw [update_of_ne (ne_of_owner howner hp fun hx => hd (Owner.call.inj hx)), hp]
        · rcases he with he | he
          · exact ⟨(hsame e _ he fun hx => hd (Place.made.inj hx)).trans he.symm, rfl⟩
          · exact ⟨(hsame e _ he nofun).trans he.symm, rfl⟩
    marked := fun p entry hp => by
      by_cases hpp : p = ptr
      · subst hpp
        rw [show (s.pool.push p n event).pooledEntries p = _ from hself] at hp
        cases hp
        unfold Marked
        simp only [update_self]
        cases event with
        | none => exact hdone rfl
        | some e => exact (hevent e rfl).2
      · have := h.marked p entry (hother p hpp ▸ hp)
        unfold Marked at this ⊢
        simpa [State.goto, update_of_ne hpp] using this
    entries := fun p entry e hp he => by
      by_cases hpp : p = ptr
      · subst hpp
        rw [show (s.pool.push p n event).pooledEntries p = _ from hself] at hp
        cases hp
        rw [hplace, if_pos he]
      · exact hsame e _ (h.entries p entry e (hother p hpp ▸ hp) he) nofun
    unborn := fun e he => hsame e _ (h.unborn e he) nofun
    placed := fun p e he => by
      rw [hplace] at he
      split at he
      · cases he
        exact ⟨_, hself, ‹_›⟩
      · obtain ⟨entry, hp, hf⟩ := h.placed p e he
        have hpp : p ≠ ptr := by
          rintro rfl
          rw [hnone] at hp
          cases hp
        exact ⟨entry, (hother p hpp).trans hp, hf⟩
    owed := fun d e he => by
      rw [hplace] at he
      split at he
      · cases he
      have he := h.owed d e he
      by_cases hd : d = c
      · subst hd
        rw [hthread] at he
        exact he.elim
      · simpa [State.goto, update_of_ne hd] using he
    counted := fun e => by
      rw [h.counted e]
      by_cases he : place e = .destroyed
      · rw [if_pos he, if_pos (hsame e _ he nofun)]
      · rw [if_neg he, if_neg]
        rw [hplace]
        split
        · nofun
        · exact he
    fenced := fun e he => by
      rw [hplace]
      split
      · exact ⟨nofun, nofun, nofun⟩
      · exact h.fenced e he
    served := h.served }

end Inv

end Matcore.Gpu.MemoryPool
