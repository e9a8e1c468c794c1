import Matcore.Proof.PoolInvariant

/-!
# Every history of the memory pool

A step whose release is fenced, or has no work outstanding, keeps `Inv` and the limit.
-/

namespace Matcore.Gpu.MemoryPool

open List (mem_cons_of_mem mem_cons_self nodup_cons append_nil)
open Function (update update_of_ne update_self update_apply)

/-- The condition on a step. The driver answers a query with an error only when the work is done,
and `cuMemFree` succeeds. A release that passes the two checks was called by a thread that held
the address, and has a fence unless the work queued before it is done. -/
def State.Meets (s : State) : Action → Prop
  | .thread c move =>
    match s.threads c, move with
    | .scanning _, .lock answers => ∀ e, (e, .error) ∈ answers → s.device.reached e = true
    | .pooling ptr event released, .lock _ =>
      (s.pool.pooledEntries ptr).isSome ∨ s.pool.allocationSizes ptr = none ∨
        released.held = true ∧
          (event = none → released.queued ≤ s.device.completed released.stream)
    | .clearing _ _, .free ok => ok = true
    | _, _ => True
  | _ => True

/-- What a step does to the pool, seen from its limit and from the fences of its entries. -/
structure Advances (s s' : State) (es' : List Event) : Prop where
  limit : s'.pool.maxPooledBytes = s.pool.maxPooledBytes
  bounded : s.pool.pooledBytes ≤ s.pool.maxPooledBytes →
    s'.pool.pooledBytes ≤ s.pool.maxPooledBytes
  fences : ∀ p entry e, s'.pool.pooledEntries p = some entry → entry.fenceEvent = some e →
    s.pool.pooledEntries p = some entry ∨ .fenced e ∈ es'

variable {s s' : State} {es' : List Event}

theorem Advances.same (h : s'.pool = s.pool) : Advances s s' es' :=
  ⟨by rw [h], by rw [h]; exact id, fun p entry e hp _ => .inl (h ▸ hp)⟩

namespace Inv

variable {es : List Event} {s : State} {owner : ℕ → Option Owner} {place : ℕ → Place}
  {c d ptr n : ℕ} {entry : PooledEntry}

theorem not_taken (h : Inv es s owner place) (hthread : ∀ e, ¬ (s.threads c).owes e) (e : ℕ) :
    place e ≠ .taken c := fun he => hthread e (h.owed c e he)

theorem allocate (h : Inv es s owner place) (hn : 0 < n) (hvacant : s.device.vacant ptr n = true)
    (hthread : s.threads c = .allocating n) :
    Inv es ((s.goto c (.recording n ptr)).mapDevice fun device =>
        { device with allocations := (ptr, n) :: device.allocations })
      (update owner ptr (some (.call c))) place := by
  have hother : ∀ p o, owner p = some o → update owner ptr (some (.call c)) p = some o := by
    intro p o ho
    rw [update_of_ne ?_, ho]
    rintro rfl
    obtain ⟨m, hm⟩ := h.owned p o ho
    exact h.memory.not_live hn hvacant hm
  exact { h with
    memory := h.memory.allocate hn hvacant
    sized := fun p m hp => mem_cons_of_mem _ (h.sized p m hp)
    owned := fun p o ho => by
      by_cases hp : p = ptr
      · subst hp
        exact ⟨n, mem_cons_self⟩
      · obtain ⟨m, hm⟩ := h.owned p o (by rwa [update_of_ne hp] at ho)
        exact ⟨m, mem_cons_of_mem _ hm⟩
    pooled := fun p hp => hother p _ (h.pooled p hp)
    held := fun p d hd => ⟨hother p _ (h.held p d hd).1, (h.held p d hd).2⟩
    threads := fun d => by
      by_cases hd : d = c
      · subst hd
        simp [State.mapDevice, State.goto, Carries]
      · simp only [State.mapDevice, State.goto, update_of_ne hd]
        exact frame (h.threads d)
          (fun p hp => ⟨hother p _ hp, rfl, fun _ => mem_cons_of_mem _⟩)
          (fun _ _ => ⟨rfl, rfl⟩) fun _ => le_rfl
    owed := fun d e he => by
      by_cases hd : d = c
      · subst hd
        exact absurd he (h.not_taken (by simp [hthread, Pc.owes]) e)
      · simpa [State.mapDevice, State.goto, update_of_ne hd] using h.owed d e he }

theorem record (h : Inv es s owner place) (hn : (ptr, n) ∈ s.device.allocations)
    (howner : owner ptr = some (.call c)) (hthread : s.threads c = .recording n ptr) :
    Inv es { s with pool := s.pool.record ptr n } owner place := by
  have hsizes : ∀ p, p ≠ ptr →
      (s.pool.record ptr n).allocationSizes p = s.pool.allocationSizes p := fun p hp =>
    update_of_ne hp _ _
  exact { h with
    shape := { h.shape with
      sizes := fun p entry hp => by
        rw [hsizes p (ne_of_owner howner (h.pooled p (by
          rw [show s.pool.pooledEntries p = some entry from hp]; rfl)) nofun)]
        exact h.shape.sizes p entry hp }
    sized := fun p m hp => by
      by_cases hpp : p = ptr
      · subst hpp
        simp only [Pool.record, update_self, Option.some.injEq] at hp
        exact hp ▸ hn
      · exact h.sized p m (hsizes p hpp ▸ hp)
    held := fun p d hd => by
      obtain ⟨ho, hs⟩ := h.held p d hd
      exact ⟨ho, by rw [hsizes p (ne_of_owner howner ho nofun)]; exact hs⟩
    threads := fun d => by
      by_cases hd : d = c
      · subst hd
        rw [hthread]
        exact ⟨howner, hn⟩
      · exact frame (h.threads d)
          (fun p hp =>
            ⟨hp, hsizes p (ne_of_owner howner hp fun hx => hd (Owner.call.inj hx)), fun _ => id⟩)
          (fun _ _ => ⟨rfl, rfl⟩) fun _ => le_rfl }

variable {released : Released}

section

variable (h : Inv es s owner place)

include h

theorem create (hthread : s.threads c = .creating ptr released) :
    Inv es ((s.goto c (.marking ptr s.device.events released)).mapDevice fun device =>
        { device with events := device.events + 1 })
      owner (update place s.device.events (.made c)) := by
  have hcarries := h.threads c
  rw [hthread] at hcarries
  have hother : ∀ e q, place e = q → q ≠ .unborn →
      update place s.device.events (.made c) e = q := by
    intro e q he hq
    rw [update_of_ne ?_, he]
    rintro rfl
    exact hq (he.symm.trans (h.unborn _ le_rfl))
  have hback : ∀ e q, update place s.device.events (.made c) e = q → q ≠ .made c →
      place e = q := by
    intro e q he hq
    by_cases hev : e = s.device.events
    · subst hev
      rw [update_self] at he
      exact absurd he.symm hq
    · rwa [update_of_ne hev] at he
  exact { h with
    memory := ⟨h.memory.apart, h.memory.within⟩
    threads := fun d => by
      by_cases hd : d = c
      · subst hd
        simp only [State.mapDevice, State.goto, update_self]
        exact ⟨hcarries, update_self ..⟩
      · simp only [State.mapDevice, State.goto, update_of_ne hd]
        refine frame (h.threads d) (fun p hp => ⟨hp, rfl, fun _ => id⟩) (fun e he => ?_)
          fun _ => le_rfl
        rcases he with he | he <;> exact ⟨(hother e _ he (by simp)).trans he.symm, rfl⟩
    entries := fun p entry e hp he => hother e _ (h.entries p entry e hp he) (by simp)
    unborn := fun e he => by
      simp only [State.mapDevice, State.goto] at he
      rw [update_of_ne (by omega)]
      exact h.unborn e (by omega)
    placed := fun p e he => h.placed p e (hback e _ he (by simp))
    owed := fun d e he => by
      have howes := h.owed d e (hback e _ he (by simp))
      by_cases hd : d = c
      · subst hd
        rw [hthread] at howes
        exact howes.elim
      · simpa [State.mapDevice, State.goto, update_of_ne hd] using howes
    counted := fun e => by
      rw [h.counted e]
      by_cases he : place e = .destroyed
      · rw [if_pos he, if_pos (hother e _ he (by simp))]
      · rw [if_neg he, if_neg fun hx => he (hback e _ hx (by simp))]
    fenced := fun e he => by
      obtain ⟨hu, hl, hm⟩ := h.fenced e he
      rw [update_of_ne]
      · exact ⟨hu, hl, hm⟩
      · rintro rfl
        exact hu (h.unborn _ le_rfl) }

/-- The event of a release is recorded behind the work queued on its stream. -/
theorem mark {event : ℕ} (hthread : s.threads c = .marking ptr event released) :
    Inv es ((s.goto c (.pooling ptr (some event) released)).mapDevice fun device =>
        { device with
          recorded := update device.recorded event
            (some (released.stream, device.queued released.stream)) }) owner place := by
  have hcarries := h.threads c
  rw [hthread] at hcarries
  obtain ⟨hreleasing, hmade⟩ := hcarries
  exact { h with
    memory := ⟨h.memory.apart, h.memory.within⟩
    threads := fun d => by
      by_cases hd : d = c
      · subst hd
        simp only [State.mapDevice, State.goto, update_self]
        refine ⟨hreleasing, fun e he => ?_⟩
        obtain rfl : event = e := Option.some.inj he
        exact ⟨hmade, _, update_self .., hreleasing.1⟩
      · simp only [State.mapDevice, State.goto, update_of_ne hd]
        refine frame (h.threads d) (fun p hp => ⟨hp, rfl, fun _ => id⟩) (fun e he => ⟨rfl, ?_⟩)
          fun _ => le_rfl
        refine update_of_ne ?_ _ _
        rintro rfl
        rw [hmade] at he
        rcases he with he | he
        · exact hd (Place.made.inj he).symm
        · cases he
    marked := fun p entry hp => by
      have hm := h.marked p entry hp
      unfold Marked at hm ⊢
      cases hf : entry.fenceEvent with
      | none => rw [hf] at hm; exact hm
      | some e =>
        rw [hf] at hm
        simp only [State.mapDevice, State.goto] at hm ⊢
        rw [update_of_ne]
        · exact hm
        · rintro rfl
          have := h.entries p entry e hp hf
          rw [hmade] at this
          cases this
    owed := fun d e he => by
      have he := h.owed d e he
      by_cases hd : d = c
      · subst hd
        rw [hthread] at he
        exact he.elim
      · simpa [State.mapDevice, State.goto, update_of_ne hd] using he }

theorem free {toFree events : List ℕ} (hthread : s.threads c = .clearing (ptr :: toFree) events) :
    Inv es ((s.clear c toFree events).mapDevice fun device =>
        { device with allocations := device.allocations.filter (·.1 ≠ ptr) })
      (update owner ptr none) place := by
  have hcarries := h.threads c
  rw [hthread] at hcarries
  obtain ⟨hnodup, hfree, hnodup', hevents⟩ := hcarries
  obtain ⟨howner, hsize⟩ := hfree ptr mem_cons_self
  -- the call owns `ptr`, so every other address keeps its allocation
  have hlive : ∀ p m, p ≠ ptr → (p, m) ∈ s.device.allocations →
      (p, m) ∈ s.device.allocations.filter (·.1 ≠ ptr) := fun p m hp hm =>
    List.mem_filter.2 ⟨hm, by simpa using hp⟩
  exact { h with
    memory := h.memory.free _
    sized := fun p m hp => by
      refine hlive p m ?_ (h.sized p m hp)
      rintro rfl
      rw [show s.pool.allocationSizes p = some m from hp] at hsize
      cases hsize
    owned := fun p o ho => by
      by_cases hp : p = ptr
      · subst hp
        rw [update_self] at ho
        cases ho
      · rw [update_of_ne hp] at ho
        obtain ⟨m, hm⟩ := h.owned p o ho
        exact ⟨m, hlive p m hp hm⟩
    pooled := fun p hp => by
      have ho := h.pooled p hp
      rw [update_of_ne (ne_of_owner howner ho nofun), ho]
    held := fun p d hd => by
      obtain ⟨ho, hs⟩ := h.held p d hd
      rw [update_of_ne (ne_of_owner howner ho nofun)]
      exact ⟨ho, hs⟩
    threads := fun d => by
      by_cases hd : d = c
      · subst hd
        simp only [State.mapDevice, State.clear, State.goto, update_self]
        split
        · trivial
        · refine ⟨(nodup_cons.1 hnodup).2, fun p hp => ?_, hnodup', hevents⟩
          obtain ⟨ho, hs⟩ := hfree p (mem_cons_of_mem _ hp)
          refine ⟨?_, hs⟩
          rw [update_of_ne, ho]
          rintro rfl
          exact (nodup_cons.1 hnodup).1 hp
      · simp only [State.mapDevice, State.clear, State.goto, update_of_ne hd]
        refine frame (h.threads d) (fun p hp => ?_) (fun _ _ => ⟨rfl, rfl⟩) fun _ => le_rfl
        have hpne := ne_of_owner howner hp fun hx => hd (Owner.call.inj hx)
        exact ⟨by rw [update_of_ne hpne, hp], rfl, fun m => hlive p m hpne⟩
    owed := fun d e he => by
      have he := h.owed d e he
      by_cases hd : d = c
      · subst hd
        rw [hthread] at he
        simp only [State.mapDevice, State.clear, State.goto, update_self]
        split
        · rename_i hempty
          rw [hempty.2] at he
          cases he
        · exact he
      · simpa [State.mapDevice, State.clear, State.goto, update_of_ne hd] using he }

theorem beginRelease (hthread : s.threads c = .idle) (ptr stream : ℕ) :
    ∃ owner', Inv es (s.beginRelease c ptr stream) owner' place := by
  set released : Released := ⟨stream, s.device.queued stream, decide (c ∈ s.holders ptr)⟩
    with hreleased
  set owner' := if c ∈ s.holders ptr then update owner ptr (some (.call c)) else owner
    with howner'
  have hother : ∀ p o, owner p = some o → (∀ d, o = .holder d → c ∉ s.holders ptr ∨ p ≠ ptr) →
      owner' p = some o := by
    intro p o ho hne
    rw [howner']
    split
    · rename_i hc
      rw [update_of_ne, ho]
      rintro rfl
      rw [(h.held p c hc).1] at ho
      rcases hne c (Option.some.inj ho).symm with hn | hn
      · exact hn hc
      · exact hn rfl
    · exact ho
  have hreleasing : Releasing (s.beginRelease c ptr stream) owner' c ptr released := by
    refine ⟨le_rfl, fun hheld => ?_⟩
    have hc : c ∈ s.holders ptr := by simpa [hreleased] using hheld
    refine ⟨?_, (h.held ptr c hc).2⟩
    rw [howner', if_pos hc, update_self]
  refine ⟨owner', { h with
    owned := fun p o ho => ?_
    pooled := fun p hp => hother p _ (h.pooled p hp) (by simp)
    held := fun p d hd => ?_
    single := fun p => ?_
    threads := fun d => ?_
    owed := fun d e he => ?_ }⟩
  · rw [howner'] at ho
    split at ho
    · rename_i hc
      by_cases hp : p = ptr
      · exact h.owned p _ (hp ▸ (h.held ptr c hc).1)
      · exact h.owned p o (by rwa [update_of_ne hp] at ho)
    · exact h.owned p o ho
  · by_cases hp : p = ptr
    · subst hp
      simp only [State.beginRelease, update_self] at hd
      have hmem := List.mem_of_mem_erase hd
      refine ⟨hother p _ (h.held p d hmem).1 fun x _ => .inl fun hc => ?_, (h.held p d hmem).2⟩
      -- with a single holder, nobody is left when the caller is erased
      have hlen := List.length_erase_of_mem hc
      have := h.single p
      have := List.length_pos_of_mem hd
      omega
    · simp only [State.beginRelease, update_of_ne hp] at hd
      exact ⟨hother p _ (h.held p d hd).1 fun _ _ => .inr hp, (h.held p d hd).2⟩
  · by_cases hp : p = ptr
    · subst hp
      simp only [State.beginRelease, update_self]
      exact (List.length_erase_le ..).trans (h.single p)
    · simpa [State.beginRelease, update_of_ne hp] using h.single p
  · by_cases hd : d = c
    · subst hd
      simp only [State.beginRelease, State.goto, update_self]
      split
      · exact hreleasing
      · exact ⟨hreleasing, by simp⟩
    · simp only [State.beginRelease, State.goto, update_of_ne hd]
      exact frame (h.threads d) (fun p hp => ⟨hother p _ hp (by simp), rfl, fun _ => id⟩)
        (fun _ _ => ⟨rfl, rfl⟩) fun _ => le_rfl
  · by_cases hd : d = c
    · subst hd
      exact absurd he (h.not_taken (by simp [hthread, Pc.owes]) e)
    · simpa [State.beginRelease, State.goto, update_of_ne hd] using h.owed d e he

theorem handOver (hc : c ∈ s.holders ptr) (d : ℕ) :
    Inv es { s with holders := update s.holders ptr (d :: (s.holders ptr).erase c) }
      (update owner ptr (some (.holder d))) place := by
  have howner := (h.held ptr c hc).1
  have herase : (s.holders ptr).erase c = [] := by
    have := List.length_erase_of_mem hc
    have := h.single ptr
    exact List.length_eq_zero_iff.1 (by omega)
  exact { h with
    owned := fun p o ho => by
      by_cases hp : p = ptr
      · exact h.owned p _ (hp ▸ howner)
      · exact h.owned p o (by rwa [update_of_ne hp] at ho)
    pooled := fun p hp => by
      have ho := h.pooled p hp
      rw [update_of_ne (ne_of_owner howner ho nofun), ho]
    held := fun p x hx => by
      by_cases hp : p = ptr
      · subst hp
        simp only [update_self, herase, List.mem_singleton] at hx
        subst hx
        exact ⟨update_self .., (h.held p c hc).2⟩
      · simp only [update_of_ne hp] at hx
        rw [update_of_ne hp]
        exact h.held p x hx
    single := fun p => by
      by_cases hp : p = ptr
      · subst hp
        simp [herase]
      · simpa [update_of_ne hp] using h.single p
    threads := fun x => frame (h.threads x)
      (fun p hp => ⟨by rw [update_of_ne (ne_of_owner howner hp nofun), hp], rfl, fun _ => id⟩)
      (fun _ _ => ⟨rfl, rfl⟩) fun _ => le_rfl }

theorem streams {queued completed : ℕ → ℕ}
    (hqueued : ∀ stream, s.device.queued stream ≤ queued stream)
    (hcompleted : ∀ stream, s.device.completed stream ≤ completed stream) :
    Inv es { s with device := { s.device with queued, completed } } owner place :=
  { h with
    memory := ⟨h.memory.apart, h.memory.within⟩
    threads := fun d => frame (h.threads d) (fun p hp => ⟨hp, rfl, fun _ => id⟩)
      (fun _ _ => ⟨rfl, rfl⟩) hqueued
    marked := fun p entry hp => by
      have hm := h.marked p entry hp
      unfold Marked at hm ⊢
      cases hf : entry.fenceEvent with
      | none => rw [hf] at hm; exact hm.trans (hcompleted _)
      | some e => rw [hf] at hm; exact hm }

/-- What `acquire` takes is of the size asked for, and the work queued before its release is
done. -/
theorem serves (hentry : s.pool.pooledEntries ptr = some entry)
    (hfence : ∀ e, entry.fenceEvent = some e → s.device.reached e = true) :
    (Source.pooled (s.device.sizeOf ptr) (s.released ptr).stream (s.released ptr).queued
      (s.device.completed (s.released ptr).stream)).Serves entry.sizeBytes := by
  refine ⟨h.memory.sizeOf_eq (h.sized _ _ (h.shape.sizes _ _ hentry)), ?_⟩
  have hmarked := h.marked ptr entry hentry
  unfold Marked at hmarked
  cases hf : entry.fenceEvent with
  | none =>
    rw [hf] at hmarked
    exact hmarked
  | some e =>
    rw [hf] at hmarked
    obtain ⟨items, hrecorded, hitems⟩ := hmarked
    have hreached := hfence e hf
    rw [Device.reached, hrecorded] at hreached
    exact hitems.trans (by simpa using hreached)

theorem lockAcquire (hthread : s.threads c = .scanning n) {answers : List (ℕ × QueryResult)}
    (hmeets : ∀ e, (e, .error) ∈ answers → s.device.reached e = true)
    (hstep : s.lockAcquire c n answers = some (s', es')) :
    (∃ owner' place', Inv (es ++ es') s' owner' place') ∧ Advances s s' es' := by
  have hpos := h.threads c
  rw [hthread] at hpos
  unfold State.lockAcquire at hstep
  split at hstep
  · cases hstep
  rename_i hanswers
  have hsuccess : ∀ e, (e, .success) ∈ answers → s.device.reached e = true := by
    intro e he
    have hall := List.all_eq_true.1 (not_not.1 hanswers) _ he
    simpa using hall
  split at hstep
  · cases hstep
  · -- the loop took nothing: the free list is all that changed
    rename_i pool hlocked
    cases hstep
    rcases Pool.acquireLocked_cases hlocked with ⟨-, rest, rfl⟩ | ⟨_, _, _, hsome, -⟩
    · refine ⟨⟨owner, place, ?_⟩, rfl, id, fun p entry e hp _ => .inl hp⟩
      rw [append_nil]
      refine h.leave [] _ (c := c) ?_ (by simp) (by simp) (fun _ _ => rfl)
        (fun _ _ => id) (by simp) (by simp [fencesOf]) ?_ ?_ ?_
      · exact ⟨h.shape.ptrs, h.shape.names, h.shape.inserted, h.shape.listed, h.shape.pooled,
          h.shape.bytes, h.shape.small, h.shape.sizes⟩
      · exact fun d hd => update_of_ne hd _ _
      · simpa [State.goto, Carries] using hpos
      · intro e he
        exact absurd he (h.not_taken (by simp [hthread, Pc.owes]) e)
    · cases hsome
  · rename_i pool ptr entry hlocked
    rcases Pool.acquireLocked_cases hlocked with
      ⟨hnone, -⟩ | ⟨_, _, rest, hsome, rfl, hentry, hsize, hfence⟩
    · cases hnone
    cases hsome
    have hreached : ∀ e, entry.fenceEvent = some e → s.device.reached e = true := fun e he =>
      (hfence e he).elim (hsuccess e) (hmeets e)
    have hserves := h.serves hentry hreached
    rw [hsize] at hserves
    have hsizes := h.shape.sizes ptr entry hentry
    have hgone : ∀ p ∈ [ptr], (s.pool.pooledEntries p).isSome := by
      intro p hp
      rw [List.mem_singleton.1 hp, hentry]
      rfl
    have hentries : ∀ p, (s.pool.take ptr entry rest).pooledEntries p =
        if p ∈ [ptr] then none else s.pool.pooledEntries p := by
      simp [Pool.take, update_apply]
    have hfences : fencesOf s.pool [ptr] = entry.fenceEvent.toList := by
      simp [fencesOf, hentry]
    have hfree := h.not_taken (c := c) (by simp [hthread, Pc.owes])
    have hless := (Pool.shape_take h.shape hentry rest).2
    have hkept : ∀ p e, (s.pool.take ptr entry rest).pooledEntries p = some e →
        s.pool.pooledEntries p = some e := by
      intro p e hp
      rw [hentries] at hp
      split at hp
      · cases hp
      · exact hp
    split at hstep
    · -- the fence is destroyed before the address is handed out
      rename_i event hevent
      cases hstep
      refine ⟨⟨update owner ptr (some (.call c)),
        update place event (.taken c), ?_⟩,
        rfl, hless.trans, fun p entry e hp _ => .inl (hkept p entry hp)⟩
      rw [append_nil]
      refine h.leave [ptr] _ (c := c) (Pool.shape_take h.shape hentry rest).1 hgone hentries
        (fun _ _ => rfl) (fun _ _ => id) ?_ ?_ ?_ ?_ ?_
      · intro p
        simp [update_apply]
      · intro e
        simp [hfences, hevent, update_apply]
      · exact fun d hd => update_of_ne hd _ _
      · simp only [State.goto, update_self]
        refine ⟨update_self .., ?_, update_self .., hserves⟩
        simp only [Pool.take, hsizes, Option.isSome_some]
      · intro e he
        by_cases hev : e = event
        · subst hev
          simp [State.goto, Pc.owes]
        · rw [update_of_ne hev] at he
          exact absurd he (hfree e)
    · rename_i hevent
      cases hstep
      have hleave : Inv es { s with pool := s.pool.take ptr entry rest }
          (update owner ptr (some (.call c))) place := by
        refine h.leave [ptr] s.threads (c := c)
          (Pool.shape_take h.shape hentry rest).1 hgone hentries
          (fun _ _ => rfl) (fun _ _ => id) ?_ ?_ (fun _ _ => rfl) ?_ ?_
        · intro p
          simp [update_apply]
        · intro e
          simp [hfences, hevent]
        · rw [hthread]
          exact hpos
        · exact fun e he => absurd he (hfree e)
      have hgive := hleave.give (c := c) (update_self ..)
        (by simp [Pool.take, hsizes]) hfree
      exact ⟨⟨_, place, hgive.acquired _ _ hserves⟩,
        rfl, hless.trans, fun p entry e hp _ => .inl (hkept p entry hp)⟩

theorem lockRelease {event : Option ℕ} (hthread : s.threads c = .pooling ptr event released)
    (hmeets : (s.pool.pooledEntries ptr).isSome ∨ s.pool.allocationSizes ptr = none ∨
      released.held = true ∧
        (event = none → released.queued ≤ s.device.completed released.stream)) :
    (∃ owner' place', Inv (es ++ (s.lockRelease c ptr event released).2)
      (s.lockRelease c ptr event released).1 owner' place') ∧
      Advances s (s.lockRelease c ptr event released).1
        (s.lockRelease c ptr event released).2 := by
  have hcarries := h.threads c
  rw [hthread] at hcarries
  have hmade : ∀ e, event = some e → place e = .made c := fun e he => (hcarries.2 e he).1
  unfold State.lockRelease
  split
  · -- the event of the call is lost
    have hlose := h.lose (fun e => if event = some e then .lost else place e) hmade
      (fun _ => rfl) (by simp [hthread, Pc.owes])
      (fun e he hmem => (h.fenced e hmem).2.2 c (hmade e he))
    exact ⟨⟨owner, _, hlose.emit _ (by simp) (by simp) (by simp)⟩, .same rfl⟩
  · rename_i pool toFree events hlocked
    unfold Pool.releaseLocked at hlocked
    split at hlocked
    · cases hlocked
    rename_i n hsize
    split at hlocked
    · cases hlocked
    rename_i hnot
    rcases hmeets with hsome | hnone | ⟨hheld, hdone⟩
    · exact absurd hsome hnot
    · rw [hsize] at hnone
      cases hnone
    have hpush := h.push (fun e => if event = some e then .entry ptr else place e)
      hthread hsize hheld hdone fun _ => rfl
    have hemit := hpush.emit (event.toList.map .fenced) (by simp)
      (by
        intro e he
        obtain ⟨x, hx, hxe⟩ := List.mem_map.1 he
        cases hxe
        exact ⟨ptr, if_pos (Option.mem_toList.1 hx)⟩)
      (by simp)
    have hevicted := Pool.evict_spec hpush.shape
    simp only [Except.ok.injEq] at hlocked
    simp only [hlocked] at hevicted
    set pushed := s.pool.push ptr n event with hpushed
    have hfences : events = fencesOf pushed toFree := hevicted.fences
    have hlimit : pool.maxPooledBytes = s.pool.maxPooledBytes := hevicted.limit
    refine ⟨⟨fun p =>
        if p ∈ toFree then some (.call c) else update owner ptr (some .pool) p,
      fun e => if e ∈ fencesOf pushed toFree then .taken c
        else if event = some e then .entry ptr else place e, ?_⟩,
      hlimit, fun _ => hlimit ▸ hevicted.bounded, ?_⟩
    case refine_2 =>
      -- what is left in the pool was there, or is what was pushed
      intro p entry e hp he
      rw [hevicted.entries] at hp
      split at hp
      · cases hp
      by_cases hpp : p = ptr
      · subst hpp
        simp only [hpushed, Pool.push, update_self, Option.some.injEq] at hp
        subst hp
        exact .inr (List.mem_map_of_mem (Option.mem_toList.2 he))
      · simp only [hpushed, Pool.push, update_of_ne hpp] at hp
        exact .inl hp
    refine hemit.leave toFree _ (c := c) hevicted.shape hevicted.victims hevicted.entries
      ?_ ?_ (fun _ => rfl) (fun _ => rfl) ?_ ?_ ?_
    · exact fun p hp => by rw [hevicted.sizes, if_neg hp]
    · intro p m hp
      rw [hevicted.sizes] at hp
      split at hp
      · cases hp
      · exact hp
    · intro d hd
      simp [State.clear, State.goto, update_of_ne hd]
    · simp only [State.clear, State.goto, update_self]
      split
      · trivial
      · refine ⟨hevicted.nodup, fun p hp => ⟨if_pos hp, ?_⟩, ?_, fun e he => ?_⟩
        · simp [hevicted.sizes, hp]
        · rw [hfences]
          exact hpush.fencesOf_nodup hevicted.nodup
        · exact if_pos (hfences ▸ he)
    · intro e he
      have hmem : e ∈ fencesOf pushed toFree := by
        by_contra hmem
        simp only [if_neg hmem] at he
        have howes := hpush.owed c e he
        simp [State.goto, Pc.owes] at howes
      rw [← hfences] at hmem
      simp only [State.clear, State.goto, update_self]
      rw [if_neg (by rintro ⟨-, rfl⟩; cases hmem)]
      exact hmem

end

theorem step (h : Inv es s owner place) {move : Move} (hmeets : s.Meets (.thread c move))
    (hstep : s.step c (s.threads c) move = some (s', es')) :
    (∃ owner' place', Inv (es ++ es') s' owner' place') ∧ Advances s s' es' := by
  have hcarries := h.threads c
  generalize hthread : s.threads c = pc at hstep hcarries
  have hnot : (∀ e, ¬ pc.owes e) → ∀ e, place e ≠ .taken c := fun howes =>
    h.not_taken (hthread ▸ howes)
  simp only [State.Meets, hthread] at hmeets
  unfold State.step at hstep
  split at hstep
  · -- `acquire` is called
    split at hstep
    · cases hstep
      exact ⟨⟨owner, place, h.emit _ (by simp) (by simp) (by simp)⟩, .same rfl⟩
    · rename_i hne
      cases hstep
      rw [append_nil]
      exact ⟨⟨owner, place, h.goto _ (Nat.pos_of_ne_zero hne)
        fun e he => absurd he (hnot (by simp [Pc.owes]) e)⟩, .same rfl⟩
  · -- `release` is called
    rename_i ptr stream
    split at hstep
    · cases hstep
      rw [append_nil]
      exact ⟨⟨owner, place, h⟩, .same rfl⟩
    · cases hstep
      rw [append_nil]
      obtain ⟨owner', hbegin⟩ := h.beginRelease hthread ptr stream
      exact ⟨⟨owner', place, hbegin⟩, .same rfl⟩
  · exact h.lockAcquire hthread hmeets hstep
  · -- the fence of the entry taken is destroyed
    rename_i n ptr event source
    cases hstep
    obtain ⟨howner, hsome, htaken, hserves⟩ := hcarries
    have howes : ∀ e, place e = .taken c → e = event := by
      intro e he
      have howes := h.owed c e he
      rw [hthread] at howes
      exact howes.symm
    have hdestroy := h.destroy .idle (.inr htaken) trivial
      fun e hne he => absurd (howes e he) hne
    have hfree : ∀ e, update place event .destroyed e ≠ .taken c := by
      intro e he
      by_cases hev : e = event
      · rw [hev, update_self] at he
        cases he
      · rw [update_of_ne hev] at he
        exact hev (howes e he)
    have hgive := hdestroy.give (c := c) howner hsome hfree
    have hemit := hgive.acquired c ptr hserves
    have hstate : (s.goto c .idle).give c ptr = s.give c ptr := by
      simp [State.give, State.goto]
    rw [List.append_assoc, hstate] at hemit
    exact ⟨⟨_, _, hemit⟩, .same rfl⟩
  · cases hstep
    refine ⟨⟨owner, place, ?_⟩, .same rfl⟩
    exact (h.goto .idle (by trivial) fun e he => absurd he (hnot (by simp [Pc.owes]) e)).emit _
      (by simp)
      (by simp) (by simp)
  · -- `cuMemAlloc`
    split at hstep
    · rename_i hvacant
      cases hstep
      rw [append_nil]
      exact ⟨⟨_, place, h.allocate hcarries hvacant hthread⟩, .same rfl⟩
    · cases hstep
  · rename_i n ptr
    cases hstep
    obtain ⟨howner, hlive⟩ := hcarries
    have hrecord := h.record hlive howner hthread
    have hgive := hrecord.give (c := c) howner (by simp [Pool.record])
      (hnot (by simp [Pc.owes]))
    exact ⟨⟨_, place, hgive.acquired _ _ (h.memory.sizeOf_eq hlive)⟩,
      rfl, id, fun p entry e hp _ => .inl hp⟩
  · -- `cuEventCreate`
    cases hstep
    rw [append_nil]
    exact ⟨⟨owner, place, h.goto _ ⟨hcarries, by simp⟩
      fun e he => absurd he (hnot (by simp [Pc.owes]) e)⟩, .same rfl⟩
  · cases hstep
    rw [append_nil]
    exact ⟨⟨owner, _, h.create hthread⟩, .same rfl⟩
  · -- `cuEventRecord`
    cases hstep
    rw [append_nil]
    exact ⟨⟨owner, place, h.mark hthread⟩, .same rfl⟩
  · rename_i ptr event released
    cases hstep
    obtain ⟨hreleasing, hmade⟩ := hcarries
    exact ⟨⟨owner, _, h.destroy _ (.inl hmade) ⟨hreleasing, by simp⟩
      fun e _ he => absurd he (hnot (by simp [Pc.owes]) e)⟩, .same rfl⟩
  · rename_i ptr event released
    have hlock := h.lockRelease hthread hmeets
    obtain ⟨rfl, rfl⟩ := Prod.mk.inj (Option.some.inj hstep)
    exact hlock
  · -- the loop over `to_free`
    cases hstep
    rw [append_nil]
    exact ⟨⟨_, place, h.free hthread⟩, .same rfl⟩
  · cases hmeets
  · -- the loop over `events_to_destroy`
    rename_i event events
    cases hstep
    obtain ⟨-, -, hnodup, htaken⟩ := hcarries
    have hfirst := htaken event mem_cons_self
    refine ⟨⟨owner, update place event .destroyed, h.destroy _ (.inr hfirst) ?_ ?_⟩, .same rfl⟩
    · split
      · trivial
      · refine ⟨List.nodup_nil, by simp, (nodup_cons.1 hnodup).2, fun e he => ?_⟩
        rw [update_of_ne, htaken e (mem_cons_of_mem _ he)]
        rintro rfl
        exact (nodup_cons.1 hnodup).1 he
    · intro e hne he
      have howes := h.owed c e he
      rw [hthread] at howes
      have hmem : e ∈ events := (List.mem_cons.1 howes).resolve_left hne
      rw [if_neg (by rintro ⟨-, rfl⟩; cases hmem)]
      exact hmem
  · cases hstep

end Inv

/-- What holds behind a history. -/
structure Kept (limit : ℕ) (es : List Event) (s : State) : Prop where
  inv : ∃ owner place, Inv es s owner place
  unchanged : s.pool.maxPooledBytes = limit
  bounded : s.pool.pooledBytes ≤ limit
  listed : ∀ p entry e, s.pool.pooledEntries p = some entry → entry.fenceEvent = some e →
    .fenced e ∈ es

theorem kept_init (limit : ℕ) : Kept limit [] (init limit) :=
  ⟨⟨_, _, inv_init limit⟩, rfl, Nat.zero_le _, nofun⟩

variable {es : List Event} {limit : ℕ}

theorem Kept.advance (h : Kept limit es s) (hinv : ∃ owner place, Inv (es ++ es') s' owner place)
    (hadvance : Advances s s' es') :
    Kept limit (es ++ es') s' where
  inv := hinv
  unchanged := hadvance.limit.trans h.unchanged
  bounded := by
    have hlimit := h.unchanged
    have hbounded := hadvance.bounded (hlimit ▸ h.bounded)
    omega
  listed p entry e hp he := by
    rcases hadvance.fences p entry e hp he with hold | hnew
    · exact List.mem_append_left _ (h.listed p entry e hold he)
    · exact List.mem_append_right _ hnew

theorem kept_step {a : Action} (h : Kept limit es s) (hmeets : s.Meets a)
    (hstep : s.next a = some (s', es')) : Kept limit (es ++ es') s' := by
  obtain ⟨owner, place, hinv⟩ := h.inv
  cases a with
  | thread c move =>
    obtain ⟨hinv', hadvance⟩ := hinv.step hmeets hstep
    exact h.advance hinv' hadvance
  | queue stream =>
    cases hstep
    refine h.advance ⟨owner, place, ?_⟩ (.same rfl)
    rw [append_nil]
    refine hinv.streams (fun x => ?_) fun _ => le_rfl
    by_cases hx : x = stream
    · subst hx
      simp
    · simp [update_of_ne hx]
  | complete stream =>
    simp only [State.next] at hstep
    split at hstep
    · cases hstep
      refine h.advance ⟨owner, place, ?_⟩ (.same rfl)
      rw [append_nil]
      refine hinv.streams (fun _ => le_rfl) fun x => ?_
      by_cases hx : x = stream
      · subst hx
        simp
      · simp [update_of_ne hx]
    · cases hstep
  | handOver c d ptr =>
    simp only [State.next] at hstep
    split at hstep
    · rename_i hc
      cases hstep
      have hover := hinv.handOver hc d
      rw [← append_nil es] at hover
      exact h.advance ⟨_, place, hover⟩ (.same rfl)
    · cases hstep

/-- A fence is in an entry, or with the call that took the entry out of the pool. -/
def State.Pending (s : State) (event : ℕ) : Prop :=
  (∃ p entry, s.pool.pooledEntries p = some entry ∧ entry.fenceEvent = some event) ∨
    ∃ c, (s.threads c).owes event

/-- What the pool promises behind a history. -/
structure Sound (limit : ℕ) (es : List Event) (s : State) : Prop where
  /-- an address has one holder at most, and none while it is in the pool -/
  exclusive : ∀ p, (s.holders p).length ≤ 1 ∧
    ((s.pool.pooledEntries p).isSome → s.holders p = [])
  /-- what `acquire` returned was of the size asked for, with no queued work outstanding -/
  acquired : ∀ c n p source, .acquired c n p source ∈ es → source.Serves n
  bytes : ∃ keys : Finset ℕ, (∀ p, p ∈ keys ↔ (s.pool.pooledEntries p).isSome) ∧
    s.pool.pooledBytes = ∑ p ∈ keys, s.pool.sizeOf p
  bounded : s.pool.pooledBytes ≤ limit
  order : (s.pool.pooledOrder.map (·.ptr)).Nodup ∧
    ∀ p, p ∈ s.pool.pooledOrder.map (·.ptr) ↔ (s.pool.pooledEntries p).isSome
  listed : ∀ p entry e, s.pool.pooledEntries p = some entry → entry.fenceEvent = some e →
    .fenced e ∈ es
  /-- a fence is destroyed once, behind its stay in the pool -/
  fences : ∀ e, .fenced e ∈ es →
    (s.Pending e → es.count (.destroyed e) = 0) ∧ (¬ s.Pending e → es.count (.destroyed e) = 1)

theorem Kept.sound (h : Kept limit es s) : Sound limit es s := by
  obtain ⟨owner, place, hinv⟩ := h.inv
  refine ⟨fun p => ⟨hinv.single p, fun hp => ?_⟩, hinv.served, ?_, h.bounded,
    ⟨hinv.shape.ptrs, fun p => hinv.shape.mem_iff⟩, h.listed, fun e he => ⟨fun hpending => ?_,
      fun hdone => ?_⟩⟩
  · refine List.eq_nil_iff_forall_not_mem.2 fun c hc => ?_
    have howner := (hinv.held p c hc).1
    rw [hinv.pooled p hp] at howner
    cases howner
  · refine ⟨(s.pool.pooledOrder.map (·.ptr)).toFinset, fun p => ?_, ?_⟩
    · rw [List.mem_toFinset]
      exact hinv.shape.mem_iff
    · rw [List.sum_toFinset _ hinv.shape.ptrs, List.map_map]
      exact hinv.shape.bytes
  · rw [hinv.counted e, if_neg]
    intro hdestroyed
    rcases hpending with ⟨p, entry, hentry, hfence⟩ | ⟨c, howes⟩
    · have hplace := hinv.entries p entry e hentry hfence
      rw [hdestroyed] at hplace
      cases hplace
    · have hcarries := hinv.threads c
      cases hpc : s.threads c <;> rw [hpc] at howes hcarries <;> try exact howes.elim
      · have hplace := hcarries.2.2.1
        rw [show _ = e from howes, hdestroyed] at hplace
        cases hplace
      · have hplace := hcarries.2.2.2 e howes
        rw [hdestroyed] at hplace
        cases hplace
  · rw [hinv.counted e, if_pos]
    obtain ⟨hborn, hkept, hmade⟩ := hinv.fenced e he
    cases hplace : place e with
    | unborn => exact absurd hplace hborn
    | made c => exact absurd hplace (hmade c)
    | entry p => exact absurd (.inl ⟨p, hinv.placed p e hplace⟩) hdone
    | taken c => exact absurd (.inr ⟨c, hinv.owed c e hplace⟩) hdone
    | destroyed => rfl
    | lost => exact absurd hplace hkept

/-- **The memory pool.** Behind every run whose steps all meet the condition, the pool keeps its
promises. -/
theorem pool_sound {limit : ℕ} {as : List Action} {s : State} {es : List Event}
    (run : Trace.run State.next (init limit) as = some (s, es))
    (along : Trace.Along State.next State.Meets (init limit) as) : Sound limit es s := by
  have hkept := Trace.run_along (P := Kept limit) (kept_init limit)
    (fun es u a es' t h hmeets hstep => kept_step h hmeets hstep) along run
  exact hkept.sound

/-- A buffer is acquired, used on a stream and released there behind a fence. When the work is
done, another thread acquires it. -/
def fencedRelease : List Action :=
  [.thread 0 (.acquire 256), .thread 0 (.lock []), .thread 0 (.allocate (some 4096)),
    .thread 0 (.lock []), .queue 1, .thread 0 (.release 4096 1), .thread 0 (.create true),
    .thread 0 (.record true), .thread 0 (.lock []), .complete 1, .thread 1 (.acquire 256),
    .thread 1 (.lock [(0, .success)]), .thread 1 .destroy]

theorem pool_sound_fencedRelease :
    ∃ s, Trace.run State.next (init 65536) fencedRelease =
        some (s, [.acquired 0 256 4096 (.fresh 256), .fenced 0, .destroyed 0,
          .acquired 1 256 4096 (.pooled 256 1 1 1)]) ∧
      Sound 65536 [.acquired 0 256 4096 (.fresh 256), .fenced 0, .destroyed 0,
        .acquired 1 256 4096 (.pooled 256 1 1 1)] s := by
  have along : Trace.Along State.next State.Meets (init 65536) fencedRelease := by
    refine Trace.along_cons trivial rfl (Trace.along_cons ?_ rfl (Trace.along_cons trivial rfl
      (Trace.along_cons trivial rfl (Trace.along_cons trivial rfl (Trace.along_cons trivial rfl
      (Trace.along_cons trivial rfl (Trace.along_cons trivial rfl (Trace.along_cons ?_ rfl
      (Trace.along_cons trivial rfl (Trace.along_cons trivial rfl (Trace.along_cons ?_ rfl
      (Trace.along_cons trivial rfl trivial))))))))))))
    · exact nofun
    · exact .inr (.inr ⟨rfl, nofun⟩)
    · intro e he
      simp at he
  exact ⟨_, rfl, pool_sound rfl along⟩

/-- The same, but the event of the release cannot be created, and the other thread acquires the
buffer before the work is done. -/
def unfencedRelease : List Action :=
  [.thread 0 (.acquire 256), .thread 0 (.lock []), .thread 0 (.allocate (some 4096)),
    .thread 0 (.lock []), .queue 1, .thread 0 (.release 4096 1), .thread 0 (.create false),
    .thread 0 (.lock []), .thread 1 (.acquire 256), .thread 1 (.lock [])]

/-- The buffer of an unfenced release is handed out while queued work uses it. -/
theorem unfenced_release_reused :
    ¬ ∀ (limit : ℕ) (as : List Action) (s : State) (es : List Event),
      Trace.run State.next (init limit) as = some (s, es) → Sound limit es s := by
  intro hall
  have hsound := hall 65536 unfencedRelease _ _ rfl
  have hserves : (Source.pooled 256 1 1 0).Serves 256 :=
    hsound.acquired 1 256 4096 _ (mem_cons_of_mem _ mem_cons_self)
  exact absurd hserves.2 (by decide)

end Matcore.Gpu.MemoryPool
