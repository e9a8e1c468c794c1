import Matcore.Gpu.MemoryPool

/-!
# When the scan of the memory pool ends

The scan takes the first entry that is ready, and never ends where one is in use and none is ready.
-/

namespace Matcore.Gpu.MemoryPool.Pool

variable {pool : Pool} {status : ℕ → QueryResult} {sizeBytes : ℕ}

/-- A candidate that is in the pool with this size. -/
def Valid (pool : Pool) (sizeBytes candidate : ℕ) (entry : PooledEntry) : Prop :=
  pool.pooledEntries candidate = some entry ∧ entry.sizeBytes = sizeBytes

/-- A valid candidate whose fence is not reported as pending. -/
def Ready (pool : Pool) (status : ℕ → QueryResult) (sizeBytes candidate : ℕ) : Prop :=
  ∃ entry, pool.Valid sizeBytes candidate entry ∧
    ∀ fence, entry.fenceEvent = some fence → status fence ≠ .notReady

/-- A valid candidate that is still in use. -/
def Pending (pool : Pool) (status : ℕ → QueryResult) (sizeBytes candidate : ℕ) : Prop :=
  ∃ entry, pool.Valid sizeBytes candidate entry ∧
    ∃ fence, entry.fenceEvent = some fence ∧ status fence = .notReady

variable {candidate : ℕ}

theorem Pending.not_ready (h : pool.Pending status sizeBytes candidate) :
    ¬ pool.Ready status sizeBytes candidate := by
  rintro ⟨entry, hvalid, hready⟩
  obtain ⟨entry', hvalid', fence, hfence, hstatus⟩ := h
  obtain rfl : entry = entry' := Option.some.inj (hvalid.1.symm.trans hvalid'.1)
  exact hready fence hfence hstatus

variable {entry : PooledEntry}

theorem turn_ready (list : List ℕ) (hvalid : pool.Valid sizeBytes candidate entry)
    (hready : ∀ fence, entry.fenceEvent = some fence → status fence ≠ .notReady) :
    pool.turn status sizeBytes (candidate :: list) = .leave (some (candidate, entry)) list := by
  have hfence : entry.fenceEvent.any (status · = .notReady) = false := by
    cases hevent : entry.fenceEvent with
    | none => rfl
    | some fence => simpa using hready fence hevent
  simp [turn, hvalid.1, hvalid.2, hfence]

theorem turn_pending (list : List ℕ) (h : pool.Pending status sizeBytes candidate) :
    pool.turn status sizeBytes (candidate :: list) = .again (list ++ [candidate]) := by
  obtain ⟨entry, hvalid, fence, hfence, hstatus⟩ := h
  simp [turn, hvalid.1, hvalid.2, hfence, hstatus]

theorem turn_stale (list : List ℕ) (h : ∀ entry, ¬ pool.Valid sizeBytes candidate entry) :
    pool.turn status sizeBytes (candidate :: list) = .again list := by
  cases hentry : pool.pooledEntries candidate with
  | none => simp [turn, hentry]
  | some entry =>
    have hsize : entry.sizeBytes ≠ sizeBytes := fun hsize => h entry ⟨hentry, hsize⟩
    simp [turn, hentry, hsize]

theorem ready_or_pending_or_stale (pool : Pool) (status : ℕ → QueryResult)
    (sizeBytes candidate : ℕ) :
    pool.Ready status sizeBytes candidate ∨ pool.Pending status sizeBytes candidate ∨
      ∀ entry, ¬ pool.Valid sizeBytes candidate entry := by
  by_cases hvalid : ∃ entry, pool.Valid sizeBytes candidate entry
  · obtain ⟨entry, hvalid⟩ := hvalid
    by_cases hfence : ∃ fence, entry.fenceEvent = some fence ∧ status fence = .notReady
    · exact .inr (.inl ⟨entry, hvalid, hfence⟩)
    · exact .inl ⟨entry, hvalid, fun fence hevent hstatus => hfence ⟨fence, hevent, hstatus⟩⟩
  · exact .inr (.inr fun entry hentry => hvalid ⟨entry, hentry⟩)

variable {list : List ℕ}

theorem popValid_stale (list : List ℕ) (h : ∀ entry, ¬ pool.Valid sizeBytes candidate entry) :
    pool.popValid sizeBytes (candidate :: list) = pool.popValid sizeBytes list := by
  cases hentry : pool.pooledEntries candidate with
  | none => simp [popValid, hentry]
  | some entry =>
    have hsize : entry.sizeBytes ≠ sizeBytes := fun hsize => h entry ⟨hentry, hsize⟩
    simp [popValid, hentry, hsize]

theorem scan_stale (answers : List (ℕ × QueryResult)) (list : List ℕ)
    (h : ∀ entry, ¬ pool.Valid sizeBytes candidate entry) :
    pool.scan sizeBytes answers (candidate :: list) = pool.scan sizeBytes answers list := by
  rw [scan.eq_def, popValid_stale list h, ← scan.eq_def]

theorem scan_valid (answers : List (ℕ × QueryResult)) (list : List ℕ)
    (h : pool.Valid sizeBytes candidate entry) :
    pool.scan sizeBytes answers (candidate :: list) =
      match entry.fenceEvent, answers with
      | none, answers => if answers = [] then some (some (candidate, entry), list) else none
      | some _, [] => none
      | some fence, (event, result) :: answers =>
        if event ≠ fence then none
        else if result = .notReady then pool.scan sizeBytes answers (list ++ [candidate])
        else if answers = [] then some (some (candidate, entry), list)
        else none := by
  have hpop : pool.popValid sizeBytes (candidate :: list) = some (candidate, entry, list) := by
    simp [popValid, h.1, h.2]
  have hscan := scan.eq_def pool sizeBytes answers (candidate :: list)
  rw [hpop] at hscan
  exact hscan

variable {taken : Option (ℕ × PooledEntry)} {left : List ℕ} {rest : List ℕ}

theorem turns_again (n : ℕ) (h : pool.turn status sizeBytes list = .again rest) :
    pool.turns status sizeBytes (n + 1) list = (pool.turns status sizeBytes n rest).map
      fun (popped, result) => (list.take 1 ++ popped, result) := by
  rw [turns, h]

theorem scan_of_turns {n : ℕ} {popped : List ℕ}
    (h : pool.turns status sizeBytes n list = some (popped, taken, left)) :
    ∃ answers, (∀ x ∈ answers, status x.1 = x.2) ∧
      pool.scan sizeBytes answers list = some (taken, left) := by
  induction n generalizing list popped with
  | zero => cases h
  | succ n ih =>
    have hagain {rest : List ℕ} (hturn : pool.turn status sizeBytes list = .again rest) :
        ∃ answers, (∀ x ∈ answers, status x.1 = x.2) ∧
          pool.scan sizeBytes answers rest = some (taken, left) := by
      rw [turns_again n hturn] at h
      obtain ⟨⟨_, _, _⟩, hrest, heq⟩ := Option.map_eq_some_iff.1 h
      cases heq
      exact ih hrest
    cases list with
    | nil =>
      cases h
      exact ⟨[], nofun, rfl⟩
    | cons c list =>
      rcases ready_or_pending_or_stale pool status sizeBytes c with hready | hpending | hstale
      · obtain ⟨entry, hvalid, hready⟩ := hready
        rw [turns, turn_ready list hvalid hready] at h
        cases h
        cases hfence : entry.fenceEvent with
        | none => exact ⟨[], nofun, by simp [scan_valid _ _ hvalid, hfence]⟩
        | some fence =>
          refine ⟨[(fence, status fence)], by simp, ?_⟩
          simp [scan_valid _ _ hvalid, hfence, hready fence hfence]
      · obtain ⟨answers, hanswers, hscan⟩ := hagain (turn_pending list hpending)
        obtain ⟨entry, hvalid, fence, hfence, hstatus⟩ := hpending
        refine ⟨(fence, .notReady) :: answers, List.forall_mem_cons.2 ⟨hstatus, hanswers⟩, ?_⟩
        simpa [scan_valid _ _ hvalid, hfence] using hscan
      · obtain ⟨answers, hanswers, hscan⟩ := hagain (turn_stale list hstale)
        exact ⟨answers, hanswers, (scan_stale answers list hstale).trans hscan⟩

theorem turns_of_again (hturn : pool.turn status sizeBytes list = .again rest)
    (h : ∃ n popped, pool.turns status sizeBytes n rest = some (popped, taken, left)) :
    ∃ n popped, pool.turns status sizeBytes n list = some (popped, taken, left) := by
  obtain ⟨n, popped, h⟩ := h
  exact ⟨n + 1, _, by rw [turns_again n hturn, h]; rfl⟩

theorem turns_of_scan {answers : List (ℕ × QueryResult)}
    (hanswers : ∀ x ∈ answers, status x.1 = x.2)
    (h : pool.scan sizeBytes answers list = some (taken, left)) :
    ∃ n popped, pool.turns status sizeBytes n list = some (popped, taken, left) := by
  induction answers generalizing list with
  | nil =>
    induction list with
    | nil =>
      cases h
      exact ⟨1, _, rfl⟩
    | cons c list ihlist =>
      by_cases hvalid : ∃ entry, pool.Valid sizeBytes c entry
      · obtain ⟨entry, hvalid⟩ := hvalid
        rw [scan_valid _ _ hvalid] at h
        cases hfence : entry.fenceEvent with
        | none =>
          have hready : ∀ f, entry.fenceEvent = some f → status f ≠ .notReady := by simp [hfence]
          simp only [hfence, if_true] at h
          cases h
          exact ⟨1, [c], by rw [turns, turn_ready _ hvalid hready]; rfl⟩
        | some fence => simp [hfence] at h
      · have hstale := not_exists.1 hvalid
        exact turns_of_again (turn_stale list hstale) (ihlist (scan_stale _ list hstale ▸ h))
  | cons answer answers ih =>
    obtain ⟨hanswer, hanswers⟩ := List.forall_mem_cons.1 hanswers
    induction list with
    | nil => cases h
    | cons c list ihlist =>
      by_cases hvalid : ∃ entry, pool.Valid sizeBytes c entry
      · obtain ⟨entry, hvalid⟩ := hvalid
        rw [scan_valid _ _ hvalid] at h
        cases hfence : entry.fenceEvent with
        | none => simp [hfence] at h
        | some fence =>
          simp only [hfence] at h
          split_ifs at h with hevent hpending hlast
          · obtain rfl := not_not.1 hevent
            have hturn := turn_pending list ⟨entry, hvalid, _, hfence, hanswer.trans hpending⟩
            exact turns_of_again hturn (ih hanswers h)
          · obtain rfl := not_not.1 hevent
            have hready : ∀ f, entry.fenceEvent = some f → status f ≠ .notReady := by
              simpa [hfence, hanswer] using hpending
            cases h
            exact ⟨1, [c], by rw [turns, turn_ready _ hvalid hready]; rfl⟩
      · have hstale := not_exists.1 hvalid
        exact turns_of_again (turn_stale list hstale) (ihlist (scan_stale _ list hstale ▸ h))

/-- **The turns are those of the loop over the answers** that the driver gives one by one. -/
theorem turns_iff_scan :
    (∃ n popped, pool.turns status sizeBytes n list = some (popped, taken, left)) ↔
      ∃ answers, (∀ x ∈ answers, status x.1 = x.2) ∧
        pool.scan sizeBytes answers list = some (taken, left) :=
  ⟨fun ⟨_, _, h⟩ => scan_of_turns h, fun ⟨_, hanswers, h⟩ => turns_of_scan hanswers h⟩

theorem turns_append (hlist : ∀ c ∈ list, ¬ pool.Ready status sizeBytes c) :
    ∃ back, (∀ c, c ∈ back ↔ c ∈ list ∧ pool.Pending status sizeBytes c) ∧
      ∀ n rest, pool.turns status sizeBytes (list.length + n) (list ++ rest) =
        (pool.turns status sizeBytes n (rest ++ back)).map
          fun (popped, result) => (list ++ popped, result) := by
  induction list with
  | nil => exact ⟨[], by simp, fun n rest => by simp⟩
  | cons c list ih =>
    obtain ⟨back, hback, hturns⟩ := ih fun d hd => hlist d (List.mem_cons_of_mem c hd)
    have hcount : ∀ n, (c :: list).length + n = list.length + n + 1 := fun n => by
      rw [List.length_cons]
      omega
    rcases ready_or_pending_or_stale pool status sizeBytes c with hready | hpending | hstale
    · exact absurd hready (hlist c List.mem_cons_self)
    · refine ⟨c :: back, fun d => ?_, fun n rest => ?_⟩
      · rw [List.mem_cons, List.mem_cons, hback]
        constructor
        · rintro (rfl | ⟨hd, hp⟩)
          · exact ⟨.inl rfl, hpending⟩
          · exact ⟨.inr hd, hp⟩
        · rintro ⟨rfl | hd, hp⟩
          · exact .inl rfl
          · exact .inr ⟨hd, hp⟩
      · rw [hcount, List.cons_append, turns, turn_pending _ hpending]
        simp only [List.append_assoc]
        rw [hturns n (rest ++ [c]), Option.map_map]
        simp only [List.append_assoc, List.singleton_append]
        rfl
    · refine ⟨back, fun d => ?_, fun n rest => ?_⟩
      · rw [hback, List.mem_cons]
        constructor
        · rintro ⟨hd, hp⟩
          exact ⟨.inr hd, hp⟩
        · rintro ⟨rfl | hd, hp⟩
          · obtain ⟨entry, hvalid, -⟩ := hp
            exact absurd hvalid (hstale entry)
          · exact ⟨hd, hp⟩
      · rw [hcount, List.cons_append, turns, turn_stale _ hstale]
        simp only
        rw [hturns n rest, Option.map_map]
        rfl

/-- The scan takes the first entry that is ready. -/
theorem turns_of_ready {before : List ℕ} {c : ℕ}
    (hbefore : ∀ d ∈ before, ¬ pool.Ready status sizeBytes d)
    (hc : pool.Ready status sizeBytes c) (after : List ℕ) :
    ∃ entry back, pool.Valid sizeBytes c entry ∧
      (∀ d, d ∈ back ↔ d ∈ before ∧ pool.Pending status sizeBytes d) ∧
      pool.turns status sizeBytes (before.length + 1) (before ++ c :: after) =
        some (before ++ [c], some (c, entry), after ++ back) := by
  obtain ⟨entry, hvalid, hfence⟩ := hc
  obtain ⟨back, hback, hturns⟩ := turns_append hbefore
  refine ⟨entry, back, hvalid, hback, ?_⟩
  rw [hturns 1 (c :: after), List.cons_append, turns, turn_ready _ hvalid hfence]
  rfl

/-- Without valid entries the scan empties the list. -/
theorem turns_of_none (hready : ∀ c ∈ list, ¬ pool.Ready status sizeBytes c)
    (hpending : ∀ c ∈ list, ¬ pool.Pending status sizeBytes c) :
    pool.turns status sizeBytes (list.length + 1) list = some (list, none, []) := by
  obtain ⟨back, hback, hturns⟩ := turns_append hready
  obtain rfl : back = [] := List.eq_nil_iff_forall_not_mem.2 fun c hc =>
    hpending c ((hback c).1 hc).1 ((hback c).1 hc).2
  have := hturns 1 []
  rw [List.append_nil] at this
  rw [this, List.append_nil, turns]
  simp [turn]

/-- Where a valid entry is in use and none is ready, the scan goes on forever. -/
theorem turns_endless (hready : ∀ c ∈ list, ¬ pool.Ready status sizeBytes c)
    (hpending : ∃ c ∈ list, pool.Pending status sizeBytes c) (n : ℕ) :
    pool.turns status sizeBytes n list = none := by
  induction n generalizing list with
  | zero => rfl
  | succ n ih =>
    obtain ⟨p, hp, hpending⟩ := hpending
    cases list with
    | nil => exact absurd hp List.not_mem_nil
    | cons c list =>
      rw [turns]
      rcases ready_or_pending_or_stale pool status sizeBytes c with hc | hc | hstale
      · exact absurd hc (hready c List.mem_cons_self)
      · rw [turn_pending _ hc]
        simp only
        -- the same candidates again
        rw [ih (fun d hd => hready d (by simpa [or_comm] using hd)) ⟨c, by simp, hc⟩]
        rfl
      · rw [turn_stale _ hstale]
        simp only
        have hmem : p ∈ list := by
          rcases List.mem_cons.1 hp with rfl | hmem
          · obtain ⟨entry, hvalid, -⟩ := hpending
            exact absurd hvalid (hstale entry)
          · exact hmem
        rw [ih (fun d hd => hready d (List.mem_cons_of_mem c hd)) ⟨p, hmem, hpending⟩]
        rfl

/-- The scan of `acquire` ends, sees each candidate once, takes none only where none is ready, and
leaves those in use where they are. -/
def ScanEnds (pool : Pool) (status : ℕ → QueryResult) (sizeBytes : ℕ) : Prop :=
  ∃ n popped taken left,
    pool.turns status sizeBytes n (pool.freeLists sizeBytes) = some (popped, taken, left) ∧
    popped <+: pool.freeLists sizeBytes ∧
    (taken = none ↔ ∀ c ∈ pool.freeLists sizeBytes, ¬ pool.Ready status sizeBytes c) ∧
    ∀ c ∈ pool.freeLists sizeBytes, pool.Pending status sizeBytes c → c ∈ left

/-- **The scan ends as it should** where an entry is ready or none is in use. -/
theorem scanEnds_iff (pool : Pool) (status : ℕ → QueryResult) (sizeBytes : ℕ) :
    pool.ScanEnds status sizeBytes ↔
      (∃ c ∈ pool.freeLists sizeBytes, pool.Ready status sizeBytes c) ∨
        ∀ c ∈ pool.freeLists sizeBytes, ¬ pool.Pending status sizeBytes c := by
  constructor
  · rintro ⟨n, popped, taken, left, hturns, -⟩
    by_contra hnone
    push Not at hnone
    rw [turns_endless hnone.1 hnone.2] at hturns
    cases hturns
  · intro h
    unfold ScanEnds
    by_cases hready : ∃ c ∈ pool.freeLists sizeBytes, pool.Ready status sizeBytes c
    · -- the first one that is ready
      obtain ⟨before, c, after, hlist, hc, hbefore⟩ : ∃ before c after,
          pool.freeLists sizeBytes = before ++ c :: after ∧ pool.Ready status sizeBytes c ∧
            ∀ d ∈ before, ¬ pool.Ready status sizeBytes d := by
        classical
        obtain ⟨c, hmem, hc⟩ := hready
        obtain ⟨d, hfind⟩ : ∃ d, (pool.freeLists sizeBytes).find?
            (fun c => decide (pool.Ready status sizeBytes c)) = some d :=
          Option.isSome_iff_exists.1 (List.find?_isSome.2 ⟨c, hmem, decide_eq_true hc⟩)
        obtain ⟨hd, before, after, hlist, hbefore⟩ := List.find?_eq_some_iff_append.1 hfind
        exact ⟨before, d, after, hlist, of_decide_eq_true hd, fun e he => by
          simpa using hbefore e he⟩
      obtain ⟨entry, back, -, hback, hturns⟩ := turns_of_ready hbefore hc after
      rw [hlist]
      refine ⟨_, _, _, _, hturns, ⟨after, by simp⟩, ⟨nofun, fun hnone => ?_⟩, fun d hd hp => ?_⟩
      · exact absurd hc (hnone c (by simp))
      · rcases List.mem_append.1 hd with hd | hd
        · exact List.mem_append_right _ ((hback d).2 ⟨hd, hp⟩)
        · rcases List.mem_cons.1 hd with rfl | hd
          · exact absurd hc hp.not_ready
          · exact List.mem_append_left _ hd
    · have hnone : ∀ c ∈ pool.freeLists sizeBytes, ¬ pool.Ready status sizeBytes c :=
        fun c hc hr => hready ⟨c, hc, hr⟩
      have hpending := h.resolve_left hready
      exact ⟨_, _, _, _, turns_of_none hnone hpending, List.prefix_rfl, ⟨fun _ => hnone, fun _ => rfl⟩,
        fun c hc hp => absurd hp (hpending c hc)⟩

/-- `acquire` returns at once, or its scan ends. -/
def AcquireEnds (pool : Pool) (status : ℕ → QueryResult) (sizeBytes : ℕ) : Prop :=
  sizeBytes = 0 ∨ pool.ScanEnds status sizeBytes

/-- **`acquire` ends as it should** where it is asked for no bytes, an entry is ready or none is in
use. -/
theorem acquireEnds_iff (pool : Pool) (status : ℕ → QueryResult) (sizeBytes : ℕ) :
    pool.AcquireEnds status sizeBytes ↔
      sizeBytes = 0 ∨ (∃ c ∈ pool.freeLists sizeBytes, pool.Ready status sizeBytes c) ∨
        ∀ c ∈ pool.freeLists sizeBytes, ¬ pool.Pending status sizeBytes c :=
  or_congr_right (scanEnds_iff pool status sizeBytes)

/-- A pool with one buffer, released behind work that has not completed. -/
def onePending : Pool where
  freeLists := Function.update (fun _ => []) 256 [4096]
  allocationSizes := Function.update (fun _ => none) 4096 (some 256)
  pooledEntries := Function.update (fun _ => none) 4096 (some ⟨256, 0, some 0⟩)
  pooledOrder := [⟨0, 4096⟩]
  pooledBytes := 256
  maxPooledBytes := 65536
  nodes := 1

/-- **The scan of that pool never ends** while the work does not complete. -/
theorem onePending_endless :
    (∀ n, onePending.turns (fun _ => .notReady) 256 n (onePending.freeLists 256) = none) ∧
      ¬ onePending.AcquireEnds (fun _ => .notReady) 256 := by
  have hpending : ∃ c ∈ onePending.freeLists 256, onePending.Pending (fun _ => .notReady) 256 c :=
    ⟨4096, by simp [onePending], ⟨256, 0, some 0⟩, ⟨by simp [onePending], rfl⟩, 0, rfl, rfl⟩
  have hready : ∀ c ∈ onePending.freeLists 256, ¬ onePending.Ready (fun _ => .notReady) 256 c := by
    intro c hc
    obtain rfl : c = 4096 := by simpa [onePending] using hc
    obtain ⟨c, hc, hp⟩ := hpending
    obtain rfl : c = 4096 := by simpa [onePending] using hc
    exact hp.not_ready
  refine ⟨turns_endless hready hpending, ?_⟩
  rintro (hzero | ⟨n, popped, taken, left, hturns, -⟩)
  · cases hzero
  · rw [turns_endless hready hpending] at hturns
    cases hturns

end Matcore.Gpu.MemoryPool.Pool
