import Mathlib.Algebra.BigOperators.Fin
import Mathlib.Data.DFinsupp.WellFounded
import Matcore.Lib.Barriers
import Matcore.Lib.LoopNest
import Matcore.Lib.Ownership

/-!
# What phases lead to

The rules for blocks with barriers: phases one after the other, loops over phases, phases whose work
is shared out among the threads, and grids of blocks side by side.
-/

namespace Barriers

open List (not_mem_nil flatMap_cons mem_map finRange range map_map mem_finRange mem_cons_of_mem
  mem_cons_self flatMap_congr mem_flatMap)
open Function (onFun update_self update update_of_ne)
open Prod (snd)

variable {A V α β ι : Type} {n : ℕ} [DecidableEq A]

/-- Between two phases: the memory, and all accesses so far. -/
abbrev Between (n : ℕ) (A V : Type) := (A → V) → List (Fin n × Access A) → Prop

/-- The phases stay within a footprint and lead from one assertion to the other, whatever comes
behind them. -/
structure Leads (R W : Set A) (phases : List (Fin n → Code A V Unit)) (P Q : Between n A V) :
    Prop where
  within : ∀ phase ∈ phases, ∀ i, (phase i).Within R W
  ends : ∀ rest good, (∀ m l before, RaceFree l → Q m (l ++ before) →
      Block.EndsIn good (⟨rest, fun _ => .ret (), l, before⟩, m)) →
    ∀ m l before, RaceFree l → P m (l ++ before) →
      Block.EndsIn good (⟨phases ++ rest, fun _ => .ret (), l, before⟩, m)

section leads
variable {R W : Set A} {P P' Q Q' T : Between n A V} {phases phases' : List (Fin n → Code A V Unit)}

theorem Leads.nil (h : ∀ m l, P m l → Q m l) : Leads R W [] P Q where
  within := fun _ hphase => absurd hphase not_mem_nil
  ends := fun _ _ hrest m l before hl hP => hrest m l before hl (h m _ hP)

theorem Leads.append (h : Leads R W phases P Q) (h' : Leads R W phases' Q T) :
    Leads R W (phases ++ phases') P T where
  within := fun phase hphase =>
    (List.mem_append.1 hphase).elim (h.within phase) (h'.within phase)
  ends := by
    intro rest good hrest m l before hl hP
    rw [List.append_assoc]
    exact h.ends _ good (h'.ends rest good hrest) m l before hl hP

theorem Leads.cons {phase : Fin n → Code A V Unit} (h : Leads R W [phase] P Q)
    (h' : Leads R W phases Q T) : Leads R W (phase :: phases) P T :=
  h.append h'

/-- **The loop rule**: phases for each item of a list, one item after the other. -/
theorem Leads.flatMap (body : β → List (Fin n → Code A V Unit)) (I : ℕ → Between n A V)
    (items : List β) (h : ∀ k x, items[k]? = some x → Leads R W (body x) (I k) (I (k + 1))) :
    Leads R W (items.flatMap body) (I 0) (I items.length) := by
  induction items generalizing I with
  | nil => exact .nil fun _ _ hI => hI
  | cons x items ih =>
    rw [flatMap_cons]
    refine (h 0 x rfl).append (ih (fun k => I (k + 1)) fun k y hk => ?_)
    exact h (k + 1) y hk

/-- **The rule of one phase.** -/
theorem Leads.phase {phase : Fin n → Code A V Unit} {Rs Ws : Fin n → Set A}
    (hapart : Apart Rs Ws phase) (hR : ∀ i, ∀ a ∈ Rs i, a ∈ R ∨ a ∈ W) (hW : ∀ i, ∀ a ∈ Ws i, a ∈ W)
    (h : ∀ m l, P m l → ∀ m' l', Merged Ws phase m m' → l'.Perm (pending phase m) →
      Q m' (l' ++ l)) : Leads R W [phase] P Q where
  within := by
    intro p hp i
    obtain rfl := List.mem_singleton.1 hp
    exact (hapart.within i).mono (hR i) (hW i)
  ends := by
    intro rest good hrest m l before hl hP
    refine .step hl ⟨_, .pass rfl fun _ => rfl⟩ ?_
    rintro _ (⟨hi⟩ | ⟨hi⟩ | ⟨hphases, -⟩)
    · cases hi
    · cases hi
    · cases hphases
      refine ends_interval hapart fun m' l' hmerged hperm => ?_
      refine hrest m' l' (l ++ before) ?_ (h m _ hP m' l' hmerged hperm)
      intro x hx y hy
      exact hapart.raceFree m x (hperm.subset hx) y (hperm.subset hy)

/-- Nobody does anything. -/
theorem Leads.skip : Leads R W [fun _ : Fin n => (.ret () : Code A V Unit)] P P := by
  have hapart : Apart (fun _ => ∅) (fun _ => ∅) fun _ : Fin n => (.ret () : Code A V Unit) :=
    ⟨fun _ => trivial, fun _ _ _ _ h => h.elim⟩
  refine .phase hapart (fun _ _ h => h.elim) (fun _ _ h => h.elim) ?_
  intro m l hP m' l' hmerged hperm
  obtain rfl : m' = m := funext fun a => hmerged.frame a fun _ h => h
  have hnone : pending (fun _ : Fin n => (.ret () : Code A V Unit)) m' = [] := by
    simp [pending]
  rw [hnone] at hperm
  obtain rfl := hperm.eq_nil
  exact hP

/-- A whole block, which starts at its first phase. -/
theorem Leads.block (h : Leads R W phases P Q) {m : A → V} (hP : P m []) :
    Block.EndsIn (fun s => Q s.2 (s.1.interval ++ s.1.before))
      (⟨phases, fun _ => .ret (), [], []⟩, m) := by
  have hrun := h.ends [] (fun s => Q s.2 (s.1.interval ++ s.1.before))
    (fun m l before hl hQ => .done hl ⟨rfl, fun _ => rfl⟩ hQ)
    m [] [] (fun x hx => absurd hx not_mem_nil) hP
  rwa [List.append_nil] at hrun

end leads

/-- The items of a thread that takes every `n`th one. -/
def share (total : ℕ) (i : Fin n) : List ℕ := (Loop.strides (total - i) n).map (i + ·)

theorem mem_share {total : ℕ} {i : Fin n} {x : ℕ} :
    x ∈ share total i ↔ x < total ∧ x % n = i := by
  have hn : 0 < n := i.pos
  unfold share
  simp only [mem_map, Loop.mem_strides hn]
  constructor
  · rintro ⟨y, ⟨⟨k, rfl⟩, hlt⟩, rfl⟩
    refine ⟨by omega, ?_⟩
    rw [Nat.add_mul_mod_self_left, Nat.mod_eq_of_lt i.isLt]
  · rintro ⟨hlt, hmod⟩
    have hle : i ≤ x := hmod ▸ Nat.mod_le x n
    refine ⟨x - i, ⟨?_, by omega⟩, by omega⟩
    rw [← hmod]
    exact Nat.dvd_sub_mod x

/-- **Each item is in one share.** -/
theorem share_perm (hn : 0 < n) (total : ℕ) :
    ((finRange n).flatMap (share total)).Perm (range total) := by
  refine flatMap_perm_of_owner (List.nodup_finRange n) ?_ List.nodup_range ?_ ?_
  · intro i _
    unfold share Loop.strides
    rw [map_map]
    refine List.Nodup.map ?_ List.nodup_range
    intro x y hxy
    have hmul : x * n = y * n := by simpa using hxy
    exact Nat.eq_of_mul_eq_mul_right hn hmul
  · intro i _ j _ x hi hj
    exact Fin.ext ((mem_share.1 hi).2.symm.trans (mem_share.1 hj).2)
  · intro x
    rw [List.mem_range]
    constructor
    · intro hx
      exact ⟨⟨x % n, Nat.mod_lt x hn⟩, mem_finRange _, mem_share.2 ⟨hx, rfl⟩⟩
    · rintro ⟨i, -, hi⟩
      exact (mem_share.1 hi).1

/-- What the threads sum over their shares is the whole sum. -/
theorem sum_share {M : Type} [AddCommMonoid M] (hn : 0 < n) (total : ℕ) (f : ℕ → M) :
    ∑ i : Fin n, ((share total i).map f).sum = ∑ x ∈ Finset.range total, f x := by
  calc ∑ i : Fin n, ((share total i).map f).sum
      = (((finRange n).flatMap (share total)).map f).sum := by
        rw [Fin.sum_univ_def, List.map_flatMap, List.flatMap_def, List.sum_flatten, map_map]
        rfl
    _ = ((range total).map f).sum := ((share_perm hn total).map f).sum_eq
    _ = ∑ x ∈ Finset.range total, f x := rfl

/-- Items that own what they write. -/
structure Items (R Own : ι → Set A) (item : ι → Code A V Unit) (items : List ι) : Prop where
  nodup : items.Nodup
  within : ∀ x ∈ items, (item x).Within (R x) (Own x)
  apart : ∀ x ∈ items, ∀ y ∈ items, x ≠ y → ∀ a ∈ Own x, a ∉ R y ∧ a ∉ Own y

section items
variable {Rs Own : ι → Set A} {item : ι → Code A V Unit} {items : List ι}

omit [DecidableEq A] in
theorem Items.subset (h : Items Rs Own item items) {l : List ι} (hnodup : l.Nodup)
    (hl : ∀ x ∈ l, x ∈ items) : Items Rs Own item l where
  nodup := hnodup
  within := fun x hx => h.within x (hl x hx)
  apart := fun x hx y hy => h.apart x (hl x hx) y (hl y hy)

/-- One item after the other, each does what it does alone. -/
theorem Items.each (h : Items Rs Own item items) (m : A → V) :
    (∀ x ∈ items, ∀ a ∈ Own x, ((each item items).run m).2 a = ((item x).run m).2 a) ∧
    (∀ a, (∀ x ∈ items, a ∉ Own x) → ((each item items).run m).2 a = m a) ∧
    (each item items).accesses m = items.flatMap fun x => (item x).accesses m := by
  induction items generalizing m with
  | nil => exact ⟨fun x hx => absurd hx not_mem_nil, fun _ _ => rfl, rfl⟩
  | cons x items ih =>
    obtain ⟨hx, hnodup⟩ := List.nodup_cons.1 h.nodup
    have hrest := h.subset hnodup fun y hy => mem_cons_of_mem x hy
    have hwithin := h.within x mem_cons_self
    obtain ⟨hown, hframe, haccesses⟩ := ih hrest ((item x).run m).2
    have hother : ∀ y ∈ items, ∀ a, a ∈ Rs y ∨ a ∈ Own y → ((item x).run m).2 a = m a := by
      intro y hy a ha
      refine hwithin.frame m fun hax => ?_
      have hne : x ≠ y := fun hxy => hx (hxy ▸ hy)
      obtain ⟨hR, hOwn⟩ := h.apart x mem_cons_self y (mem_cons_of_mem x hy) hne a hax
      exact ha.elim hR hOwn
    refine ⟨fun y hy a ha => ?_, fun a ha => ?_, ?_⟩
    · rw [Barriers.each, Code.run_bind]
      rcases List.mem_cons.1 hy with rfl | hy
      · refine hframe a fun z hz haz => ?_
        have hne : y ≠ z := fun hyz => hx (hyz ▸ hz)
        exact (h.apart y mem_cons_self z (mem_cons_of_mem y hz) hne a ha).2 haz
      · rw [hown y hy a ha]
        exact ((hrest.within y hy).agree (hother y hy)).2.2 a (.inr ha)
    · rw [Barriers.each, Code.run_bind]
      rw [hframe a fun y hy => ha y (mem_cons_of_mem x hy)]
      exact hwithin.frame m (ha x mem_cons_self)
    · rw [Barriers.each, Code.accesses_bind, flatMap_cons, haccesses]
      congr 1
      refine flatMap_congr fun y hy => ?_
      exact ((hrest.within y hy).agree (hother y hy)).2.1

variable {tasks : Fin n → List ι} {Q P : Between n A V} {R W : Set A}

/-- The places that are written, one for each write. -/
def written (l : List (Fin n × Access A)) : List A := l.filterMap fun x => x.2.written

omit [DecidableEq A] in
@[simp] theorem written_nil : written ([] : List (Fin n × Access A)) = [] := rfl

omit [DecidableEq A] in
@[simp] theorem written_append (l l' : List (Fin n × Access A)) :
    written (l ++ l') = written l ++ written l' :=
  List.filterMap_append

omit [DecidableEq A] in
theorem written_perm {l : List (Fin n × Access A)} {l' : List (Access A)}
    (h : (l.map snd).Perm l') : (written l).Perm (l'.filterMap Access.written) := by
  have hmap : written l = (l.map snd).filterMap Access.written := by
    rw [List.filterMap_map]
    rfl
  rw [hmap]
  exact h.filterMap _

section

variable (hitems : Items Rs Own item items)
  (htasks : ((finRange n).flatMap tasks).Perm items)
  (hR : ∀ x ∈ items, ∀ a ∈ Rs x, a ∈ R ∨ a ∈ W) (hW : ∀ x ∈ items, ∀ a ∈ Own x, a ∈ W)

include hitems htasks hR hW

/-- The rule of a phase of items. -/
theorem Leads.shared (h : ∀ m l, P m l → ∀ m' l',
      (∀ x ∈ items, ∀ a ∈ Own x, m' a = ((item x).run m).2 a) →
      (∀ a, (∀ x ∈ items, a ∉ Own x) → m' a = m a) →
      (l'.map snd).Perm (items.flatMap fun x => (item x).accesses m) → Q m' (l' ++ l)) :
    Leads R W [fun i => each item (tasks i)] P Q := by
  have hnodup : ((finRange n).flatMap tasks).Nodup := htasks.nodup_iff.2 hitems.nodup
  obtain ⟨hlists, hpairs⟩ := List.nodup_flatMap.1 hnodup
  have hmem : ∀ i, ∀ x ∈ tasks i, x ∈ items := fun i x hx =>
    htasks.subset (mem_flatMap.2 ⟨i, mem_finRange i, hx⟩)
  have hthread : ∀ x ∈ items, ∃ i, x ∈ tasks i := fun x hx => by
    obtain ⟨i, -, hi⟩ := mem_flatMap.1 (htasks.symm.subset hx)
    exact ⟨i, hi⟩
  have hone : ∀ i j, i ≠ j → ∀ x ∈ tasks i, ∀ y ∈ tasks j, x ≠ y := by
    rintro i j hij x hi _ hj rfl
    have hsymm : Std.Symm (onFun List.Disjoint tasks) := ⟨fun _ _ h => h.symm⟩
    exact hpairs.forall (mem_finRange i) (mem_finRange j) hij hi hj
  have hthreads : ∀ i, Items Rs Own item (tasks i) := fun i =>
    hitems.subset (hlists i (mem_finRange i)) (hmem i)
  -- the footprint of a thread is that of its items
  have hapart : Apart (fun i => { a | ∃ x ∈ tasks i, a ∈ Rs x })
      (fun i => { a | ∃ x ∈ tasks i, a ∈ Own x }) (fun i => each item (tasks i)) := by
    refine ⟨fun i => within_each fun x hx => ?_, ?_⟩
    · exact (hitems.within x (hmem i x hx)).mono (fun a ha => .inl ⟨x, hx, ha⟩)
        fun a ha => ⟨x, hx, ha⟩
    · rintro i j hij a ⟨x, hx, ha⟩
      constructor
      · rintro ⟨y, hy, hay⟩
        exact (hitems.apart x (hmem i x hx) y (hmem j y hy) (hone i j hij x hx y hy) a ha).1 hay
      · rintro ⟨y, hy, hay⟩
        exact (hitems.apart x (hmem i x hx) y (hmem j y hy) (hone i j hij x hx y hy) a ha).2 hay
  refine .phase hapart ?_ ?_ fun m l hP m' l' hmerged hperm => h m l hP m' l' ?_ ?_ ?_
  · rintro i a ⟨x, hx, ha⟩
    exact hR x (hmem i x hx) a ha
  · rintro i a ⟨x, hx, ha⟩
    exact hW x (hmem i x hx) a ha
  · intro x hx a ha
    obtain ⟨i, hi⟩ := hthread x hx
    rw [hmerged.own i a ⟨x, hi, ha⟩]
    exact ((hthreads i).each m).1 x hi a ha
  · intro a ha
    refine hmerged.frame a ?_
    rintro i ⟨x, hx, hax⟩
    exact ha x (hmem i x hx) hax
  · have haccesses : (pending (fun i => each item (tasks i)) m).map snd =
        ((finRange n).flatMap tasks).flatMap fun x => (item x).accesses m := by
      unfold pending
      rw [List.map_flatMap, List.flatMap_assoc]
      refine flatMap_congr fun i _ => ?_
      rw [map_map, ((hthreads i).each m).2.2]
      exact List.map_id _
    refine (hperm.map snd).trans ?_
    rw [haccesses]
    exact htasks.flatMap_right _

/-- **The rule of a phase of items**, where only the places of the writes matter. -/
theorem Leads.owned (h : ∀ m l, P m l → ∀ m' l',
      (∀ x ∈ items, ∀ a ∈ Own x, m' a = ((item x).run m).2 a) →
      (∀ a, (∀ x ∈ items, a ∉ Own x) → m' a = m a) →
      (∀ a ∈ written l', ∃ x ∈ items, a ∈ Own x) → Q m' (l' ++ l)) :
    Leads R W [fun i => each item (tasks i)] P Q := by
  refine .shared hitems htasks hR hW fun m l hP m' l' hown hframe hperm => ?_
  refine h m l hP m' l' hown hframe fun a ha => ?_
  obtain ⟨y, hy, hwritten⟩ := List.mem_filterMap.1 ((written_perm hperm).subset ha)
  obtain ⟨x, hx, hy⟩ := mem_flatMap.1 hy
  rcases (hitems.within x hx).accesses_place m y hy with ⟨b, rfl, -⟩ | ⟨b, hb, rfl⟩
  · cases hwritten
  · cases hwritten
    exact ⟨x, hx, hb⟩

end

/-- **The rule of a phase of stores**: items read, and each stores at a place of its own. -/
theorem Leads.stores {value : ι → Code A V V} {place : ι → A} (Rs : ι → Set A)
    (hnodup : items.Nodup) (htasks : ((finRange n).flatMap tasks).Perm items)
    (hwithin : ∀ x ∈ items, (value x).Within (Rs x) {place x})
    (hapart : ∀ x ∈ items, ∀ y ∈ items, x ≠ y → place x ∉ Rs y ∧ place x ≠ place y)
    (hR : ∀ x ∈ items, ∀ a ∈ Rs x, a ∈ R ∨ a ∈ W) (hW : ∀ x ∈ items, place x ∈ W)
    (h : ∀ m l, P m l → ∃ result : ι → V, (∀ x ∈ items, (value x).Gives m (result x)) ∧
      ∀ m' l', (∀ x ∈ items, m' (place x) = result x) →
        (∀ a, (∀ x ∈ items, a ≠ place x) → m' a = m a) →
        (written l').Perm (items.map place) → Q m' (l' ++ l)) :
    Leads R W [fun i => each (fun x => (value x).bind (store (place x))) (tasks i)] P Q := by
  have hitems : Items Rs (fun x => {place x}) (fun x => (value x).bind (store (place x)))
      items := by
    refine ⟨hnodup, fun x hx => ?_, ?_⟩
    · exact (hwithin x hx).bind fun v => within_store v rfl
    · rintro x hx y hy hxy _ rfl
      exact hapart x hx y hy hxy
  refine .shared hitems htasks hR ?_ fun m l hP m' l' hown hframe hperm => ?_
  · rintro x hx _ rfl
    exact hW x hx
  · obtain ⟨result, hgives, hQ⟩ := h m l hP
    refine hQ m' l' (fun x hx => ?_) (fun a ha => hframe a ha) ?_
    · rw [hown x hx _ rfl, run_store_of_gives (hgives x hx)]
      exact update_self _ _ _
    · refine (written_perm hperm).trans ?_
      rw [List.filterMap_flatMap]
      have hone : (items.flatMap fun x =>
          (((value x).bind (store (place x))).accesses m).filterMap Access.written) =
          items.flatMap fun x => [place x] :=
        flatMap_congr fun x hx => written_store_of_gives (hgives x hx) (place x)
      rw [hone, List.map_eq_flatMap]

omit [DecidableEq A] in
theorem each_append (item : ι → Code A V Unit) (l l' : List ι) :
    (each item l).bind (fun _ => each item l') = each item (l ++ l') := by
  induction l with
  | nil => rfl
  | cons x l ih =>
    rw [each, Code.bind_assoc, List.cons_append, each]
    exact congrArg _ (funext fun _ => ih)

omit [DecidableEq A] in
theorem each_map (item : ι → Code A V Unit) (f : β → ι) (l : List β) :
    each item (l.map f) = each (fun y => item (f y)) l := by
  induction l with
  | nil => rfl
  | cons y l ih => rw [List.map_cons, each, each, ih]

omit [DecidableEq A] in
theorem each_filter (item : ι → Code A V Unit) (p : ι → Prop) [DecidablePred p] (l : List ι) :
    each (fun x => if p x then item x else .ret ()) l = each item (l.filter p) := by
  induction l with
  | nil => rfl
  | cons x l ih =>
    rw [each, ih, List.filter_cons]
    by_cases hx : p x
    · simp [hx, each]
    · simp [hx, Code.bind]

/-- The rule of a phase of stores by the items that meet a condition. -/
theorem Leads.storesWhere {p : ι → Prop} [DecidablePred p] {value : ι → Code A V V} {place : ι → A}
    (Rs : ι → Set A) (hnodup : items.Nodup) (htasks : ((finRange n).flatMap tasks).Perm items)
    (hwithin : ∀ x ∈ items, p x → (value x).Within (Rs x) {place x})
    (hapart : ∀ x ∈ items, p x → ∀ y ∈ items, p y → x ≠ y → place x ∉ Rs y ∧ place x ≠ place y)
    (hR : ∀ x ∈ items, p x → ∀ a ∈ Rs x, a ∈ R ∨ a ∈ W) (hW : ∀ x ∈ items, p x → place x ∈ W)
    (h : ∀ m l, P m l → ∃ result : ι → V, (∀ x ∈ items, p x → (value x).Gives m (result x)) ∧
      ∀ m' l', (∀ x ∈ items, p x → m' (place x) = result x) →
        (∀ a, (∀ x ∈ items, p x → a ≠ place x) → m' a = m a) →
        (written l').Perm ((items.filter p).map place) → Q m' (l' ++ l)) :
    Leads R W [fun i => each (fun x =>
      if p x then (value x).bind (store (place x)) else .ret ()) (tasks i)] P Q := by
  have hphase : (fun i => each (fun x =>
      if p x then (value x).bind (store (place x)) else .ret ()) (tasks i)) =
      fun i => each (fun x => (value x).bind (store (place x))) ((tasks i).filter p) :=
    funext fun i => each_filter (fun x => (value x).bind (store (place x))) p (tasks i)
  have hmem : ∀ x, x ∈ items.filter p ↔ x ∈ items ∧ p x := fun x => by simp
  have htasks' : ((finRange n).flatMap fun i => (tasks i).filter p).Perm
      (items.filter p) := by
    rw [← List.filter_flatMap]
    exact htasks.filter _
  rw [hphase]
  refine .stores Rs (hnodup.filter _) htasks' ?_ ?_ ?_ ?_ fun m l hP => ?_
  · intro x hx
    exact hwithin x ((hmem x).1 hx).1 ((hmem x).1 hx).2
  · intro x hx y hy
    exact hapart x ((hmem x).1 hx).1 ((hmem x).1 hx).2 y ((hmem y).1 hy).1 ((hmem y).1 hy).2
  · exact fun x hx => hR x ((hmem x).1 hx).1 ((hmem x).1 hx).2
  · exact fun x hx => hW x ((hmem x).1 hx).1 ((hmem x).1 hx).2
  · obtain ⟨result, hgives, hQ⟩ := h m l hP
    refine ⟨result, fun x hx => hgives x ((hmem x).1 hx).1 ((hmem x).1 hx).2, ?_⟩
    intro m' l' hown hframe hwritten
    refine hQ m' l' (fun x hx hpx => hown x ((hmem x).2 ⟨hx, hpx⟩)) (fun a ha => ?_) hwritten
    exact hframe a fun x hx => ha x ((hmem x).1 hx).1 ((hmem x).1 hx).2

/-- **The rule of a phase of stores by some threads**, of which each stores at most once. -/
theorem Leads.storesIf {p : Fin n → Prop} [DecidablePred p] {value : Fin n → Code A V V}
    {place : Fin n → A} (Rs : Fin n → Set A)
    (hwithin : ∀ i, p i → (value i).Within (Rs i) {place i})
    (hapart : ∀ i, p i → ∀ j, p j → i ≠ j → place i ∉ Rs j ∧ place i ≠ place j)
    (hR : ∀ i, p i → ∀ a ∈ Rs i, a ∈ R ∨ a ∈ W) (hW : ∀ i, p i → place i ∈ W)
    (h : ∀ m l, P m l → ∃ result : Fin n → V, (∀ i, p i → (value i).Gives m (result i)) ∧
      ∀ m' l', (∀ i, p i → m' (place i) = result i) →
        (∀ a, (∀ i, p i → a ≠ place i) → m' a = m a) →
        (∀ a ∈ written l', ∃ i, p i ∧ a = place i) → Q m' (l' ++ l)) :
    Leads R W [fun i => if p i then (value i).bind (store (place i)) else .ret ()] P Q := by
  have hphase : (fun i => if p i then (value i).bind (store (place i)) else .ret ()) =
      fun i => each (fun i => if p i then (value i).bind (store (place i)) else .ret ()) [i] :=
    funext fun i => (Code.bind_ret _).symm
  rw [hphase]
  refine .storesWhere Rs (List.nodup_finRange n) (by simp) (fun i _ => hwithin i)
    (fun i _ hi j _ => hapart i hi j) (fun i _ => hR i) (fun i _ => hW i) fun m l hP => ?_
  obtain ⟨result, hgives, hQ⟩ := h m l hP
  refine ⟨result, fun i _ => hgives i, fun m' l' hown hframe hwritten => ?_⟩
  refine hQ m' l' (fun i => hown i (mem_finRange i)) (fun a ha => hframe a fun i _ => ha i) ?_
  intro a ha
  obtain ⟨i, hi, rfl⟩ := mem_map.1 (hwritten.subset ha)
  exact ⟨i, of_decide_eq_true (List.mem_filter.1 hi).2, rfl⟩

end items

/-- The blocks of a grid run side by side. -/
inductive GridStep {g : ℕ} :
    (Fin g → Block n A V) × (A → V) → (Fin g → Block n A V) × (A → V) → Prop where
  | block {blocks : Fin g → Block n A V} {m m' : A → V} {j : Fin g} {b : Block n A V}
      (h : Block.Step (blocks j, m) (b, m')) :
      GridStep (blocks, m) (update blocks j b, m')

/-- All places that the blocks have written, one for each write. -/
def gridWritten {g : ℕ} (blocks : Fin g → Block n A V) : List A :=
  (finRange g).flatMap fun j => written ((blocks j).interval ++ (blocks j).before)

/-- Every run of the grid ends well, without a race in a block. -/
def GridEndsIn {g : ℕ} (good : (Fin g → Block n A V) × (A → V) → Prop)
    (s : (Fin g → Block n A V) × (A → V)) : Prop :=
  Ends GridStep (fun s => ∀ j, RaceFree (s.1 j).interval) (fun s => ∀ j, (s.1 j).Done) good s

structure Block.Within (R W : Set A) (b : Block n A V) : Prop where
  codes : ∀ i, (b.codes i).Within R W
  phases : ∀ phase ∈ b.phases, ∀ i, (phase i).Within R W

section grid
variable {R W : Set A} {b b' : Block n A V} {m m' : A → V}

/-- A step stays within the footprint of its block. -/
theorem Block.Step.within (h : Block.Step (b, m) (b', m')) (hb : b.Within R W) :
    b'.Within R W ∧ ∀ a, a ∉ W → m' a = m a := by
  cases h with
  | read hi =>
    rename_i i a next
    have hwithin := hb.codes i
    rw [hi] at hwithin
    refine ⟨⟨fun j => ?_, hb.phases⟩, fun _ _ => rfl⟩
    by_cases hji : j = i
    · subst hji
      show (update b.codes j (next (m a)) j).Within R W
      rw [update_self]
      exact hwithin.2 _
    · show (update b.codes i (next (m a)) j).Within R W
      rw [update_of_ne hji]
      exact hb.codes j
  | write hi =>
    rename_i i a v next
    have hwithin := hb.codes i
    rw [hi] at hwithin
    refine ⟨⟨fun j => ?_, hb.phases⟩, fun c hc => ?_⟩
    · by_cases hji : j = i
      · subst hji
        show (update b.codes j next j).Within R W
        rw [update_self]
        exact hwithin.2
      · show (update b.codes i next j).Within R W
        rw [update_of_ne hji]
        exact hb.codes j
    · exact update_of_ne (fun hca : c = a => hc (hca.symm ▸ hwithin.1)) _ _
  | pass hphases _ =>
    refine ⟨⟨fun i => ?_, fun p hp i => ?_⟩, fun _ _ => rfl⟩
    · exact hb.phases _ (hphases ▸ mem_cons_self) i
    · exact hb.phases p (hphases ▸ mem_cons_of_mem _ hp) i

/-- A block that has stayed within its footprint so far. -/
structure Block.Inside (R W : Set A) (b : Block n A V) : Prop where
  within : b.Within R W
  touched : ∀ x ∈ b.interval ++ b.before, x.2.place ∈ R ∨ x.2.place ∈ W

theorem Block.Step.inside (h : Block.Step (b, m) (b', m')) (hb : b.Inside R W) : b'.Inside R W := by
  refine ⟨(h.within hb.within).1, ?_⟩
  cases h with
  | read hi =>
    rename_i i a next
    have hwithin := hb.within.codes i
    rw [hi] at hwithin
    refine List.forall_mem_cons.2 ⟨?_, hb.touched⟩
    exact hwithin.1
  | write hi =>
    rename_i i a v next
    have hwithin := hb.within.codes i
    rw [hi] at hwithin
    refine List.forall_mem_cons.2 ⟨?_, hb.touched⟩
    exact .inr hwithin.1
  | pass hphases _ => exact hb.touched

theorem Block.Step.agree {mem : A → V} (h : Block.Step (b, m) (b', m')) (hb : b.Within R W)
    (hmem : ∀ a, a ∈ R ∨ a ∈ W → m a = mem a) :
    ∃ mem', Block.Step (b, mem) (b', mem') ∧ ∀ a, a ∈ R ∨ a ∈ W → m' a = mem' a := by
  cases h with
  | read hi =>
    rename_i i a next
    have hwithin := hb.codes i
    rw [hi] at hwithin
    rw [hmem a hwithin.1]
    exact ⟨mem, .read hi, hmem⟩
  | write hi =>
    rename_i i a v next
    refine ⟨_, .write hi, fun c hc => ?_⟩
    by_cases hca : c = a
    · rw [hca, update_self, update_self]
    · rw [update_of_ne hca, update_of_ne hca, hmem c hc]
  | pass hphases hcodes => exact ⟨mem, .pass hphases hcodes, hmem⟩

theorem Block.Done.stuck (h : b.Done) (s : Block n A V × (A → V)) : ¬ Block.Step (b, m) s := by
  obtain ⟨hphases, hcodes⟩ := h
  rintro (⟨hi⟩ | ⟨hi⟩ | ⟨hphase, -⟩)
  · rw [hcodes] at hi
    cases hi
  · rw [hcodes] at hi
    cases hi
  · rw [hphases] at hphase
    cases hphase

end grid

variable {g : ℕ}

theorem GridStep.not_done {s s' : (Fin g → Block n A V) × (A → V)} (h : GridStep s s') :
    ¬ ∀ j, (s.1 j).Done := by
  cases h with
  | block hstep => exact fun hdone => (hdone _).stuck _ hstep

variable {W R : Fin g → Set A} {m : A → V} {blocks : Fin g → Block n A V}

/-- **Blocks of a grid that ends have stayed within their footprints.** -/
theorem GridEndsIn.inside {good : (Fin g → Block n A V) × (A → V) → Prop}
    (h : GridEndsIn good (blocks, m)) (hin : ∀ j, (blocks j).Inside (R j) (W j)) :
    GridEndsIn (fun s => good s ∧ ∀ j, (s.1 j).Inside (R j) (W j)) (blocks, m) := by
  refine Ends.invariant ?_ h hin
  rintro _ _ hin ⟨hstep⟩ k
  rename_i blocks m m' j b
  by_cases hkj : k = j
  · subst hkj
    show Block.Inside (R k) (W k) (update blocks k b k)
    rw [update_self]
    exact hstep.inside (hin k)
  · show Block.Inside (R k) (W k) (update blocks j b k)
    rw [update_of_ne hkj]
    exact hin k

theorem wellFounded_ends {S : Type} (step : S → S → Prop) (safe done good : S → Prop) :
    WellFounded fun s' s => Ends step safe done good s ∧ ¬ done s ∧ step s s' := by
  refine ⟨fun s => ?_⟩
  by_cases h : Ends step safe done good s
  · induction h with
    | done _ hdone _ => exact ⟨_, fun s' hs' => absurd hdone hs'.2.1⟩
    | step _ _ _ ih => exact ⟨_, fun s' hs' => ih s' hs'.2.2⟩
  · exact ⟨_, fun s' hs' => absurd hs'.1 h⟩

/-- **Blocks that do not touch what another writes** end as each does alone. -/
theorem grid_ends {good : Fin g → Block n A V × (A → V) → Prop}
    (hwithin : ∀ j, (blocks j).Within (R j) (W j))
    (hapart : ∀ i j, i ≠ j → ∀ a ∈ W i, a ∉ R j ∧ a ∉ W j)
    (hends : ∀ j, Block.EndsIn (good j) (blocks j, m)) :
    GridEndsIn (fun s => ∃ mem : Fin g → A → V, (∀ j, good j (s.1 j, mem j)) ∧
      (∀ j a, a ∈ R j ∨ a ∈ W j → s.2 a = mem j a) ∧ ∀ a, (∀ j, a ∉ W j) → s.2 a = m a)
      (blocks, m) := by
  have hwf : WellFounded (Pi.Lex (· < ·) fun {j : Fin g} (s' s : Block n A V × (A → V)) =>
      Block.EndsIn (good j) s ∧ ¬ s.1.Done ∧ Block.Step s s') :=
    Pi.Lex.wellFounded (· < ·) fun j => wellFounded_ends _ _ _ (good j)
  -- the blocks with memories of their own, which agree with the common one where they look
  have hgeneral : ∀ s : Fin g → Block n A V × (A → V), (∀ j, Block.EndsIn (good j) (s j)) →
      ∀ m', (∀ j a, a ∈ R j ∨ a ∈ W j → m' a = (s j).2 a) → (∀ a, (∀ j, a ∉ W j) → m' a = m a) →
      (∀ j, (s j).1.Within (R j) (W j)) →
      GridEndsIn (fun s => ∃ mem : Fin g → A → V, (∀ j, good j (s.1 j, mem j)) ∧
        (∀ j a, a ∈ R j ∨ a ∈ W j → s.2 a = mem j a) ∧ ∀ a, (∀ j, a ∉ W j) → s.2 a = m a)
        (fun j => (s j).1, m') := by
    intro s
    induction s using hwf.induction with
    | _ s ih =>
      intro hs m' hagree hframe hin
      have hsafe : ∀ j, RaceFree (s j).1.interval := fun j => by
        cases hs j with
        | done hsafe _ _ => exact hsafe
        | step hsafe _ _ => exact hsafe
      by_cases hall : ∀ j, (s j).1.Done
      · refine .done hsafe hall ⟨fun j => (s j).2, fun j => ?_, hagree, hframe⟩
        cases hs j with
        | done _ _ hgood => exact hgood
        | step _ hnext _ =>
          obtain ⟨s', hs'⟩ := hnext
          exact absurd hs' ((hall j).stuck s')
      · refine .step hsafe ?_ ?_
        · obtain ⟨j, hj⟩ := not_forall.1 hall
          cases hs j with
          | done _ hdone _ => exact absurd hdone hj
          | step _ hnext _ =>
            obtain ⟨⟨b, mem⟩, hstep⟩ := hnext
            obtain ⟨m'', hstep', -⟩ := Block.Step.agree hstep (hin j)
              (fun a ha => (hagree j a ha).symm)
            exact ⟨_, .block hstep'⟩
        · rintro _ ⟨hstep⟩
          rename_i m'' j b
          obtain ⟨mem, hown, hagree'⟩ := Block.Step.agree hstep (hin j) (hagree j)
          obtain ⟨hin', hframe'⟩ := Block.Step.within hstep (hin j)
          have hrest : ∀ s', Block.Step (s j) s' → Block.EndsIn (good j) s' := by
            intro s' hs'
            cases hs j with
            | done _ hdone _ => exact absurd hs' (hdone.stuck s')
            | step _ _ hnext => exact hnext s' hs'
          have hnotdone : ¬ (s j).1.Done := fun hdone => hdone.stuck _ hown
          have hless : Pi.Lex (· < ·) (fun {j : Fin g} (s' s : Block n A V × (A → V)) =>
              Block.EndsIn (good j) s ∧ ¬ s.1.Done ∧ Block.Step s s')
              (update s j (b, mem)) s := by
            refine ⟨j, fun k hk => update_of_ne (ne_of_lt hk) _ _, ?_⟩
            rw [update_self]
            exact ⟨hs j, hnotdone, hown⟩
          have hblocks : update (fun k => (s k).1) j b =
              fun k => (update s j (b, mem) k).1 := by
            funext k
            by_cases hkj : k = j
            · subst hkj
              rw [update_self, update_self]
            · rw [update_of_ne hkj, update_of_ne hkj]
          rw [hblocks]
          refine ih _ hless (fun k => ?_) m'' (fun k a ha => ?_) (fun a ha => ?_) fun k => ?_
          · by_cases hkj : k = j
            · subst hkj
              rw [update_self]
              exact hrest _ hown
            · rw [update_of_ne hkj]
              exact hs k
          · by_cases hkj : k = j
            · subst hkj
              rw [update_self]
              exact hagree' a ha
            · have ha' : a ∉ W j := fun haj => by
                obtain ⟨hR, hW⟩ := hapart j k (Ne.symm hkj) a haj
                exact ha.elim hR hW
              rw [update_of_ne hkj, hframe' a ha', hagree k a ha]
          · rw [hframe' a (ha j), hframe a ha]
          · by_cases hkj : k = j
            · subst hkj
              rw [update_self]
              exact hin'
            · rw [update_of_ne hkj]
              exact hin k
  exact hgeneral (fun j => (blocks j, m)) hends m (fun _ _ _ => rfl) (fun _ _ => rfl) hwithin

/-- **The rule of a grid**: its blocks lead where each does alone. -/
theorem grid_leads {phases : Fin g → List (Fin n → Code A V Unit)} {P Q : Fin g → Between n A V}
    (hleads : ∀ j, Leads (R j) (W j) (phases j) (P j) (Q j))
    (hapart : ∀ i j, i ≠ j → ∀ a ∈ W i, a ∉ R j ∧ a ∉ W j) (hP : ∀ j, P j m []) :
    GridEndsIn (fun s => ∃ mem : Fin g → A → V,
      (∀ j, Q j (mem j) ((s.1 j).interval ++ (s.1 j).before)) ∧
      (∀ j a, a ∈ R j ∨ a ∈ W j → s.2 a = mem j a) ∧ ∀ a, (∀ j, a ∉ W j) → s.2 a = m a)
      (fun j => ⟨phases j, fun _ => .ret (), [], []⟩, m) := by
  have hwithin : ∀ j, (⟨phases j, fun _ => .ret (), [], []⟩ : Block n A V).Within (R j) (W j) :=
    fun j => ⟨fun _ => trivial, (hleads j).within⟩
  exact grid_ends hwithin hapart fun j => (hleads j).block (hP j)

end Barriers
