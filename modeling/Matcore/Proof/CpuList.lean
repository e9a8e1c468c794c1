import Matcore.Platform.Topology

/-!
# Lists of processors

What `parse_cpu_list` accepts is a text of items with commas between, and no two items share an
id.
-/

namespace Matcore.Platform

open Option (some_inj bind_eq_some_iff bind_eq_bind bind_some)

/-- A text of decimal digits, with its value. -/
def Decimal (text : List UInt8) (id : TopologyId) : Prop :=
  (text ≠ [] ∧ ∀ c ∈ text, 48 ≤ c ∧ c ≤ 57) ∧
    Nat.ofDigits 10 (text.reverse.map fun c => c.toNat - 48) = id.val

/-- An item: an id, or a range of at most 1048577 ids. -/
inductive Item : List UInt8 → TopologyId × TopologyId → Prop
  | id {text : List UInt8} {id : TopologyId} (h : Decimal text id) : Item text (id, id)
  | range {a b : List UInt8} {first last : TopologyId} (ha : Decimal a first)
      (hb : Decimal b last) (hle : first ≤ last) (hspan : last.val - first.val ≤ 1048576) :
      Item (a ++ 45 :: b) (first, last)

/-- Items with commas between. -/
def CpuList (text : List UInt8) (items : List (TopologyId × TopologyId)) : Prop :=
  ∃ tokens, text = [44].intercalate tokens ∧ List.Forall₂ Item tokens items

variable {text token : List UInt8} {id first last : TopologyId} {i : TopologyId × TopologyId}
  {cpus : List TopologyId} {items : List (TopologyId × TopologyId)}

theorem foldl_digits : text.foldl (fun value c => 10 * value + (c.toNat - 48)) 0 =
    Nat.ofDigits 10 (text.reverse.map fun c => c.toNat - 48) := by
  rw [Nat.ofDigits_eq_foldr, List.map_reverse, List.foldr_reverse, List.foldl_map]
  simp only [Nat.add_comm, Nat.cast_id]

theorem parseU32_eq_some : parseU32 text = some id ↔ Decimal text id := by
  unfold parseU32 Decimal
  rw [foldl_digits]
  dsimp only
  split_ifs with hdigits hvalue
  · rw [some_inj, Fin.ext_iff, and_iff_right hdigits]
  · exact iff_of_false nofun fun h => hvalue (h.2 ▸ id.isLt)
  · exact iff_of_false nofun fun h => hdigits h.1

theorem Decimal.notMem (h : Decimal text id) {c : UInt8} (hc : c < 48) : c ∉ text :=
  fun hmem => absurd (h.1.2 c hmem).1 (UInt8.not_le.2 hc)

theorem Item.facts (h : Item token i) : token ≠ [] ∧ 44 ∉ token ∧ i.1 ≤ i.2 := by
  cases h with
  | id h => exact ⟨h.1.1, h.notMem (by decide), le_rfl⟩
  | range ha hb hle hspan => simp [ha.notMem, hb.notMem, hle]

variable {c : UInt8} {a b : List UInt8}

theorem uncut (h : c ∉ a) : a.takeWhile (· != c) = a ∧ a.dropWhile (· != c) = [] := by
  have hall : ∀ d ∈ a, (d != c) = true := fun d hd => bne_iff_ne.2 (ne_of_mem_of_not_mem hd h)
  exact ⟨List.takeWhile_eq_self_iff.2 hall, List.dropWhile_eq_nil_iff.2 hall⟩

theorem cut (h : c ∉ a) : (a ++ c :: b).takeWhile (· != c) = a ∧
    (a ++ c :: b).dropWhile (· != c) = c :: b := by
  have hall : ∀ d ∈ a, (d != c) = true := fun d hd => bne_iff_ne.2 (ne_of_mem_of_not_mem hd h)
  rw [List.takeWhile_append_of_pos hall, List.dropWhile_append_of_pos hall]
  simp

/-- One item of a list. -/
theorem item_iff : Item token i ↔
    parseBounds token = some i ∧ i.2.val - i.1.val ≤ 1048576 := by
  unfold parseBounds
  constructor
  · intro h
    cases h with
    | id h =>
      have hcut := uncut (h.notMem (by decide : (45 : UInt8) < 48))
      simp [hcut, parseU32_eq_some.2 h]
    | range ha hb hle hspan =>
      have hcut {b} := cut (ha.notMem (by decide : (45 : UInt8) < 48)) (b := b)
      simp [hcut, hb.notMem, parseU32_eq_some.2 ha, parseU32_eq_some.2 hb, not_lt.2 hle, hspan]
  · rintro ⟨h, hspan⟩
    obtain ⟨first, hfirst, h⟩ := bind_eq_some_iff.1 h
    by_cases hmem : 45 ∈ token
    · obtain ⟨a, b, rfl, hnot⟩ := List.eq_append_cons_of_mem hmem
      rw [(cut hnot).1] at hfirst
      rw [(cut hnot).2] at h
      dsimp only at h
      split at h
      · cases h
      · obtain ⟨last, hlast, h⟩ := bind_eq_some_iff.1 h
        split at h
        · cases h
        · rename_i hle
          cases h
          exact .range (parseU32_eq_some.1 hfirst) (parseU32_eq_some.1 hlast) (not_lt.1 hle) hspan
    · rw [(uncut hmem).1] at hfirst
      rw [(uncut hmem).2] at h
      cases h
      exact .id (parseU32_eq_some.1 hfirst)

theorem expand_spec (h : first ≤ last) : ∃ cpus, expand last first = some cpus ∧ cpus.Nodup ∧
    ∀ id, id ∈ cpus ↔ first ≤ id ∧ id ≤ last := by
  fun_induction expand last first with
  | case1 => exact ⟨_, rfl, List.nodup_singleton _, fun id => by simp [le_antisymm_iff, and_comm]⟩
  | case2 cpu hne htop =>
    refine absurd (le_antisymm h ?_) hne
    rw [Fin.le_iff_val_le_val]
    omega
  | case3 cpu hne htop ih =>
    have hlt : cpu.val < last.val := Fin.lt_def.1 (lt_of_le_of_ne h hne)
    obtain ⟨cpus, hcpus, hnodup, hmem⟩ := ih hlt
    refine ⟨cpu :: cpus, by rw [hcpus]; rfl, List.nodup_cons.2 ⟨fun hcpu => ?_, hnodup⟩, fun id => ?_⟩
    · exact absurd ((hmem cpu).1 hcpu).1 (by simp [Fin.le_iff_val_le_val])
    · simp only [List.mem_cons, hmem, Fin.le_iff_val_le_val, Fin.ext_iff]
      omega

/-- The ids of an item. -/
def ids (i : TopologyId × TopologyId) : List TopologyId := (expand i.2 i.1).getD []

theorem Item.parse (h : Item token i) : parseItem token = some (ids i) ∧ (ids i).Nodup ∧
    ∀ id, id ∈ ids i ↔ id ∈ Set.Icc i.1 i.2 := by
  obtain ⟨hbounds, hspan⟩ := item_iff.1 h
  obtain ⟨cpus, hcpus, hmem⟩ := expand_spec h.facts.2.2
  have hids : ids i = cpus := by rw [ids, hcpus]; rfl
  rw [hids]
  refine ⟨?_, hmem⟩
  unfold parseItem
  rw [hbounds]
  exact (if_neg (Nat.not_lt.2 hspan)).trans hcpus

theorem item_of_parse (h : parseItem token = some cpus) : ∃ i, Item token i := by
  obtain ⟨⟨first, last⟩, hbounds, h⟩ := bind_eq_some_iff.1 h
  refine ⟨(first, last), item_iff.2 ⟨hbounds, Nat.not_lt.1 fun hspan => ?_⟩⟩
  dsimp only at h hspan
  rw [if_pos hspan] at h
  cases h

theorem parseItems_eq (text : List UInt8) : parseItems text =
    if text = [] then some [] else List.flatten <$> (text.splitOn 44).mapM parseItem := by
  have hnil : parseItem [] = none := rfl
  unfold parseItems
  refine if_congr Iff.rfl rfl ?_
  by_cases hmem : 44 ∈ text
  · obtain ⟨a, b, rfl, hnot⟩ := List.eq_append_cons_of_mem hmem
    obtain ⟨htake, hdrop⟩ := cut hnot (b := b)
    rw [htake, List.splitOn_append_cons_self_of_not_mem hnot, List.mapM_cons]
    dsimp only
    split_ifs with hempty
    · simp [hempty, hnil]
    · cases parseItem a with
      | none => rfl
      | some cpus =>
        dsimp only [bind_eq_bind, bind_some]
        split
        · simp_all
        · rename_i rest heq
          obtain ⟨-, rfl⟩ := List.cons.inj (hdrop.symm.trans heq)
          rw [parseItems_eq b]
          split_ifs with hb
          · simp [hb, hnil]
          · cases (b.splitOn 44).mapM parseItem <;> rfl
  · obtain ⟨htake, hdrop⟩ := uncut hmem
    rw [htake, List.splitOn_eq_singleton hmem, List.mapM_cons, List.mapM_nil]
    dsimp only
    split_ifs with hempty
    · simp [hempty, hnil]
    · cases parseItem text with
      | none => rfl
      | some cpus =>
        dsimp only [bind_eq_bind, bind_some]
        split <;> simp_all
termination_by text.length

theorem CpuList.parse (h : CpuList text items) : parseItems text = some (items.flatMap ids) ∧
    ∀ i ∈ items, (ids i).Nodup ∧ ∀ id, id ∈ ids i ↔ id ∈ Set.Icc i.1 i.2 := by
  obtain ⟨tokens, rfl, hitems⟩ := h
  have hall : (∀ token ∈ tokens, 44 ∉ token) ∧ tokens.mapM parseItem = some (items.map ids) ∧
      ∀ i ∈ items, (ids i).Nodup ∧ ∀ id, id ∈ ids i ↔ id ∈ Set.Icc i.1 i.2 := by
    induction hitems with
    | nil => exact ⟨by simp, rfl, by simp⟩
    | cons hitem _ ih =>
      refine ⟨List.forall_mem_cons.2 ⟨hitem.facts.2.1, ih.1⟩, ?_,
        List.forall_mem_cons.2 ⟨hitem.parse.2, ih.2.2⟩⟩
      rw [List.mapM_cons, hitem.parse.1, ih.2.1]
      rfl
  refine ⟨?_, hall.2.2⟩
  rw [parseItems_eq]
  cases hitems with
  | nil => rfl
  | @cons token i tokens items hitem =>
    have hne : [44].intercalate (token :: tokens) ≠ [] := by
      cases tokens <;> simp [List.intercalate, hitem.facts.1]
    rw [if_neg hne, List.splitOn_intercalate 44 hall.1 (List.cons_ne_nil _ _), hall.2.1]
    exact congrArg some (List.flatMap_def ..).symm

theorem cpuList_of_parse (h : parseItems text = some cpus) : ∃ items, CpuList text items := by
  rw [parseItems_eq] at h
  split at h
  · rename_i hempty
    exact ⟨[], [], hempty, .nil⟩
  · obtain ⟨lists, hlists, -⟩ := Option.map_eq_some_iff.1 h
    have hall : ∀ tokens lists, List.Forall₂ (fun a b => parseItem a = some b) tokens lists →
        ∃ items, List.Forall₂ Item tokens items := by
      intro tokens lists h
      induction h with
      | nil => exact ⟨[], .nil⟩
      | cons hitem _ ih =>
        obtain ⟨items, hitems⟩ := ih
        obtain ⟨i, hi⟩ := item_of_parse hitem
        exact ⟨i :: items, .cons hi hitems⟩
    obtain ⟨items, hitems⟩ := hall _ _ (Option.forall₂_of_mapM hlists)
    exact ⟨items, _, (List.intercalate_splitOn (44 : UInt8)).symm, hitems⟩

theorem strict_of_chain (h : cpus.Pairwise (· ≤ ·)) (hchain : cpus.IsChain (· ≠ ·)) :
    cpus.Pairwise (· < ·) :=
  List.isChain_iff_pairwise.1 <| List.isChain_iff_getElem.2 fun i hi =>
    lt_of_le_of_ne (List.isChain_iff_getElem.1 h.isChain i hi) (List.isChain_iff_getElem.1 hchain i hi)

/-- The whole text of a list. -/
theorem CpuList.parse_eq_some (h : CpuList text items) : parseCpuList text = some cpus ↔
    (items.flatMap ids).Nodup ∧ cpus = (items.flatMap ids).mergeSort := by
  have hperm := List.mergeSort_perm (items.flatMap ids) (· ≤ ·)
  have hsorted : ((items.flatMap ids).mergeSort).Pairwise (· ≤ ·) := List.pairwise_mergeSort' _ _
  unfold parseCpuList
  rw [h.parse.1, bind_eq_bind, bind_some]
  dsimp only
  split
  · rename_i hchain
    have hnodup := (strict_of_chain hsorted hchain).imp ne_of_lt
    exact some_inj.trans (by rw [and_iff_right (hperm.nodup_iff.1 hnodup), eq_comm])
  · rename_i hchain
    refine iff_of_false nofun fun hnodup => hchain ?_
    exact (hperm.nodup_iff.2 hnodup.1).isChain

/-- **`parse_cpu_list`** accepts the lists whose items are disjoint, and gives their ids in
increasing order. -/
theorem parse_cpu_list (text : List UInt8) :
    ((parseCpuList text).isSome = true ↔ ∃ items, CpuList text items ∧
      items.Pairwise fun i j => Disjoint (Set.Icc i.1 i.2) (Set.Icc j.1 j.2)) ∧
    ∀ cpus items, parseCpuList text = some cpus → CpuList text items →
      cpus.Pairwise (· < ·) ∧ ∀ id, id ∈ cpus ↔ ∃ i ∈ items, id ∈ Set.Icc i.1 i.2 := by
  have hdisjoint {items} (h : CpuList text items) : (items.flatMap ids).Nodup ↔
      items.Pairwise fun i j => Disjoint (Set.Icc i.1 i.2) (Set.Icc j.1 j.2) := by
    rw [List.nodup_flatMap, and_iff_right fun i hi => (h.parse.2 i hi).1]
    refine List.Pairwise.iff_of_mem fun {i j} hi hj => ?_
    simp only [Function.onFun, List.Disjoint, Set.disjoint_left, (h.parse.2 i hi).2,
      (h.parse.2 j hj).2]
  refine ⟨⟨fun h => ?_, ?_⟩, fun cpus items hcpus h => ?_⟩
  · obtain ⟨cpus, hcpus⟩ := Option.isSome_iff_exists.1 h
    obtain ⟨all, hall, -⟩ := bind_eq_some_iff.1 hcpus
    obtain ⟨items, hitems⟩ := cpuList_of_parse hall
    exact ⟨items, hitems, (hdisjoint hitems).1 (hitems.parse_eq_some.1 hcpus).1⟩
  · rintro ⟨items, hitems, hpairwise⟩
    rw [hitems.parse_eq_some.2 ⟨(hdisjoint hitems).2 hpairwise, rfl⟩]
    rfl
  · obtain ⟨hnodup, rfl⟩ := h.parse_eq_some.1 hcpus
    have hperm := List.mergeSort_perm (items.flatMap ids) (· ≤ ·)
    have hsorted := (List.pairwise_mergeSort' (· ≤ ·) (items.flatMap ids)).and
      (hperm.nodup_iff.2 hnodup)
    refine ⟨hsorted.imp fun h => lt_of_le_of_ne h.1 h.2, fun id => ?_⟩
    rw [hperm.mem_iff, List.mem_flatMap]
    exact exists_congr fun i => and_congr_right fun hi => (h.parse.2 i hi).2 id

end Matcore.Platform
