import Matcore.Gpu.AccumulatorHoist

/-!
# A turn of a loop whose accumulators are hoisted

The turn of the new loop goes along with the turn of the original one. Values that count are the
same in both, the memory is the same but for the outputs, and what the original loop has stored in
an output is an element of the accumulator that the new loop carries, or of the MMA of this turn
that has stored there last.
-/

namespace Matcore.Gpu.AccumulatorHoist

open List (mem_append_left mem_append_right map_cons mem_cons_self mem_cons_of_mem map_congr_left
  mem_filterMap mem_append any_eq_true mem_singleton mem_cons mem_flatMap)
open Function (update update_of_ne update_self)

variable {F P Place : Type} {values : List (WarpValue F P)} {v : ℕ} {names : List ℕ} {env : Env F P}

theorem Env.bind_of_notMem (h : v ∉ names) : env.bind names values v = env v :=
  if_neg h

variable {env' : Env F P}

theorem Env.bind_agree (h : v ∉ names → env v = env' v) :
    env.bind names values v = env'.bind names values v := by
  unfold Env.bind
  by_cases hmem : v ∈ names
  · rw [if_pos hmem, if_pos hmem]
  · rw [if_neg hmem, if_neg hmem]
    exact h hmem

variable {values' : List (WarpValue F P)} {names' : List ℕ}

theorem Env.bind_append_left (hlength : names.length = values.length) (hv : v ∈ names) :
    env.bind (names ++ names') (values ++ values') v = env'.bind names values v := by
  have hidx : names.idxOf v < values.length := hlength ▸ List.idxOf_lt_length_of_mem hv
  unfold Env.bind
  rw [if_pos (mem_append_left _ hv), if_pos hv, List.idxOf_append_of_mem hv,
    List.getD_append _ _ _ _ hidx]

theorem Env.bind_append_right (hlength : names.length = values.length) (hv : v ∉ names) :
    env.bind (names ++ names') (values ++ values') v = env.bind names' values' v := by
  unfold Env.bind
  by_cases hmem : v ∈ names'
  · rw [if_pos (mem_append_right _ hmem), if_pos hmem, List.idxOf_append_of_notMem hv,
      List.getD_append_right _ _ _ _ (by omega), hlength, Nat.add_sub_cancel_left]
  · rw [if_neg hmem, if_neg (by simp [hv, hmem])]

theorem Env.bind_map {K : Type} {keys : List K} {name : K → ℕ} {value : K → WarpValue F P} {key : K}
    (hkey : key ∈ keys) (hinj : ∀ key' ∈ keys, name key' = name key → key' = key) :
    env.bind (keys.map name) (keys.map value) (name key) = value key := by
  unfold Env.bind
  rw [if_pos (List.mem_map_of_mem hkey)]
  induction keys with
  | nil => cases hkey
  | cons first keys ih =>
    by_cases hname : name first = name key
    · rw [map_cons, map_cons, List.idxOf_cons_eq _ hname,
        hinj first mem_cons_self hname]
      rfl
    · have hne : key ≠ first := by
        rintro rfl
        exact hname rfl
      rw [map_cons, map_cons, List.idxOf_cons_ne _ hname]
      exact ih (List.mem_of_ne_of_mem hne hkey) fun key' hkey' =>
        hinj key' (mem_cons_of_mem _ hkey')

theorem Env.bind_singleton (env : Env F P) (name : ℕ) (value : WarpValue F P) :
    env.bind [name] [value] name = value := by
  simp [Env.bind]

section writeAll
variable [DecidableEq Place] {mem mem' : Place → F} {address : Lane → Place} {values : Lane → F}
  {a : Place}

theorem foldl_update_of_ne {lanes : List Lane} (h : ∀ lane ∈ lanes, address lane ≠ a) :
    lanes.foldl (fun mem lane => update mem (address lane) (values lane)) mem a =
      mem a := by
  induction lanes generalizing mem with
  | nil => rfl
  | cons lane lanes ih =>
    rw [List.foldl_cons, ih fun l hl => h l (mem_cons_of_mem _ hl)]
    exact update_of_ne (h lane mem_cons_self).symm _ _

theorem writeAll_of_ne (h : ∀ lane, address lane ≠ a) : writeAll mem address values a = mem a :=
  foldl_update_of_ne fun lane _ => h lane

theorem writeAll_agree (h : mem a = mem' a) :
    writeAll mem address values a = writeAll mem' address values a := by
  unfold writeAll
  induction List.finRange 32 generalizing mem mem' with
  | nil => exact h
  | cons lane _ ih =>
    apply ih
    change update mem _ _ a = update mem' _ _ a
    by_cases hlane : a = address lane
    · rw [hlane, update_self, update_self]
    · rw [update_of_ne hlane, update_of_ne hlane, h]

theorem writeAll_address (hinj : Function.Injective address) (lane : Lane) :
    writeAll mem address values (address lane) = values lane := by
  obtain ⟨front, behind, hsplit⟩ := List.append_of_mem (List.mem_finRange lane)
  have hnodup : (front ++ lane :: behind).Nodup := by
    rw [← hsplit]
    exact List.nodup_finRange 32
  have hbehind : ∀ l ∈ behind, address l ≠ address lane := by
    intro l hl heq
    have hne := (List.nodup_cons.1 (List.nodup_append.1 hnodup).2.1).1
    exact hne (hinj heq ▸ hl)
  rw [writeAll, hsplit, List.foldl_append, List.foldl_cons, foldl_update_of_ne hbehind,
    update_self]

end writeAll

section exec
variable [DecidableEq P] [DecidableEq Place] {M : Machine F P Place} {turn : ℕ} {op : Op P}
  {ops : List (Op P)} {s s' : State F P Place}

theorem exec_env {v : ℕ} (h : v ∉ op.results) : (op.exec M turn s).env v = s.env v := by
  cases op with
  | store value memref indices => rfl
  | _ => exact Env.bind_of_notMem h

theorem execAll_env {v : ℕ} (h : ∀ op ∈ ops, v ∉ op.results) :
    (execAll M turn ops s).env v = s.env v := by
  induction ops generalizing s with
  | nil => rfl
  | cons op ops ih =>
    have hop := h op mem_cons_self
    calc (execAll M turn ops (op.exec M turn s)).env v
        = (op.exec M turn s).env v := ih fun op' hop' => h op' (mem_cons_of_mem _ hop')
      _ = s.env v := exec_env hop

theorem exec_mem_of_not_acts (h : op.acts = false) : (op.exec M turn s).mem = s.mem := by
  cases op with
  | store value memref indices => cases h
  | effect op results operands captured inner => cases h
  | _ => rfl

theorem exec_mem {a : Place} (h : a ∉ op.touched M s) : (op.exec M turn s).mem a = s.mem a := by
  cases op with
  | store value memref indices =>
    have hne : ∀ lane, M.address (s.env memref) (indices.map s.env) lane ≠ a := by
      intro lane hlane
      exact h ⟨lane, hlane⟩
    simp only [Op.exec]
    exact writeAll_of_ne hne
  | effect op results operands captured inner => exact M.effect_frame op turn _ _ a h
  | _ => rfl

omit [DecidableEq P] [DecidableEq Place] in
theorem operands_agree (henv : ∀ v ∈ op.uses, s.env v = s'.env v) :
    op.operands.map s.env = op.operands.map s'.env :=
  map_congr_left fun v hv => henv v (mem_append_left _ hv)

omit [DecidableEq P] [DecidableEq Place] in
theorem touched_agree (henv : ∀ v ∈ op.uses, s.env v = s'.env v) :
    op.touched M s = op.touched M s' := by
  have hoperands := operands_agree henv
  cases op with
  | load result memref indices =>
    obtain ⟨hmemref, hindices⟩ := List.cons.inj hoperands
    simp only [Op.touched, hmemref, hindices]
  | store value memref indices =>
    obtain ⟨hmemref, hindices⟩ := List.cons.inj (List.cons.inj hoperands).2
    simp only [Op.touched, hmemref, hindices]
  | effect op results operands captured inner =>
    have huses : (operands ++ captured).map s.env = (operands ++ captured).map s'.env :=
      map_congr_left henv
    simp only [Op.touched, huses]
  | _ => rfl

/-- An operation does the same in two states that agree on what it reads. -/
theorem exec_agree (henv : ∀ v ∈ op.uses, s.env v = s'.env v)
    (hmem : ∀ a ∈ op.touched M s, s.mem a = s'.mem a) :
    (∀ v ∈ op.results, (op.exec M turn s).env v = (op.exec M turn s').env v) ∧
      ∀ a ∈ op.touched M s, (op.exec M turn s).mem a = (op.exec M turn s').mem a := by
  have hoperands := operands_agree henv
  cases op with
  | mma result a b c =>
    obtain ⟨ha, hb, hc⟩ : s.env a = s'.env a ∧ s.env b = s'.env b ∧ s.env c = s'.env c := by
      simpa [Op.operands] using hoperands
    simp only [Op.exec, ha, hb, hc]
    exact ⟨fun v hv => Env.bind_agree fun h => absurd hv h, hmem⟩
  | extract result source position | splat result source =>
    have hsource : s.env source = s'.env source := (List.cons.inj hoperands).1
    simp only [Op.exec, hsource]
    exact ⟨fun v hv => Env.bind_agree fun h => absurd hv h, hmem⟩
  | insert result value dest position =>
    obtain ⟨hvalue, hdest⟩ : s.env value = s'.env value ∧ s.env dest = s'.env dest := by
      simpa [Op.operands] using hoperands
    simp only [Op.exec, hvalue, hdest]
    exact ⟨fun v hv => Env.bind_agree fun h => absurd hv h, hmem⟩
  | load result memref indices =>
    obtain ⟨hmemref, hindices⟩ := List.cons.inj hoperands
    have hread : ∀ lane, s.mem (M.address (s.env memref) (indices.map s.env) lane) =
        s'.mem (M.address (s.env memref) (indices.map s.env) lane) := fun lane => hmem _ ⟨lane, rfl⟩
    simp only [Op.exec, hread]
    rw [hmemref, hindices]
    exact ⟨fun v hv => Env.bind_agree fun h => absurd hv h, hmem⟩
  | store value memref indices =>
    obtain ⟨hvalue, hoperands⟩ := List.cons.inj hoperands
    obtain ⟨hmemref, hindices⟩ := List.cons.inj hoperands
    simp only [Op.exec, hvalue, hmemref, hindices]
    exact ⟨fun v hv => absurd hv List.not_mem_nil, fun a ha => writeAll_agree (hmem a ha)⟩
  | pure op results operands =>
    have hoperands : operands.map s.env = operands.map s'.env := hoperands
    simp only [Op.exec, hoperands]
    exact ⟨fun v hv => Env.bind_agree fun h => absurd hv h, hmem⟩
  | effect op results operands captured inner =>
    have huses : (operands ++ captured).map s.env = (operands ++ captured).map s'.env :=
      map_congr_left henv
    obtain ⟨hresults, hwritten⟩ :=
      M.effect_agree op turn ((operands ++ captured).map s.env) s.mem s'.mem hmem
    simp only [Op.exec, hresults]
    rw [← huses]
    exact ⟨fun v hv => Env.bind_agree fun h => absurd hv h, hwritten⟩

end exec

section chain
variable {loop : KLoop P} {op : Op P} {ops : List (Op P)} {v : ℕ}

theorem mem_mmas : v ∈ loop.mmas ↔ ∃ a b c, Op.mma v a b c ∈ loop.body := by
  unfold KLoop.mmas
  rw [mem_filterMap]
  constructor
  · rintro ⟨op, hop, hv⟩
    cases op with
    | mma result a b c =>
      injection hv with hv
      exact ⟨a, b, c, hv ▸ hop⟩
    | _ => cases hv
  · rintro ⟨a, b, c, hop⟩
    exact ⟨_, hop, rfl⟩

theorem mem_extracts : v ∈ loop.extracts ↔
    ∃ mma position, Op.extract v mma position ∈ loop.body ∧ mma ∈ loop.mmas := by
  unfold KLoop.extracts
  rw [mem_filterMap]
  constructor
  · rintro ⟨op, hop, hv⟩
    cases op with
    | extract result source position =>
      obtain ⟨hsource, hv⟩ := Option.ite_none_right_eq_some.1 hv
      injection hv with hv
      exact ⟨source, position, hv ▸ hop, hsource⟩
    | _ => cases hv
  · rintro ⟨mma, position, hop, hmma⟩
    exact ⟨_, hop, if_pos hmma⟩

theorem used_of_inChain (h : loop.inChain op ops) : loop.used (op :: ops) = loop.used ops :=
  if_pos h

theorem used_of_not_inChain (h : ¬ loop.inChain op ops) :
    loop.used (op :: ops) = op.uses ++ loop.used ops :=
  if_neg h

theorem live_of_inChain (h : loop.inChain op ops) : loop.live (op :: ops) = loop.live ops :=
  if_pos h

theorem live_of_not_inChain (h : ¬ loop.inChain op ops) : loop.live (op :: ops) =
    (if op.acts ∨ op.results.any (· ∈ loop.live ops) then op.inputs else []) ++
      (loop.live ops).filter (· ∉ op.results) :=
  if_neg h

theorem mem_used_of_mem_inputSide (h : v ∈ KLoop.inputSide ops) : v ∈ loop.used ops := by
  induction ops generalizing v with
  | nil => cases h
  | cons op ops ih =>
    unfold KLoop.inputSide at h
    rw [List.append_assoc, mem_append, mem_append] at h
    by_cases hskip : loop.inChain op ops
    · rw [used_of_inChain hskip]
      -- the results are not made into an accumulator input, and the operation is not an MMA
      have hresults : ¬ op.results.any (· ∈ KLoop.inputSide ops) := by
        intro hany
        obtain ⟨u, hu, hin⟩ := any_eq_true.1 hany
        exact hskip.2 u hu (ih (of_decide_eq_true hin))
      rcases h with h | h | h
      · cases op with
        | mma result a b c =>
          have hcandidate := hskip.1
          simp only [KLoop.candidate, Bool.false_or] at hcandidate
          exact absurd hcandidate hresults
        | _ => cases h
      · rw [if_neg hresults] at h
        cases h
      · exact ih h
    · rw [used_of_not_inChain hskip, mem_append]
      rcases h with h | h | h
      · cases op with
        | mma result a b c =>
          rw [mem_singleton.1 h]
          exact Or.inl (by simp [Op.uses, Op.operands])
        | _ => cases h
      · by_cases hany : op.results.any (· ∈ KLoop.inputSide ops)
        · rw [if_pos hany] at h
          exact Or.inl (mem_append_left _ h)
        · rw [if_neg hany] at h
          cases h
      · exact Or.inr (ih h)

/-- Only extractions and stores are left out. -/
theorem inChain_cases (h : loop.inChain op ops) :
    (∃ v mma position, op = .extract v mma position ∧ mma ∈ loop.mmas) ∨
      ∃ v memref indices, op = .store v memref indices ∧ v ∈ loop.extracts := by
  have hresults : op.results.any (· ∈ KLoop.inputSide ops) = false := by
    rw [List.any_eq_false]
    intro v hv hin
    exact h.2 v hv (mem_used_of_mem_inputSide (of_decide_eq_true hin))
  have hcandidate := h.1
  unfold KLoop.candidate at hcandidate
  rw [hresults, Bool.or_false] at hcandidate
  cases op with
  | extract v mma position => exact Or.inl ⟨v, mma, position, rfl, of_decide_eq_true hcandidate⟩
  | store v memref indices => exact Or.inr ⟨v, memref, indices, rfl, of_decide_eq_true hcandidate⟩
  | _ => cases hcandidate

theorem isMma_of_inChain (h : loop.inChain op ops) : op.isMma = false := by
  rcases inChain_cases h with ⟨v, mma, position, rfl, -⟩ | ⟨v, memref, indices, rfl, -⟩
  · rfl
  · rfl

theorem inChain_store {memref : ℕ} {indices : List ℕ} (h : v ∈ loop.extracts) :
    loop.inChain (.store v memref indices) ops := by
  constructor
  · exact Bool.or_eq_true_iff.2 (Or.inl (decide_eq_true h))
  · intro u hu
    cases hu

theorem mem_used_of_mem_live (h : v ∈ loop.live ops) : v ∈ loop.used ops := by
  induction ops generalizing v with
  | nil => exact h
  | cons op ops ih =>
    by_cases hskip : loop.inChain op ops
    · rw [live_of_inChain hskip] at h
      rw [used_of_inChain hskip]
      exact ih h
    · rw [live_of_not_inChain hskip, mem_append] at h
      rw [used_of_not_inChain hskip, mem_append]
      rcases h with h | h
      · by_cases hlive : op.acts ∨ op.results.any (· ∈ loop.live ops)
        · rw [if_pos hlive] at h
          apply Or.inl
          cases op with
          | mma result a b c =>
            rcases mem_cons.1 h with rfl | h
            · exact mem_cons_self
            · rw [mem_singleton.1 h]
              exact mem_cons_of_mem _ mem_cons_self
          | _ => exact h
        · rw [if_neg hlive] at h
          cases h
      · exact Or.inr (ih (List.mem_of_mem_filter h))

end chain

section slots
variable {loop : KLoop P} {op op' : Op P} {ops behind : List (Op P)} {v mma : ℕ} {position : P}

theorem later (hloop : loop.WellFormed) (hbody : loop.body = ops ++ behind) (hop : op ∈ ops)
    (hop' : op' ∈ behind) (hv : v ∈ op.results ++ op.uses) : v ∉ op'.results := by
  have hordered := hloop.ordered
  rw [hbody, List.pairwise_append] at hordered
  exact hordered.2.2 op hop op' hop' v hv

theorem operand_later (hloop : loop.WellFormed) (hbody : loop.body = ops ++ op :: behind)
    (hv : v ∈ op.uses) : ∀ op' ∈ op :: behind, v ∉ op'.results := by
  intro op' hop'
  rcases mem_cons.1 hop' with rfl | hop'
  · exact hloop.own op' (hbody ▸ mem_append_right _ hop') v hv
  · have hbody' : loop.body = (ops ++ [op]) ++ behind := by simp [hbody]
    exact later hloop hbody' (mem_append_right _ mem_cons_self) hop'
      (mem_append_right _ hv)

theorem mem_of_operand (hloop : loop.WellFormed) (hbody : loop.body = ops ++ op :: behind)
    (hop' : op' ∈ loop.body) (hv : v ∈ op'.results) (huse : v ∈ op.uses) : op' ∈ ops := by
  rw [hbody, mem_append] at hop'
  rcases hop' with hop' | hop'
  · exact hop'
  · exact absurd hv (operand_later hloop hbody huse op' hop')

theorem origin_eq_some (h : loop.origin v = some (mma, position)) :
    Op.extract v mma position ∈ loop.body ∧ mma ∈ loop.mmas := by
  obtain ⟨op, hop, hv⟩ := List.exists_of_findSome?_eq_some h
  cases op with
  | extract result source p =>
    obtain ⟨⟨hresult, hsource⟩, hv⟩ := Option.ite_none_right_eq_some.1 hv
    injection hv with hv
    obtain ⟨rfl, rfl⟩ := Prod.mk.inj hv
    exact ⟨hresult ▸ hop, hsource⟩
  | _ => cases hv

theorem origin_of_mem_extracts (h : v ∈ loop.extracts) : ∃ x, loop.origin v = some x := by
  obtain ⟨mma, position, hop, hmma⟩ := mem_extracts.1 h
  rw [← Option.isSome_iff_exists, KLoop.origin, List.findSome?_isSome_iff]
  exact ⟨_, hop, by simp [hmma]⟩

theorem origin_eq_none (h : v ∉ loop.extracts) : loop.origin v = none := by
  cases horigin : loop.origin v with
  | none => rfl
  | some x =>
    obtain ⟨hop, hmma⟩ := origin_eq_some horigin
    exact absurd (mem_extracts.2 ⟨_, _, hop, hmma⟩) h

theorem mem_patterns {memref : ℕ} {indices : List ℕ}
    (hextract : Op.extract v mma position ∈ loop.body)
    (hstore : Op.store v memref indices ∈ loop.body) :
    (⟨v, position, memref, indices⟩ : Pattern P) ∈ loop.patterns mma := by
  have hstores : (⟨v, position, memref, indices⟩ : Pattern P) ∈ loop.storesOf v position :=
    mem_filterMap.2 ⟨_, hstore, if_pos rfl⟩
  rw [KLoop.patterns, (loop.order_perm _ _).mem_iff, mem_flatMap]
  exact ⟨_, hextract, by simpa using hstores⟩

variable [DecidableEq P] {key : Option (ℕ × List ℕ)} {slot : Slot P}

theorem lastStored_append : loop.lastStored key slot (ops ++ [op]) =
    (loop.storedBy key slot op).or (loop.lastStored key slot ops) := by
  simp [KLoop.lastStored]

theorem storedBy_eq_some (h : loop.storedBy key slot op = some mma) :
    ∃ v position memref indices, op = .store v memref indices ∧
      loop.origin v = some (mma, position) := by
  cases op with
  | store v memref indices =>
    obtain ⟨⟨source, position⟩, horigin, hstored⟩ := Option.bind_eq_some_iff.1 h
    obtain ⟨-, hsource⟩ := Option.ite_none_right_eq_some.1 hstored
    injection hsource with hsource
    exact ⟨v, position, memref, indices, rfl, hsource ▸ horigin⟩
  | _ => cases h

theorem storedBy_of_not_inChain (h : ¬ loop.inChain op behind) :
    loop.storedBy key slot op = none := by
  cases hstored : loop.storedBy key slot op with
  | none => rfl
  | some mma =>
    obtain ⟨v, position, memref, indices, rfl, horigin⟩ := storedBy_eq_some hstored
    obtain ⟨hop, hmma⟩ := origin_eq_some horigin
    exact absurd (inChain_store (mem_extracts.2 ⟨_, _, hop, hmma⟩)) h

theorem exists_of_lastStored (h : loop.lastStored key slot ops = some mma) :
    ∃ op ∈ ops, loop.storedBy key slot op = some mma := by
  induction ops using List.reverseRecOn with
  | nil => cases h
  | append_singleton ops op ih =>
    rw [lastStored_append] at h
    cases hstored : loop.storedBy key slot op with
    | some source =>
      rw [hstored] at h
      exact ⟨op, by simp, hstored.trans h⟩
    | none =>
      rw [hstored, Option.none_or] at h
      obtain ⟨op', hop', hstored'⟩ := ih h
      exact ⟨op', mem_append_left _ hop', hstored'⟩

theorem lastStored_later (hloop : loop.WellFormed) (hbody : loop.body = ops ++ behind)
    (h : loop.lastStored key slot ops = some mma) (hop : op ∈ behind) : mma ∉ op.results := by
  obtain ⟨store, hstore, hstored⟩ := exists_of_lastStored h
  obtain ⟨v, position, memref, indices, rfl, horigin⟩ := storedBy_eq_some hstored
  obtain ⟨front, back, rfl⟩ := List.append_of_mem hstore
  rw [List.append_assoc, List.cons_append] at hbody
  have hextract := mem_of_operand hloop hbody (origin_eq_some horigin).1 mem_cons_self
    mem_cons_self
  exact later hloop hbody hextract (mem_cons_of_mem _ (mem_append_right _ hop))
    (mem_append_right _ mem_cons_self)

end slots

section addresses
variable [DecidableEq P] [DecidableEq Place] {M : Machine F P Place} {loop : KLoop P}

/-- The operations behind the loop make the addresses that are made in it. -/
theorem clonesFrom_agree {turn : ℕ} {ops : List (Op P)} {s s' : State F P Place}
    (hordered : ops.Pairwise fun op op' => ∀ v ∈ op.results ++ op.uses, v ∉ op'.results)
    (hown : ∀ op ∈ ops, ∀ v ∈ op.uses, v ∉ op.results)
    (hpure : ∀ op ∈ (loop.clonesFrom ops).1, ∃ op' results operands,
      op = .pure op' results operands)
    (h : ∀ v ∈ (loop.clonesFrom ops).2, (∀ op ∈ ops, v ∉ op.results) → s.env v = s'.env v) :
    ∀ v ∈ loop.addresses, (execAll M turn ops s).env v =
      (execAll M 0 (loop.clonesFrom ops).1 s').env v := by
  induction ops generalizing s s' with
  | nil =>
    intro v hv
    exact h v hv (by simp)
  | cons op ops ih =>
    obtain ⟨hop, hordered'⟩ := List.pairwise_cons.1 hordered
    have hown' : ∀ op ∈ ops, ∀ v ∈ op.uses, v ∉ op.results :=
      fun op hop => hown op (mem_cons_of_mem _ hop)
    by_cases hany : op.results.any (· ∈ (loop.clonesFrom ops).2)
    · have hclones : loop.clonesFrom (op :: ops) =
          (op :: (loop.clonesFrom ops).1, op.operands ++ (loop.clonesFrom ops).2) := if_pos hany
      rw [hclones] at h hpure ⊢
      obtain ⟨op', results, operands, rfl⟩ := hpure op mem_cons_self
      have hoperands : ∀ v ∈ (Op.pure (P := P) op' results operands).uses,
          s.env v = s'.env v := by
        intro v hv
        have hin : v ∈ operands := by simpa [Op.uses, Op.operands, Op.captured] using hv
        apply h v (mem_append_left _ hin)
        intro op'' hop''
        rcases mem_cons.1 hop'' with rfl | hop''
        · exact hown _ mem_cons_self v hv
        · exact hop op'' hop'' v (mem_append_right _ hv)
      have hnothing : ∀ a ∈ (Op.pure (P := P) op' results operands).touched M s,
          s.mem a = s'.mem a := by
        intro a ha
        cases ha
      refine ih hordered' hown' (fun op hop => hpure op (mem_cons_of_mem _ hop)) ?_
      intro v hv hresults
      by_cases hmem : v ∈ results
      · exact (exec_agree hoperands hnothing).1 v hmem
      · rw [exec_env hmem, exec_env hmem]
        apply h v (mem_append_right _ hv)
        intro op'' hop''
        rcases mem_cons.1 hop'' with rfl | hop''
        · exact hmem
        · exact hresults op'' hop''
    · have hclones : loop.clonesFrom (op :: ops) = loop.clonesFrom ops := if_neg hany
      rw [hclones] at h hpure ⊢
      refine ih hordered' hown' hpure ?_
      intro v hv hresults
      have hmem : v ∉ op.results := by
        intro hmem
        exact hany (any_eq_true.2 ⟨v, hmem, decide_eq_true hv⟩)
      rw [exec_env hmem]
      apply h v hv
      intro op'' hop''
      rcases mem_cons.1 hop'' with rfl | hop''
      · exact hmem
      · exact hresults op'' hop''

end addresses

section turn
variable {M : Machine F P Place} {loop : KLoop P} {s₀ : Carried F P Place} {turn : ℕ}
  {acc : Option (ℕ × List ℕ) → WarpValue F P} {ops behind : List (Op P)} {op : Op P}
  {s s' t t' : State F P Place} {bounds : Bounds}

/-- What both turns have made so far. -/
structure Made (M : Machine F P Place) (loop : KLoop P) (acc : Option (ℕ × List ℕ) → WarpValue F P)
    (ops : List (Op P)) (s s' : State F P Place) : Prop where
  mmas : ∀ mma a b c, .mma mma a b c ∈ ops → s.env mma = s'.env mma
  extracts : ∀ v mma position, .extract v mma position ∈ ops → mma ∈ loop.mmas → ∀ lane,
    M.scalar (s.env v lane) = M.elements (s'.env mma lane) position
  accs : ∀ key ∈ loop.groupKeys, s'.env (loop.accArg key) = acc key

theorem Made.frame (hloop : loop.WellFormed) (hbody : loop.body = ops ++ op :: behind)
    (h : Made M loop acc ops s s') (ht : ∀ v ∉ op.results, t.env v = s.env v)
    (ht' : ∀ v ∉ op.results, t'.env v = s'.env v) : Made M loop acc ops t t' := by
  have hop : op ∈ op :: behind := mem_cons_self
  constructor
  · intro mma a b c hmma
    have hlater : mma ∉ op.results := later hloop hbody hmma hop mem_cons_self
    rw [ht mma hlater, ht' mma hlater]
    exact h.mmas mma a b c hmma
  · intro v mma position hextract hmma lane
    have hv : v ∉ op.results := later hloop hbody hextract hop mem_cons_self
    have hsource : mma ∉ op.results :=
      later hloop hbody hextract hop (mem_append_right _ mem_cons_self)
    rw [ht v hv, ht' mma hsource]
    exact h.extracts v mma position hextract hmma lane
  · intro key hkey
    rw [ht' _ ?_]
    · exact h.accs key hkey
    · intro hres
      have hin : op ∈ loop.body := hbody ▸ mem_append_right _ hop
      have hlt := hloop.fresh op hin _ (mem_append_left _ hres)
      unfold KLoop.accArg at hlt
      omega

theorem Made.source (hloop : loop.WellFormed) (hbody : loop.body = ops ++ op :: behind)
    (h : Made M loop acc ops s s') {mma : ℕ} (hmma : mma ∈ loop.mmas) (huse : mma ∈ op.uses) :
    s.env mma = s'.env mma := by
  obtain ⟨a, b, c, hop⟩ := mem_mmas.1 hmma
  have hops := mem_of_operand hloop hbody hop mem_cons_self huse
  exact h.mmas mma a b c hops

/-- What an operation adds, that is not an MMA or is the same one in both loops. -/
theorem Made.append (h : Made M loop acc ops s s')
    (hmma : ∀ mma a b c, op = .mma mma a b c → s.env mma = s'.env mma)
    (hextract : ∀ v mma position, op = .extract v mma position → mma ∈ loop.mmas → ∀ lane,
      M.scalar (s.env v lane) = M.elements (s'.env mma lane) position) :
    Made M loop acc (ops ++ [op]) s s' := by
  refine ⟨?_, ?_, h.accs⟩
  · intro mma a b c hmem
    rcases mem_append.1 hmem with hmem | hmem
    · exact h.mmas mma a b c hmem
    · exact hmma mma a b c (mem_singleton.1 hmem).symm
  · intro v mma position hmem hsource lane
    rcases mem_append.1 hmem with hmem | hmem
    · exact h.extracts v mma position hmem hsource lane
    · exact hextract v mma position (mem_singleton.1 hmem).symm hsource lane

theorem key_mem {mma : ℕ} (hmma : mma ∈ loop.mmas) : loop.key mma ∈ loop.groupKeys :=
  List.mem_eraseDups.2 (List.mem_map_of_mem hmma)

variable {v : ℕ} {key : Option (ℕ × List ℕ)} {pattern : Pattern P}

theorem mem_addresses (hkey : key ∈ loop.groupKeys) (hpattern : pattern ∈ loop.lastPatterns key)
    (hv : v ∈ pattern.memref :: pattern.indices) :
    v ∈ loop.addresses := by
  unfold KLoop.addresses
  rw [mem_flatMap]
  exact ⟨key, hkey, mem_flatMap.2 ⟨pattern, hpattern, hv⟩⟩

theorem mem_live_of_notMem (hskip : ¬ loop.inChain op behind) (hv : v ∈ loop.live behind)
    (hres : v ∉ op.results) : v ∈ loop.live (op :: behind) := by
  rw [live_of_not_inChain hskip]
  exact mem_append_right _ (List.mem_filter.2 ⟨hv, decide_eq_true hres⟩)

theorem mem_live_of_inputs (hskip : ¬ loop.inChain op behind)
    (hlive : op.acts ∨ op.results.any (· ∈ loop.live behind)) (hv : v ∈ op.inputs) :
    v ∈ loop.live (op :: behind) := by
  rw [live_of_not_inChain hskip, if_pos hlive]
  exact mem_append_left _ hv

theorem inputs_of_isMma (hop : op.isMma = false) : op.inputs = op.uses := by
  cases op with
  | mma result a b c => cases hop
  | _ => rfl

variable [DecidableEq P]

/-- The result of the last MMA of a group that has stored in a slot, or else the accumulator. -/
def top (loop : KLoop P) (s' : State F P Place) (ops : List (Op P)) (key : Option (ℕ × List ℕ))
    (slot : Slot P) : WarpValue F P :=
  s'.env ((loop.lastStored key slot ops).getD (loop.accArg key))

theorem top_frame (hloop : loop.WellFormed) (hbody : loop.body = ops ++ op :: behind)
    (h : Made M loop acc ops s s') (ht' : ∀ v ∉ op.results, t'.env v = s'.env v)
    (hkey : key ∈ loop.groupKeys) {slot : Slot P} (hstored : loop.storedBy key slot op = none) :
    top loop t' (ops ++ [op]) key slot = top loop s' ops key slot := by
  have hacc := (h.frame hloop hbody (t := s) (fun v _ => rfl) ht').accs key hkey
  unfold top
  rw [lastStored_append, hstored, Option.none_or]
  cases hlast : loop.lastStored key slot ops with
  | none => exact hacc.trans (h.accs key hkey).symm
  | some mma => exact ht' mma (lastStored_later hloop hbody hlast mem_cons_self)

variable [DecidableEq Place]

/-- **The invariant of a turn**: the states of both loops, after some operations. -/
structure Inside (M : Machine F P Place) (loop : KLoop P) (s₀ : Carried F P Place) (turn : ℕ)
    (acc : Option (ℕ × List ℕ) → WarpValue F P) (ops behind : List (Op P))
    (s s' : State F P Place) : Prop where
  made : Made M loop acc ops s s'
  live : ∀ v ∈ loop.live behind, s.env v = s'.env v
  mem : ∀ a ∉ loop.outputs M s₀, s.mem a = s'.mem a
  outputs : ∀ a ∈ loop.outputs M s₀, s'.mem a = s₀.2.mem a
  stored : ∀ key ∈ loop.groupKeys, ∀ pattern ∈ loop.lastPatterns key, ∀ lane,
    s.mem (loop.place M s₀ pattern.slot lane) =
      M.elements (top loop s' ops key pattern.slot lane) pattern.position
  addresses : ∀ v ∈ loop.addresses, (execAll M turn behind s).env v =
    (execAll M 0 loop.clones s₀.2).env v

theorem Inside.extract (hloop : loop.WellFormed) {mma : ℕ} {position : P}
    (hbody : loop.body = ops ++ .extract v mma position :: behind)
    (hskip : loop.inChain (.extract v mma position) behind) (hmma : mma ∈ loop.mmas)
    (h : Inside M loop s₀ turn acc ops (.extract v mma position :: behind) s s') :
    Inside M loop s₀ turn acc (ops ++ [.extract v mma position]) behind
      ((Op.extract v mma position).exec M turn s) s' := by
  have hsource : s.env mma = s'.env mma :=
    h.made.source hloop hbody hmma mem_cons_self
  constructor
  · apply (h.made.frame hloop hbody (fun u hu => exec_env hu) (fun u _ => rfl)).append
    · intro mma' a b c heq
      cases heq
    · intro v' mma' position' heq _ lane
      cases heq
      change M.scalar (Env.bind _ [v] _ v lane) = _
      rw [Env.bind_singleton, hsource]
      rfl
  · intro u hu
    have hne : u ∉ (Op.extract v mma position).results := by
      intro hres
      exact hskip.2 u hres (mem_used_of_mem_live hu)
    rw [exec_env hne]
    exact h.live u ((live_of_inChain hskip).symm ▸ hu)
  · exact h.mem
  · exact h.outputs
  · intro key hkey pattern hpattern lane
    rw [top_frame hloop hbody h.made (fun u _ => rfl) hkey rfl]
    exact h.stored key hkey pattern hpattern lane
  · exact h.addresses

/-- The slot in which an element of an MMA is stored is one of its group. -/
theorem exists_lastPattern (hacc : loop.Accumulates M s₀ bounds) {mma : ℕ} (hmma : mma ∈ loop.mmas)
    (hpattern : pattern ∈ loop.patterns mma) :
    ∃ last ∈ loop.lastPatterns (loop.key mma), last.slot = pattern.slot :=
  List.mem_map.1 ((hacc.same mma hmma _).1 (List.mem_map_of_mem hpattern))

theorem Inside.address (hloop : loop.WellFormed) {memref : ℕ} {indices : List ℕ}
    (hbody : loop.body = ops ++ .store v memref indices :: behind)
    (h : Inside M loop s₀ turn acc ops (.store v memref indices :: behind) s s')
    (hkey : key ∈ loop.groupKeys) {last : Pattern P} (hlast : last ∈ loop.lastPatterns key)
    {position : P} (hslot : last.slot = (position, memref, indices)) :
    M.address (s.env memref) (indices.map s.env) = loop.place M s₀ last.slot := by
  obtain ⟨hmemref, hindices⟩ := Prod.mk.inj (Prod.mk.inj hslot).2
  have henv : ∀ u ∈ memref :: indices, s.env u = (execAll M 0 loop.clones s₀.2).env u := by
    intro u hu
    have hlater : ∀ op ∈ Op.store v memref indices :: behind, u ∉ op.results :=
      operand_later hloop hbody (mem_append_left _ (mem_cons_of_mem _ hu))
    rw [← h.addresses u (mem_addresses hkey hlast (by rw [hmemref, hindices]; exact hu)),
      execAll_env hlater]
  have hmap : indices.map s.env = indices.map (execAll M 0 loop.clones s₀.2).env :=
    map_congr_left fun u hu => henv u (mem_cons_of_mem _ hu)
  funext lane
  rw [hslot, KLoop.place, henv memref mem_cons_self, hmap]

theorem Inside.store (hloop : loop.WellFormed) (hacc : loop.Accumulates M s₀ bounds) {memref : ℕ}
    {indices : List ℕ} (hbody : loop.body = ops ++ .store v memref indices :: behind)
    (hskip : loop.inChain (.store v memref indices) behind) (hv : v ∈ loop.extracts)
    (h : Inside M loop s₀ turn acc ops (.store v memref indices :: behind) s s') :
    Inside M loop s₀ turn acc (ops ++ [.store v memref indices]) behind
      ((Op.store v memref indices).exec M turn s) s' := by
  obtain ⟨⟨mma, position⟩, horigin⟩ := origin_of_mem_extracts hv
  obtain ⟨hextract, hmma⟩ := origin_eq_some horigin
  have hstore : Op.store v memref indices ∈ loop.body :=
    hbody ▸ mem_append_right _ mem_cons_self
  obtain ⟨last, hlast, hslot⟩ :=
    exists_lastPattern hacc hmma (mem_patterns hextract hstore)
  have haddress := h.address hloop hbody (key_mem hmma) hlast hslot
  have hvalue := h.made.extracts v mma position
    (mem_of_operand hloop hbody hextract mem_cons_self mem_cons_self) hmma
  -- what the store does to the memory
  have hmem : ((Op.store v memref indices).exec M turn s).mem = writeAll s.mem
      (loop.place M s₀ last.slot) fun lane => M.elements (s'.env mma lane) position := by
    simp only [Op.exec, haddress, hvalue]
  have hinj : Function.Injective (loop.place M s₀ last.slot) := by
    intro lane lane' heq
    exact (hacc.apart _ (key_mem hmma) _ (key_mem hmma) _ hlast _ hlast _ _ heq).2.2
  constructor
  · apply (h.made.frame hloop hbody (fun u hu => exec_env hu) (fun u _ => rfl)).append
    · intro mma' a b c heq
      cases heq
    · intro v' mma' position' heq
      cases heq
  · intro u hu
    exact h.live u ((live_of_inChain hskip).symm ▸ hu)
  · intro a ha
    rw [hmem, writeAll_of_ne]
    · exact h.mem a ha
    · intro lane hlane
      exact ha ⟨_, key_mem hmma, last, hlast, lane, hlane.symm⟩
  · exact h.outputs
  · intro key hkey pattern hpattern lane
    rw [hmem]
    by_cases hsame : loop.key mma = key ∧ last.slot = pattern.slot
    · -- this slot: the MMA is the last one that has stored there
      have htop : loop.storedBy key pattern.slot (.store v memref indices) = some mma := by
        have hslot' : (position, memref, indices) = pattern.slot := hslot.symm.trans hsame.2
        simp [KLoop.storedBy, horigin, hsame.1, hslot']
      have hposition : pattern.position = position :=
        congrArg Prod.fst (hsame.2.symm.trans hslot)
      rw [← hsame.2, writeAll_address hinj, hsame.2, top, lastStored_append, htop, hposition]
      rfl
    · have htop : loop.storedBy key pattern.slot (.store v memref indices) = none := by
        have hslot' : last.slot = (position, memref, indices) := hslot
        rw [hslot'] at hsame
        simp only [KLoop.storedBy, horigin, Option.bind_some, if_neg hsame]
      rw [writeAll_of_ne, top_frame hloop hbody h.made (fun u _ => rfl) hkey htop]
      · exact h.stored key hkey pattern hpattern lane
      · intro lane' heq
        obtain ⟨hkeys, hslots, -⟩ :=
          hacc.apart _ (key_mem hmma) _ hkey _ hlast _ hpattern _ _ heq
        exact hsame ⟨hkeys, hslots⟩
  · exact h.addresses

theorem Inside.input (hacc : loop.Accumulates M s₀ bounds) {mma a b c : ℕ}
    (hbody : loop.body = ops ++ .mma mma a b c :: behind)
    (hfits : loop.Fits M s₀ ops (.mma mma a b c) behind s)
    (h : Inside M loop s₀ turn acc ops (.mma mma a b c :: behind) s s') (lane : Lane) :
    M.elements (s.env c lane) = M.elements (s'.env (loop.accInput mma) lane) := by
  have hmma : mma ∈ loop.mmas :=
    mem_mmas.2 ⟨a, b, c, hbody ▸ mem_append_right _ mem_cons_self⟩
  funext position
  obtain ⟨pattern, hpattern, rfl⟩ := hacc.covers mma hmma position
  obtain ⟨last, hlast, hslot⟩ := exists_lastPattern hacc hmma hpattern
  obtain ⟨hprevious, hinput⟩ := hfits pattern hpattern
  have hposition : last.position = pattern.position := congrArg Prod.fst hslot
  calc M.elements (s.env c lane) pattern.position
      = s.mem (loop.place M s₀ last.slot lane) := by rw [hinput lane, hslot]
    _ = M.elements (top loop s' ops (loop.key mma) last.slot lane) last.position :=
        h.stored _ (key_mem hmma) last hlast lane
    _ = M.elements (s'.env (loop.accInput mma) lane) pattern.position := by
        rw [hposition, hslot, top, hprevious]
        rfl

theorem Inside.mma (hloop : loop.WellFormed) (hacc : loop.Accumulates M s₀ bounds)
    {mma a b c : ℕ} (hbody : loop.body = ops ++ .mma mma a b c :: behind)
    (hskip : ¬ loop.inChain (.mma mma a b c) behind)
    (hfits : loop.Fits M s₀ ops (.mma mma a b c) behind s)
    (h : Inside M loop s₀ turn acc ops (.mma mma a b c :: behind) s s') :
    Inside M loop s₀ turn acc (ops ++ [.mma mma a b c]) behind
      ((Op.mma mma a b c).exec M turn s) ((loop.rewire (.mma mma a b c)).exec M turn s') := by
  have ha : s.env a = s'.env a :=
    h.live a (mem_live_of_inputs hskip (Or.inl rfl) mem_cons_self)
  have hb : s.env b = s'.env b :=
    h.live b (mem_live_of_inputs hskip (Or.inl rfl) (mem_cons_of_mem _ mem_cons_self))
  have hc := h.input hacc hbody hfits
  have hresult : ((Op.mma mma a b c).exec M turn s).env mma =
      ((loop.rewire (.mma mma a b c)).exec M turn s').env mma := by
    simp only [KLoop.rewire, Op.exec, ha, hb, hc, Env.bind_singleton]
  have hframe : ∀ v ∉ (Op.mma mma a b c : Op P).results,
      ((loop.rewire (.mma mma a b c)).exec M turn s').env v = s'.env v := fun v hv => exec_env hv
  constructor
  · apply (h.made.frame hloop hbody (fun v hv => exec_env hv) hframe).append
    · intro mma' a' b' c' heq
      cases heq
      exact hresult
    · intro v mma' position heq
      cases heq
  · intro v hv
    by_cases hres : v ∈ (Op.mma mma a b c : Op P).results
    · rw [mem_singleton.1 hres]
      exact hresult
    · rw [exec_env hres, hframe v hres]
      exact h.live v (mem_live_of_notMem hskip hv hres)
  · exact h.mem
  · exact h.outputs
  · intro key hkey pattern hpattern lane
    rw [top_frame hloop hbody h.made hframe hkey rfl]
    exact h.stored key hkey pattern hpattern lane
  · exact h.addresses

theorem touched_disjoint (hskip : ¬ loop.inChain op behind)
    (hlive : op.acts ∨ op.results.any (· ∈ loop.live behind))
    (hfits : loop.Fits M s₀ ops op behind s) : Disjoint (op.touched M s) (loop.outputs M s₀) := by
  cases op with
  | load result memref indices =>
    apply hfits
    rcases hlive with hacts | hany
    · cases hacts
    · obtain ⟨v, hv, hin⟩ := any_eq_true.1 hany
      rw [← mem_singleton.1 hv]
      exact of_decide_eq_true hin
  | store value memref indices =>
    apply hfits
    apply origin_eq_none
    intro hextracts
    exact hskip (inChain_store hextracts)
  | effect op results operands captured inner => exact hfits
  | _ => exact Set.empty_disjoint _

/-- What counts is the same in both loops, and outputs are not touched. -/
theorem Inside.agree (hskip : ¬ loop.inChain op behind) (hop : op.isMma = false)
    (hfits : loop.Fits M s₀ ops op behind s)
    (h : Inside M loop s₀ turn acc ops (op :: behind) s s') :
    (∀ v ∈ op.results, v ∈ loop.live behind →
      (op.exec M turn s).env v = (op.exec M turn s').env v) ∧
    (∀ a ∉ loop.outputs M s₀, (op.exec M turn s).mem a = (op.exec M turn s').mem a) ∧
    ∀ a ∈ loop.outputs M s₀, (op.exec M turn s).mem a = s.mem a ∧
      (op.exec M turn s').mem a = s'.mem a := by
  by_cases hlive : op.acts ∨ op.results.any (· ∈ loop.live behind)
  · have hdisjoint := touched_disjoint hskip hlive hfits
    have henv : ∀ v ∈ op.uses, s.env v = s'.env v := by
      intro v hv
      rw [← inputs_of_isMma hop] at hv
      exact h.live v (mem_live_of_inputs hskip hlive hv)
    have htouched : op.touched M s = op.touched M s' := touched_agree henv
    have hread : ∀ a ∈ op.touched M s, s.mem a = s'.mem a :=
      fun a ha => h.mem a (Set.disjoint_left.1 hdisjoint ha)
    have hagree : (∀ v ∈ op.results, (op.exec M turn s).env v = (op.exec M turn s').env v) ∧
        ∀ a ∈ op.touched M s, (op.exec M turn s).mem a = (op.exec M turn s').mem a :=
      exec_agree henv hread
    obtain ⟨hresults, hwritten⟩ := hagree
    refine ⟨fun v hv _ => hresults v hv, ?_, ?_⟩
    · intro a ha
      by_cases hin : a ∈ op.touched M s
      · exact hwritten a hin
      · rw [exec_mem hin, exec_mem (htouched ▸ hin)]
        exact h.mem a ha
    · intro a ha
      have hout : a ∉ op.touched M s := Set.disjoint_right.1 hdisjoint ha
      exact ⟨exec_mem hout, exec_mem (htouched ▸ hout)⟩
  · obtain ⟨hacts, hany⟩ := not_or.1 hlive
    have hmem (u : State F P Place) : (op.exec M turn u).mem = u.mem :=
      exec_mem_of_not_acts (Bool.eq_false_iff.2 hacts)
    refine ⟨?_, ?_, ?_⟩
    · intro v hv hin
      exact absurd (any_eq_true.2 ⟨v, hv, decide_eq_true hin⟩) hany
    · intro a ha
      rw [hmem, hmem]
      exact h.mem a ha
    · intro a _
      rw [hmem, hmem]
      exact ⟨rfl, rfl⟩

theorem Inside.keep (hloop : loop.WellFormed) (hbody : loop.body = ops ++ op :: behind)
    (hskip : ¬ loop.inChain op behind) (hop : op.isMma = false)
    (hfits : loop.Fits M s₀ ops op behind s)
    (h : Inside M loop s₀ turn acc ops (op :: behind) s s') :
    Inside M loop s₀ turn acc (ops ++ [op]) behind (op.exec M turn s) (op.exec M turn s') := by
  obtain ⟨hresults, hmem, hout⟩ := h.agree hskip hop hfits
  have hframe : ∀ v ∉ op.results, (op.exec M turn s').env v = s'.env v := fun v hv => exec_env hv
  constructor
  · apply (h.made.frame hloop hbody (fun v hv => exec_env hv) hframe).append
    · rintro mma a b c rfl
      cases hop
    · rintro v mma position rfl hmma lane
      have hsource : s.env mma = s'.env mma := h.made.source hloop hbody hmma mem_cons_self
      have hne : mma ∉ (Op.extract v mma position).results :=
        operand_later hloop hbody mem_cons_self _ mem_cons_self
      change M.scalar (Env.bind _ [v] _ v lane) = _
      rw [Env.bind_singleton, hframe mma hne, hsource]
      rfl
  · intro v hv
    by_cases hres : v ∈ op.results
    · exact hresults v hres hv
    · rw [exec_env hres, hframe v hres]
      exact h.live v (mem_live_of_notMem hskip hv hres)
  · exact hmem
  · intro a ha
    rw [(hout a ha).2]
    exact h.outputs a ha
  · intro key hkey pattern hpattern lane
    rw [(hout _ ⟨key, hkey, pattern, hpattern, lane, rfl⟩).1,
      top_frame hloop hbody h.made hframe hkey (storedBy_of_not_inChain hskip)]
    exact h.stored key hkey pattern hpattern lane
  · exact h.addresses

theorem Inside.step (hloop : loop.WellFormed) (hacc : loop.Accumulates M s₀ bounds)
    (hbody : loop.body = ops ++ op :: behind) (hfits : loop.Fits M s₀ ops op behind s)
    (h : Inside M loop s₀ turn acc ops (op :: behind) s s') :
    Inside M loop s₀ turn acc (ops ++ [op]) behind (op.exec M turn s)
      (if loop.inChain op behind then s' else (loop.rewire op).exec M turn s') := by
  by_cases hskip : loop.inChain op behind
  · rw [if_pos hskip]
    rcases inChain_cases hskip with ⟨v, mma, position, rfl, hmma⟩ | ⟨v, memref, indices, rfl, hv⟩
    · exact h.extract hloop hbody hskip hmma
    · exact h.store hloop hacc hbody hskip hv
  · rw [if_neg hskip]
    cases op with
    | mma mma a b c => exact h.mma hloop hacc hbody hskip hfits
    | _ => exact h.keep hloop hbody hskip rfl hfits

theorem Inside.run (hloop : loop.WellFormed) (hacc : loop.Accumulates M s₀ bounds)
    (hbody : loop.body = ops ++ behind) (hfits : loop.FitsFrom M s₀ turn ops behind s)
    (h : Inside M loop s₀ turn acc ops behind s s') :
    Inside M loop s₀ turn acc loop.body [] (execAll M turn behind s)
      (execAll M turn (loop.newBody behind) s') ∧
    ∀ key ∈ loop.groupKeys, ∀ pattern ∈ loop.lastPatterns key,
      loop.lastStored key pattern.slot loop.body = (loop.members key).getLast? := by
  induction behind generalizing ops s s' with
  | nil =>
    rw [List.append_nil] at hbody
    rw [hbody]
    exact ⟨h, hfits⟩
  | cons op behind ih =>
    have hstep := h.step hloop hacc hbody hfits.1
    have hrest := ih (by simp [hbody]) hfits.2 hstep
    have hnew : execAll M turn (loop.newBody (op :: behind)) s' =
        execAll M turn (loop.newBody behind)
          (if loop.inChain op behind then s' else (loop.rewire op).exec M turn s') := by
      by_cases hskip : loop.inChain op behind
      · rw [if_pos hskip, KLoop.newBody, if_pos ⟨hskip, isMma_of_inChain hskip⟩]
      · rw [if_neg hskip, KLoop.newBody, if_neg fun hboth => hskip hboth.1]
        rfl
    rw [hnew]
    exact hrest

end turn

end Matcore.Gpu.AccumulatorHoist
