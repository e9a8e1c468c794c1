import Matcore.Proof.AccumulatorTurn

/-!
# What the hoisting of accumulators keeps

Between turns the original loop has stored in the outputs what the new one carries. Behind the loop
the accumulators are stored, so that both leave the same memory, whatever MMAs do: each position has
got the same MMAs in the same order.
-/

namespace Matcore.Gpu.AccumulatorHoist

open List (mem_cons_of_mem mem_cons mem_cons_self mem_singleton mem_append_right mem_flatMap
  mem_append_left mem_map length_cons map_map)

variable {F P Place : Type}

section numbers
variable {loop : KLoop P} {ops : List (Op P)} {op : Op P} {v : ℕ} {key : Option (ℕ × List ℕ)}

theorem rewire_results : (loop.rewire op).results = op.results := by
  cases op <;> rfl

theorem newBody_results (h : op ∈ loop.newBody ops) : ∃ op' ∈ ops, op.results = op'.results := by
  induction ops with
  | nil => cases h
  | cons first ops ih =>
    unfold KLoop.newBody at h
    by_cases hskip : loop.inChain first ops ∧ first.isMma = false
    · rw [if_pos hskip] at h
      obtain ⟨op', hop', hresults⟩ := ih h
      exact ⟨op', mem_cons_of_mem _ hop', hresults⟩
    · rw [if_neg hskip] at h
      rcases mem_cons.1 h with rfl | h
      · exact ⟨first, mem_cons_self, rewire_results⟩
      · obtain ⟨op', hop', hresults⟩ := ih h
        exact ⟨op', mem_cons_of_mem _ hop', hresults⟩

theorem live_cases (hordered : ops.Pairwise fun op op' => ∀ v ∈ op.results ++ op.uses,
      v ∉ op'.results) (hown : ∀ op ∈ ops, ∀ v ∈ op.uses, v ∉ op.results)
    (h : v ∈ loop.live ops) :
    (∀ op ∈ ops, v ∉ op.results) ∧ (v ∈ loop.yields ∨ ∃ op ∈ ops, v ∈ op.uses) := by
  induction ops with
  | nil => exact ⟨by simp, Or.inl h⟩
  | cons op ops ih =>
    obtain ⟨hop, hordered'⟩ := List.pairwise_cons.1 hordered
    have hown' : ∀ op ∈ ops, ∀ v ∈ op.uses, v ∉ op.results :=
      fun op hop => hown op (mem_cons_of_mem _ hop)
    -- a value that is live behind the operation
    have hbehind (hv : v ∈ loop.live ops) (hres : v ∉ op.results) :
        (∀ op' ∈ op :: ops, v ∉ op'.results) ∧
          (v ∈ loop.yields ∨ ∃ op' ∈ op :: ops, v ∈ op'.uses) := by
      obtain ⟨hresults, huse⟩ := ih hordered' hown' hv
      refine ⟨?_, huse.imp_right fun ⟨op', hop', hin⟩ => ⟨op', mem_cons_of_mem _ hop', hin⟩⟩
      refine List.forall_mem_cons.2 ⟨?_, hresults⟩
      exact hres
    by_cases hskip : loop.inChain op ops
    · rw [live_of_inChain hskip] at h
      exact hbehind h fun hres => hskip.2 v hres (mem_used_of_mem_live h)
    · rw [live_of_not_inChain hskip, List.mem_append] at h
      rcases h with h | h
      · by_cases hlive : op.acts ∨ op.results.any (· ∈ loop.live ops)
        · rw [if_pos hlive] at h
          have huse : v ∈ op.uses := by
            cases op with
            | mma result a b c =>
              rcases mem_cons.1 h with rfl | h
              · exact mem_cons_self
              · rw [mem_singleton.1 h]
                exact mem_cons_of_mem _ mem_cons_self
            | _ => exact h
          refine ⟨?_, Or.inr ⟨op, mem_cons_self, huse⟩⟩
          intro op' hop'
          rcases mem_cons.1 hop' with rfl | hop'
          · exact hown _ mem_cons_self v huse
          · exact hop op' hop' v (mem_append_right _ huse)
        · rw [if_neg hlive] at h
          cases h
      · exact hbehind (List.mem_of_mem_filter h) (of_decide_eq_true (List.mem_filter.1 h).2)

theorem live_lt (hloop : loop.WellFormed) (h : v ∈ loop.live loop.body) : v < loop.fresh := by
  rcases (live_cases hloop.ordered hloop.own h).2 with hyield | ⟨op, hop, huse⟩
  · exact hloop.fresh_args v (mem_append_right _ hyield)
  · exact hloop.fresh op hop v (mem_append_right _ huse)

theorem patterns_lt (hloop : loop.WellFormed) {mma : ℕ} {pattern : Pattern P}
    (hpattern : pattern ∈ loop.patterns mma) (hv : v ∈ pattern.memref :: pattern.indices) :
    v < loop.fresh := by
  rw [KLoop.patterns, (loop.order_perm _ _).mem_iff, mem_flatMap] at hpattern
  obtain ⟨op, hop, hpattern⟩ := hpattern
  have hinner (h : pattern ∈ op.inner.filterMap fun x => if x.1 = mma then some x.2 else none) :
      v < loop.fresh := by
    obtain ⟨x, hx, hsome⟩ := List.mem_filterMap.1 h
    obtain ⟨-, hsome⟩ := Option.ite_none_right_eq_some.1 hsome
    injection hsome with hsome
    exact hloop.fresh_inner op hop x hx v (hsome ▸ hv)
  cases op with
  | extract result source position =>
    by_cases hsource : source = mma
    · simp only [if_pos hsource] at hpattern
      obtain ⟨op', hop', hsome⟩ := List.mem_filterMap.1 hpattern
      cases op' with
      | store value memref indices =>
        obtain ⟨-, hsome⟩ := Option.ite_none_right_eq_some.1 hsome
        injection hsome with hsome
        rw [← hsome] at hv
        apply hloop.fresh _ hop' v
        exact mem_append_right _ (mem_append_left _ (mem_cons_of_mem _ hv))
      | _ => cases hsome
    · simp only [if_neg hsource] at hpattern
      cases hpattern
  | _ => exact hinner hpattern

theorem clonesFrom_lt (hloop : loop.WellFormed) (hops : ∀ op ∈ ops, op ∈ loop.body)
    (h : v ∈ (loop.clonesFrom ops).2) : v < loop.fresh := by
  induction ops with
  | nil =>
    obtain ⟨key, -, h⟩ := mem_flatMap.1 h
    obtain ⟨pattern, hpattern, hv⟩ := mem_flatMap.1 h
    exact patterns_lt hloop hpattern hv
  | cons op ops ih =>
    have hops' : ∀ op ∈ ops, op ∈ loop.body := fun op hop => hops op (mem_cons_of_mem _ hop)
    unfold KLoop.clonesFrom at h
    by_cases hany : op.results.any (· ∈ (loop.clonesFrom ops).2)
    · rw [if_pos hany] at h
      rcases List.mem_append.1 h with h | h
      · apply hloop.fresh op (hops op mem_cons_self) v
        exact mem_append_right _ (mem_append_left _ h)
      · exact ih hops' h
    · rw [if_neg hany] at h
      exact ih hops' h

theorem accArg_inj (hkey : key ∈ loop.groupKeys) {key' : Option (ℕ × List ℕ)}
    (h : loop.accArg key' = loop.accArg key) : key' = key := by
  unfold KLoop.accArg at h
  exact ((List.idxOf_inj hkey).1 (by omega)).symm

theorem accArg_fresh (hloop : loop.WellFormed) (key : Option (ℕ × List ℕ)) :
    loop.accArg key ∉ loop.iv :: loop.iterArgs := by
  intro hmem
  have hlt := hloop.fresh_args _ (mem_append_left _ hmem)
  unfold KLoop.accArg at hlt
  omega

theorem notMem_accArgs (hv : v < loop.fresh) : v ∉ loop.groupKeys.map loop.accArg := by
  intro hmem
  obtain ⟨key, -, rfl⟩ := mem_map.1 hmem
  unfold KLoop.accArg at hv
  omega

theorem mem_body_of_clonesFrom (h : op ∈ (loop.clonesFrom ops).1) : op ∈ ops := by
  induction ops with
  | nil => cases h
  | cons first ops ih =>
    unfold KLoop.clonesFrom at h
    by_cases hany : first.results.any (· ∈ (loop.clonesFrom ops).2)
    · rw [if_pos hany] at h
      rcases mem_cons.1 h with rfl | h
      · exact mem_cons_self
      · exact mem_cons_of_mem _ (ih h)
    · rw [if_neg hany] at h
      exact mem_cons_of_mem _ (ih h)

theorem accArg_lt (hkey : key ∈ loop.groupKeys) :
    loop.accArg key < loop.fresh + loop.groupKeys.length :=
  Nat.add_lt_add_left (List.idxOf_lt_length_of_mem hkey) _

theorem getLast?_members (hkey : key ∈ loop.groupKeys) :
    (loop.members key).getLast? = some (loop.lastOf key) := by
  obtain ⟨mma, hmma, hkey⟩ := mem_map.1 (List.mem_eraseDups.1 hkey)
  have hmem : mma ∈ loop.members key :=
    List.mem_filter.2 ⟨hmma, decide_eq_true hkey⟩
  have hne : loop.members key ≠ [] := List.ne_nil_of_mem hmem
  rw [KLoop.lastOf, List.getLast?_eq_some_getLast hne]
  rfl

end numbers

section runs
variable [DecidableEq P] [DecidableEq Place] {M : Machine F P Place} {loop : KLoop P}
  {s₀ s s' : Carried F P Place} {bounds : Bounds} {acc : Option (ℕ × List ℕ) → WarpValue F P}
  {k : ℕ}

/-- **The invariant of a run**: what both loops carry, between turns. -/
structure Sim (M : Machine F P Place) (loop : KLoop P) (s₀ : Carried F P Place)
    (acc : Option (ℕ × List ℕ) → WarpValue F P) (s s' : Carried F P Place) : Prop where
  carried : s'.1 = s.1 ++ loop.groupKeys.map acc
  length : s.1.length = loop.iterArgs.length
  outer : ∀ v ∉ loop.iv :: loop.iterArgs, (∀ op ∈ loop.body, v ∉ op.results) →
    s.2.env v = s₀.2.env v
  outer' : ∀ v ∉ loop.iv :: loop.iterArgs, (∀ op ∈ loop.body, v ∉ op.results) → v < loop.fresh →
    s'.2.env v = s₀.2.env v
  mem : ∀ a ∉ loop.outputs M s₀, s.2.mem a = s'.2.mem a
  outputs : ∀ a ∈ loop.outputs M s₀, s'.2.mem a = s₀.2.mem a
  stored : ∀ key ∈ loop.groupKeys, ∀ pattern ∈ loop.lastPatterns key, ∀ lane,
    s.2.mem (loop.place M s₀ pattern.slot lane) = M.elements (acc key lane) pattern.position

variable {v : ℕ}

section

omit [DecidableEq P] [DecidableEq Place]

theorem enter_length (hlength : s.1.length = loop.iterArgs.length) :
    (loop.iv :: loop.iterArgs).length =
      (((fun _ => .other k) : WarpValue F P) :: s.1).length := by
  rw [length_cons, length_cons, hlength]

variable (hlength : s.1.length = loop.iterArgs.length)
  (hcarried : s'.1 = s.1 ++ loop.groupKeys.map acc)

include hlength hcarried

theorem enter_args (hv : v ∈ loop.iv :: loop.iterArgs) :
    (loop.enter s k).env v = (loop.hoisted.loop.enter s' k).env v := by
  unfold KLoop.enter
  rw [hcarried]
  exact (Env.bind_append_left (enter_length hlength) hv).symm

theorem enter_other (hv : v ∉ loop.iv :: loop.iterArgs) :
    (loop.hoisted.loop.enter s' k).env v =
      s'.2.env.bind (loop.groupKeys.map loop.accArg) (loop.groupKeys.map acc) v := by
  unfold KLoop.enter
  rw [hcarried]
  exact Env.bind_append_right (enter_length hlength) hv

end

section

variable (hloop : loop.WellFormed) (hacc : loop.Accumulates M s₀ bounds)

include hloop hacc

theorem Sim.enter (h : Sim M loop s₀ acc s s') :
    Inside M loop s₀ k acc [] loop.body (loop.enter s k)
      (loop.hoisted.loop.enter s' k) := by
  have haccs : ∀ key ∈ loop.groupKeys,
      (loop.hoisted.loop.enter s' k).env (loop.accArg key) = acc key := by
    intro key hkey
    rw [enter_other h.length h.carried (accArg_fresh hloop key)]
    exact Env.bind_map hkey fun key' _ => accArg_inj hkey
  constructor
  · exact ⟨by simp, by simp, haccs⟩
  · intro v hv
    by_cases harg : v ∈ loop.iv :: loop.iterArgs
    · exact enter_args h.length h.carried harg
    · have hresults := (live_cases hloop.ordered hloop.own hv).1
      have hlt := live_lt hloop hv
      rw [enter_other h.length h.carried harg, Env.bind_of_notMem (notMem_accArgs hlt)]
      calc (loop.enter s k).env v
          = s.2.env v := Env.bind_of_notMem harg
        _ = s'.2.env v := by rw [h.outer v harg hresults, h.outer' v harg hresults hlt]
  · exact h.mem
  · exact h.outputs
  · intro key hkey pattern hpattern lane
    have htop : top loop (loop.hoisted.loop.enter s' k) [] key pattern.slot = acc key :=
      haccs key hkey
    rw [htop]
    exact h.stored key hkey pattern hpattern lane
  · apply clonesFrom_agree hloop.ordered hloop.own hacc.addresses
    intro v hv hresults
    have harg := hacc.addresses_args v hv
    exact (Env.bind_of_notMem harg).trans (h.outer v harg hresults)

theorem Sim.turn (hfits : loop.FitsFrom M s₀ k [] loop.body (loop.enter s k))
    (h : Sim M loop s₀ acc s s') :
    ∃ acc', Sim M loop s₀ acc' (loop.turn M s k) (loop.hoisted.loop.turn M s' k) := by
  obtain ⟨hinside, hlast⟩ := (h.enter hloop hacc).run hloop hacc rfl hfits
  refine ⟨fun key => (loop.hoisted.loop.turn M s' k).2.env (loop.lastOf key), ?_⟩
  constructor
  · have hyields : loop.yields.map (loop.turn M s k).2.env =
        loop.yields.map (loop.hoisted.loop.turn M s' k).2.env :=
      List.map_congr_left hinside.live
    change (loop.yields ++ loop.groupKeys.map loop.lastOf).map
      (loop.hoisted.loop.turn M s' k).2.env = loop.yields.map (loop.turn M s k).2.env ++ _
    rw [hyields, List.map_append, map_map]
    rfl
  · change (loop.yields.map _).length = _
    rw [List.length_map, hloop.yields]
  · intro v harg hresults
    calc (loop.turn M s k).2.env v
        = (loop.enter s k).env v := execAll_env hresults
      _ = s.2.env v := Env.bind_of_notMem harg
      _ = s₀.2.env v := h.outer v harg hresults
  · intro v harg hresults hlt
    have hresults' : ∀ op ∈ loop.newBody loop.body, v ∉ op.results := by
      intro op hop
      obtain ⟨op', hop', heq⟩ := newBody_results hop
      rw [heq]
      exact hresults op' hop'
    calc (loop.hoisted.loop.turn M s' k).2.env v
        = (loop.hoisted.loop.enter s' k).env v := execAll_env hresults'
      _ = s'.2.env v := by
        rw [enter_other h.length h.carried harg, Env.bind_of_notMem (notMem_accArgs hlt)]
      _ = s₀.2.env v := h.outer' v harg hresults hlt
  · exact hinside.mem
  · exact hinside.outputs
  · intro key hkey pattern hpattern lane
    have hstored := hinside.stored key hkey pattern hpattern lane
    rw [top, hlast key hkey pattern hpattern, getLast?_members hkey] at hstored
    exact hstored

theorem Sim.run {ks : List ℕ} (hfits : loop.FitsTurns M s₀ ks s) (h : Sim M loop s₀ acc s s') :
    ∃ acc', Sim M loop s₀ acc' (ks.foldl (loop.turn M) s)
      (ks.foldl (loop.hoisted.loop.turn M) s') := by
  induction ks generalizing s s' acc with
  | nil => exact ⟨acc, h⟩
  | cons k ks ih =>
    obtain ⟨acc', hturn⟩ := h.turn hloop hacc hfits.1
    exact ih hfits.2 hturn

end

theorem execAll_pure {ops : List (Op P)} (hpure : ∀ op ∈ ops, ∃ op' results operands,
    op = .pure op' results operands) (t : State F P Place) : (execAll M k ops t).mem = t.mem := by
  induction ops generalizing t with
  | nil => rfl
  | cons op ops ih =>
    obtain ⟨op', results, operands, rfl⟩ := hpure op mem_cons_self
    exact ih (fun op hop => hpure op (mem_cons_of_mem _ hop)) _

variable {t : State F P Place}

theorem storeLast_env {key : Option (ℕ × List ℕ)} {pattern : Pattern P}
    (hv : v < loop.fresh + loop.groupKeys.length) :
    (execAll M 0 (loop.storeLast key pattern) t).env v = t.env v := by
  apply execAll_env
  intro op hop hres
  rcases mem_cons.1 hop with rfl | hop
  · have heq := mem_singleton.1 hres
    omega
  · rw [mem_singleton.1 hop] at hres
    cases hres

theorem storeLast_mem {key : Option (ℕ × List ℕ)} {pattern : Pattern P}
    (haddresses : ∀ v ∈ pattern.memref :: pattern.indices,
      v < loop.fresh ∧ t.env v = (execAll M 0 loop.clones s₀.2).env v)
    (haccs : t.env (loop.accArg key) = acc key) :
    (execAll M 0 (loop.storeLast key pattern) t).mem =
      writeAll t.mem (loop.place M s₀ pattern.slot) fun lane =>
        M.elements (acc key lane) pattern.position := by
  let extracted := loop.fresh + loop.groupKeys.length + pattern.extract
  let t' := (Op.extract extracted (loop.accArg key) pattern.position).exec M 0 t
  have henv : ∀ v ∈ pattern.memref :: pattern.indices,
      t'.env v = (execAll M 0 loop.clones s₀.2).env v := by
    intro v hv
    obtain ⟨hlt, heq⟩ := haddresses v hv
    have hne : v ∉ [extracted] := by
      rw [mem_singleton]
      omega
    exact (Env.bind_of_notMem hne).trans heq
  have hvalue : t'.env extracted = fun lane =>
      .scalar (M.elements (acc key lane) pattern.position) := by
    rw [← haccs]
    exact Env.bind_singleton _ _ _
  have hmap : pattern.indices.map t'.env =
      pattern.indices.map (execAll M 0 loop.clones s₀.2).env :=
    List.map_congr_left fun v hv => henv v (mem_cons_of_mem _ hv)
  change writeAll t.mem (M.address (t'.env pattern.memref) (pattern.indices.map t'.env))
    (fun lane => M.scalar (t'.env extracted lane)) = _
  rw [henv _ mem_cons_self, hmap, hvalue]
  rfl

/-- The memory behind the loop, when some of the stores are still to be done. -/
theorem stores_mem {mem : Place → F} {xs : List (Option (ℕ × List ℕ) × Pattern P)}
    (hloop : loop.WellFormed) (hacc : loop.Accumulates M s₀ bounds)
    (hin : ∀ x ∈ xs, x.1 ∈ loop.groupKeys ∧ x.2 ∈ loop.lastPatterns x.1)
    (haddresses : ∀ v ∈ loop.addresses, t.env v = (execAll M 0 loop.clones s₀.2).env v)
    (haccs : ∀ key ∈ loop.groupKeys, t.env (loop.accArg key) = acc key)
    (hstored : ∀ key ∈ loop.groupKeys, ∀ pattern ∈ loop.lastPatterns key, ∀ lane,
      mem (loop.place M s₀ pattern.slot lane) = M.elements (acc key lane) pattern.position)
    (hmem : ∀ a, (∀ x ∈ xs, ∀ lane, loop.place M s₀ x.2.slot lane ≠ a) → t.mem a = mem a) :
    (execAll M 0 (xs.flatMap fun x => loop.storeLast x.1 x.2) t).mem = mem := by
  induction xs generalizing t with
  | nil =>
    funext a
    exact hmem a (by simp)
  | cons x xs ih =>
    obtain ⟨hkey, hpattern⟩ := hin x mem_cons_self
    have hlt : ∀ v ∈ loop.addresses, v < loop.fresh := by
      intro v hv
      have hv' : v ∈ (loop.clonesFrom []).2 := hv
      exact clonesFrom_lt hloop (by simp) hv'
    rw [List.flatMap_cons, execAll, List.foldl_append]
    apply ih (t := execAll M 0 (loop.storeLast x.1 x.2) t)
    · exact fun y hy => hin y (mem_cons_of_mem _ hy)
    · intro v hv
      rw [storeLast_env (Nat.lt_of_lt_of_le (hlt v hv) (Nat.le_add_right _ _))]
      exact haddresses v hv
    · intro key hkey'
      rw [storeLast_env (accArg_lt hkey')]
      exact haccs key hkey'
    · intro a ha
      have hin' : ∀ v ∈ x.2.memref :: x.2.indices, v ∈ loop.addresses :=
        fun v hv => mem_addresses hkey hpattern hv
      rw [storeLast_mem (fun v hv => ⟨hlt v (hin' v hv), haddresses v (hin' v hv)⟩)
        (haccs x.1 hkey)]
      by_cases hplace : ∃ lane, loop.place M s₀ x.2.slot lane = a
      · obtain ⟨lane, rfl⟩ := hplace
        have hinj : Function.Injective (loop.place M s₀ x.2.slot) := by
          intro lane lane' heq
          exact (hacc.apart _ hkey _ hkey _ hpattern _ hpattern _ _ heq).2.2
        rw [writeAll_address hinj]
        exact (hstored x.1 hkey x.2 hpattern lane).symm
      · have hne : ∀ lane, loop.place M s₀ x.2.slot lane ≠ a := not_exists.1 hplace
        rw [writeAll_of_ne hne]
        apply hmem a
        refine List.forall_mem_cons.2 ⟨?_, ha⟩
        exact hne

theorem Sim.post (hloop : loop.WellFormed) (hacc : loop.Accumulates M s₀ bounds)
    (hlength : s₀.1.length = loop.iterArgs.length) (h : Sim M loop s₀ acc s s') :
    s'.1.take s₀.1.length = s.1 ∧
      (execAll M 0 loop.post ⟨s'.2.env.bind loop.hoisted.accArgs (s'.1.drop s₀.1.length),
        s'.2.mem⟩).mem = s.2.mem := by
  have hcount : s.1.length = s₀.1.length := h.length.trans hlength.symm
  rw [h.carried, List.take_left' hcount, List.drop_left' hcount]
  refine ⟨rfl, ?_⟩
  let t : State F P Place :=
    ⟨s'.2.env.bind (loop.groupKeys.map loop.accArg) (loop.groupKeys.map acc), s'.2.mem⟩
  have houter : ∀ v ∈ (loop.clonesFrom loop.body).2, (∀ op ∈ loop.body, v ∉ op.results) →
      s.2.env v = s₀.2.env v ∧ s.2.env v = t.env v := by
    intro v hv hresults
    have harg := hacc.addresses_args v hv
    have hlt := clonesFrom_lt hloop (fun op hop => hop) hv
    have hold := h.outer v harg hresults
    refine ⟨hold, ?_⟩
    rw [hold, ← h.outer' v harg hresults hlt]
    exact (Env.bind_of_notMem (notMem_accArgs hlt)).symm
  -- both agree with what the loop makes of the addresses
  have haddresses : ∀ v ∈ loop.addresses,
      (execAll M 0 loop.clones t).env v = (execAll M 0 loop.clones s₀.2).env v := by
    intro v hv
    have hold : (execAll M 0 loop.body s.2).env v = (execAll M 0 loop.clones s₀.2).env v :=
      clonesFrom_agree hloop.ordered hloop.own hacc.addresses
        (fun u hu hresults => (houter u hu hresults).1) v hv
    have hnew : (execAll M 0 loop.body s.2).env v = (execAll M 0 loop.clones t).env v :=
      clonesFrom_agree hloop.ordered hloop.own hacc.addresses
        (fun u hu hresults => (houter u hu hresults).2) v hv
    exact hnew.symm.trans hold
  have haccs : ∀ key ∈ loop.groupKeys,
      (execAll M 0 loop.clones t).env (loop.accArg key) = acc key := by
    intro key hkey
    rw [execAll_env]
    · exact Env.bind_map hkey fun key' _ => accArg_inj hkey
    · intro op hop hres
      have hlt := hloop.fresh op (mem_body_of_clonesFrom hop) _ (mem_append_left _ hres)
      unfold KLoop.accArg at hlt
      omega
  let xs := loop.groupKeys.flatMap fun key =>
    (loop.lastPatterns key).map fun pattern => (key, pattern)
  have hpost : loop.post = loop.clones ++ xs.flatMap fun x => loop.storeLast x.1 x.2 := by
    rw [KLoop.post, List.flatMap_assoc]
    simp only [List.flatMap_map]
  have hxs : ∀ key ∈ loop.groupKeys, ∀ pattern ∈ loop.lastPatterns key, (key, pattern) ∈ xs :=
    fun key hkey pattern hpattern =>
      mem_flatMap.2 ⟨key, hkey, List.mem_map_of_mem hpattern⟩
  rw [hpost, execAll, List.foldl_append]
  apply stores_mem hloop hacc ?_ haddresses haccs h.stored
  · intro a ha
    have hout : a ∉ loop.outputs M s₀ := by
      rintro ⟨key, hkey, pattern, hpattern, lane, rfl⟩
      exact ha _ (hxs key hkey pattern hpattern) lane rfl
    rw [execAll_pure hacc.addresses]
    exact (h.mem a hout).symm
  · intro x hx
    obtain ⟨key, hkey, hx⟩ := mem_flatMap.1 hx
    obtain ⟨pattern, hpattern, rfl⟩ := mem_map.1 hx
    exact ⟨hkey, hpattern⟩

omit [DecidableEq P] [DecidableEq Place] in
variable {hoisted : Hoisted P}

theorem hoist_eq_some (h : loop.hoist = some hoisted) :
    hoisted = loop.hoisted := by
  unfold KLoop.hoist at h
  split_ifs at h
  exact (Option.some.inj h).symm

/-- **The loop that accumulates in registers leaves what the original one does.** -/
theorem hoist_keeps (hhoist : loop.hoist = some hoisted) (hloop : loop.WellFormed)
    (hlength : s₀.1.length = loop.iterArgs.length)
    (hzero : ∀ a ∈ loop.outputs M s₀, s₀.2.mem a = M.zero) (hacc : loop.Accumulates M s₀ bounds) :
    (hoisted.run M bounds s₀).1 = (loop.run M bounds s₀).1 ∧
      (hoisted.run M bounds s₀).2.mem = (loop.run M bounds s₀).2.mem := by
  have hstart : Sim M loop s₀ (fun _ _ => .vector fun _ => M.zero) s₀
      (s₀.1 ++ loop.groupKeys.map fun _ => (fun _ => .vector fun _ => M.zero), s₀.2) := by
    refine ⟨rfl, hlength, fun _ _ _ => rfl, fun _ _ _ _ => rfl, fun _ _ => rfl, fun _ _ => rfl, ?_⟩
    intro key hkey pattern hpattern lane
    exact hzero _ ⟨key, hkey, pattern, hpattern, lane, rfl⟩
  obtain ⟨acc, hend⟩ := hstart.run hloop hacc hacc.fits
  rw [hoist_eq_some hhoist, Hoisted.run]
  have hzeros : (loop.hoisted.accArgs.map fun _ => (fun _ => .vector fun _ => M.zero :
      WarpValue F P)) = loop.groupKeys.map fun _ => (fun _ => .vector fun _ => M.zero) :=
    map_map
  rw [hzeros]
  exact hend.post hloop hacc hlength

end runs

/-- A machine whose MMAs count, and whose places are of an index and a lane. -/
def counting (P : Type) : Machine ℕ P ℕ where
  zero := 0
  mma _ _ acc lane position := acc lane position + 1
  address _ indices lane := 32 * (indices.map fun v =>
    match v lane with
    | .other x => x
    | _ => 0).sum + lane
  pure _ _ := []
  effect _ _ _ mem := ([], mem)
  touches _ _ := ∅
  effect_agree _ _ _ _ _ h := ⟨rfl, h⟩
  effect_frame _ _ _ _ _ _ := rfl

/-- An output that is zero. The values from 12 on are indices. -/
def cleared (P : Type) : Carried ℕ P ℕ := ([], ⟨fun v _ => .other (v - 12), fun _ => 0⟩)

/-- An MMA with an accumulator of two elements that are loaded in front of it and stored behind it. -/
def accumulation (n : ℕ) : List (Op (Fin 2)) :=
  [.load n 8 [12], .splat (n + 1) n, .load (n + 2) 8 [13], .insert (n + 3) (n + 2) (n + 1) 1,
    .mma (n + 4) 10 11 (n + 3), .extract (n + 5) (n + 4) 0, .store (n + 5) 8 [12],
    .extract (n + 6) (n + 4) 1, .store (n + 6) 8 [13]]

/-- Two of them, which are one group. -/
def accumulating : KLoop (Fin 2) where
  iv := 0
  iterArgs := []
  body := accumulation 20 ++ accumulation 30
  yields := []
  fresh := 40
  order _ patterns := patterns
  order_perm _ _ := List.Perm.refl _

theorem accumulating_fits (k : ℕ) {s : State ℕ (Fin 2) ℕ}
    (hmemref : s.env 8 = (cleared _).2.env 8) (hfirst : s.env 12 = (cleared _).2.env 12)
    (hsecond : s.env 13 = (cleared _).2.env 13) :
    accumulating.FitsFrom (counting _) (cleared _) k [] accumulating.body s := by
  have hmma : ∀ (t : State ℕ (Fin 2) ℕ) lane,
      t.mem ((counting (Fin 2)).address (s.env 8) [s.env 12] lane) =
        t.mem (accumulating.place (counting _) (cleared _) (0, 8, [12]) lane) ∧
      t.mem ((counting (Fin 2)).address (s.env 8) [s.env 13] lane) =
        t.mem (accumulating.place (counting _) (cleared _) (1, 8, [13]) lane) := by
    intro t lane
    rw [hmemref, hfirst, hsecond]
    exact ⟨rfl, rfl⟩
  -- the loads are for the accumulators only
  have hload : ∀ {p : Prop} {v : ℕ} {ops : List (Op (Fin 2))}, v ∉ accumulating.live ops →
      v ∈ accumulating.live ops → p := fun hdead hlive => absurd hlive hdead
  have hstore : ∀ {p : Prop} {v : ℕ}, accumulating.origin v ≠ none →
      accumulating.origin v = none → p := fun hsome hnone => absurd hnone hsome
  refine ⟨hload (by decide), trivial, hload (by decide), trivial, ?_, trivial, hstore (by decide),
    trivial, hstore (by decide), hload (by decide), trivial, hload (by decide), trivial, ?_, trivial,
    hstore (by decide), trivial, hstore (by decide), ?_⟩
  · intro pattern hpattern
    rcases mem_cons.1 hpattern with rfl | hpattern
    · exact ⟨rfl, fun lane => (hmma s lane).1⟩
    · rw [mem_singleton.1 hpattern]
      exact ⟨rfl, fun lane => (hmma s lane).2⟩
  · intro pattern hpattern
    rcases mem_cons.1 hpattern with rfl | hpattern
    · exact ⟨rfl, fun lane => (hmma (execAll (counting _) k (accumulation 20) s) lane).1⟩
    · rw [mem_singleton.1 hpattern]
      exact ⟨rfl, fun lane => (hmma (execAll (counting _) k (accumulation 20) s) lane).2⟩
  · intro key hkey pattern hpattern
    obtain rfl : key = some (8, [12]) := mem_singleton.1 hkey
    rcases mem_cons.1 hpattern with rfl | hpattern
    · rfl
    · rw [mem_singleton.1 hpattern]
      rfl

theorem accumulating_accumulates :
    accumulating.Accumulates (counting _) (cleared _) ⟨0, 2, 1⟩ where
  covers := by decide
  same := by
    intro mma hmma slot
    rcases mem_cons.1 hmma with rfl | hmma
    · exact Iff.rfl
    · rw [mem_singleton.1 hmma]
      exact Iff.rfl
  apart := by
    intro key hkey key' hkey' pattern hpattern pattern' hpattern' lane lane' heq
    obtain rfl : key = some (8, [12]) := mem_singleton.1 hkey
    obtain rfl : key' = some (8, [12]) := mem_singleton.1 hkey'
    have hlane := lane.isLt
    have hlane' := lane'.isLt
    rcases mem_cons.1 hpattern with rfl | hpattern
    · rcases mem_cons.1 hpattern' with rfl | hpattern'
      · exact ⟨rfl, rfl, Fin.ext (Nat.add_left_cancel heq)⟩
      · obtain rfl := mem_singleton.1 hpattern'
        change 0 + (lane : ℕ) = 32 + lane' at heq
        omega
    · obtain rfl := mem_singleton.1 hpattern
      rcases mem_cons.1 hpattern' with rfl | hpattern'
      · change 32 + (lane : ℕ) = 0 + lane' at heq
        omega
      · obtain rfl := mem_singleton.1 hpattern'
        exact ⟨rfl, rfl, Fin.ext (Nat.add_left_cancel heq)⟩
  addresses := by
    intro op hop
    cases hop
  addresses_args := by decide
  fits := ⟨accumulating_fits 0 rfl rfl rfl, accumulating_fits 1 rfl rfl rfl, trivial⟩

theorem accumulating_keeps : accumulating.hoist = some accumulating.hoisted ∧
    (accumulating.hoisted.run (counting _) ⟨0, 2, 1⟩ (cleared _)).1 =
      (accumulating.run (counting _) ⟨0, 2, 1⟩ (cleared _)).1 ∧
    (accumulating.hoisted.run (counting _) ⟨0, 2, 1⟩ (cleared _)).2.mem =
      (accumulating.run (counting _) ⟨0, 2, 1⟩ (cleared _)).2.mem :=
  ⟨rfl, hoist_keeps rfl
    ⟨by decide, by decide, by decide, by decide, by decide, by decide, rfl⟩ rfl
    (fun _ _ => rfl) accumulating_accumulates⟩

/-- A loop that starts each product from zero: the pass accumulates them. -/
def restarted : KLoop (Fin 2 × Fin 2) where
  iv := 0
  iterArgs := []
  body := [.splat 1 9, .mma 2 10 11 1] ++
    [((0, 0), 3, 12), ((0, 1), 4, 13), ((1, 0), 5, 14), ((1, 1), 6, 15)].flatMap
      fun (position, value, index) => [.extract value 2 position, .store value 8 [index]]
  yields := []
  fresh := 20
  order _ patterns := patterns
  order_perm _ _ := List.Perm.refl _

theorem restarted_fails : restarted.WellFormed ∧
    (∀ a, (cleared (Fin 2 × Fin 2)).2.mem a = 0) ∧
    ∃ hoisted, restarted.hoist = some hoisted ∧
      (hoisted.run (counting _) ⟨0, 2, 1⟩ (cleared _)).2.mem 0 = 2 ∧
      (restarted.run (counting _) ⟨0, 2, 1⟩ (cleared _)).2.mem 0 = 1 := by
  refine ⟨⟨by decide, by decide, by decide, by decide, by decide, by decide, rfl⟩,
    fun _ => rfl, restarted.hoisted, rfl, ?_, ?_⟩
  · decide +kernel
  · decide +kernel

end Matcore.Gpu.AccumulatorHoist
