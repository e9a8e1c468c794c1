import Matcore.Gemm.TaskPlan

/-!
# What a task plan promises

The planner keeps it for every product, and gives the same plan again for the threads it chose.
-/

namespace Matcore.Gemm

theorem greatestCommonDivisor_eq (lhs rhs : ℕ) : greatestCommonDivisor lhs rhs = Nat.gcd rhs lhs := by
  induction lhs, rhs using greatestCommonDivisor.induct with
  | case1 lhs => rw [greatestCommonDivisor, dif_pos rfl, Nat.gcd_zero_left]
  | case2 lhs rhs h ih =>
    rw [greatestCommonDivisor, dif_neg h, ih, Nat.gcd_rec rhs lhs]

theorem divideRoundUp_spec {a b : ℕ} (ha : 0 < a) (hb : 0 < b) :
    0 < divideRoundUp a b ∧ a ≤ divideRoundUp a b * b ∧ (divideRoundUp a b - 1) * b < a := by
  have hdiv := Nat.div_add_mod a b
  have hmod := Nat.mod_lt a hb
  unfold divideRoundUp
  rw [if_neg hb.ne']
  generalize a / b = c at *
  split
  · rw [Nat.add_sub_cancel, Nat.succ_mul, Nat.mul_comm c]
    omega
  · have hzero : a % b = 0 := by omega
    rw [hzero] at hdiv
    have hpos : 0 < c := Nat.pos_of_ne_zero fun h => by rw [h] at hdiv; omega
    rw [Nat.add_zero, Nat.sub_mul, Nat.mul_comm c]
    omega

/-- The row quantum is 4, 8 or 16 rows, and a whole number of cache lines. -/
theorem quantum_spec (n : ℕ) :
    let q := leastCommonMultiple registerTileRows
      (cacheLineFloatCount / greatestCommonDivisor n cacheLineFloatCount)
    0 < q ∧ q ≤ 16 ∧ 4 ∣ q ∧ 16 ∣ q * n := by
  have hdvd : Nat.gcd 16 n ∣ 16 := Nat.gcd_dvd_left 16 n
  have hn : Nat.gcd 16 n ∣ n := Nat.gcd_dvd_right 16 n
  simp only [greatestCommonDivisor_eq, cacheLineFloatCount]
  generalize Nat.gcd 16 n = d at hdvd hn
  obtain ⟨c, rfl⟩ := hn
  have hle := Nat.le_of_dvd (by decide) hdvd
  have hd : d = 1 ∨ d = 2 ∨ d = 4 ∨ d = 8 ∨ d = 16 := by
    revert hdvd
    revert hle
    revert d
    decide
  rcases hd with rfl | rfl | rfl | rfl | rfl
  all_goals
    simp [leastCommonMultiple, greatestCommonDivisor_eq, registerTileRows, saturatingMultiply,
      uint64Max]
    try omega

/-- The tasks of a row task count. -/
def candidate (panels threads r : ℕ) : ℕ := r * min panels (threads / r)

theorem candidate_le (panels threads r : ℕ) : candidate panels threads r ≤ threads :=
  (Nat.mul_le_mul_left r (min_le_right _ _)).trans (Nat.mul_div_le threads r)

/-- The plan with the column tasks that a row task count leaves. -/
def CpuParallelTaskPlan.assign (plan : CpuParallelTaskPlan) (threads r : ℕ) : CpuParallelTaskPlan :=
  { plan with
    rowTaskCount := r
    columnTaskCount := min plan.columnPanelCount (threads / r)
    taskCount := candidate plan.columnPanelCount threads r }

/-- What the loop has found among the first row task counts: no gain over one column task, or
the most tasks, with as many of them row tasks as can be. -/
def Best (base : CpuParallelTaskPlan) (threads maximum seen : ℕ) (plan : CpuParallelTaskPlan) :
    Prop :=
  plan = base.rowsOnly maximum ∧
      (∀ r, 0 < r → r ≤ seen → candidate base.columnPanelCount threads r ≤ maximum) ∨
    ∃ r, 0 < r ∧ r ≤ seen ∧ plan = base.assign threads r ∧
      maximum < candidate base.columnPanelCount threads r ∧
      ∀ r', 0 < r' → r' ≤ seen →
        candidate base.columnPanelCount threads r' < candidate base.columnPanelCount threads r ∨
        candidate base.columnPanelCount threads r' = candidate base.columnPanelCount threads r ∧
          r' ≤ r

variable {plan base : CpuParallelTaskPlan} {maximum seen : ℕ}

theorem best_step {threads : ℕ} (hseen : seen < maximum) (h : Best base threads maximum seen plan) :
    Best base threads maximum (seen + 1) (plan.consider threads (seen + 1)) := by
  have hcandidate : ∀ p : ℕ, (seen + 1) * min p (threads / (seen + 1)) =
      candidate p threads (seen + 1) := fun _ => rfl
  unfold CpuParallelTaskPlan.consider
  rcases h with ⟨rfl, hall⟩ | ⟨r, hr, hle, rfl, hmore, hbest⟩
  · simp only [CpuParallelTaskPlan.rowsOnly, hcandidate]
    split
    · rename_i hgain
      have hgain : maximum < candidate base.columnPanelCount threads (seen + 1) := by omega
      refine .inr ⟨seen + 1, Nat.succ_pos _, le_rfl, rfl, hgain, fun r' hr' hle' => ?_⟩
      by_cases heq : r' = seen + 1
      · exact .inr ⟨by rw [heq], heq.le⟩
      · exact .inl ((hall r' hr' (by omega)).trans_lt hgain)
    · rename_i hnone
      refine .inl ⟨rfl, fun r' hr' hle' => ?_⟩
      by_cases heq : r' = seen + 1
      · subst heq; omega
      · exact hall r' hr' (by omega)
  · simp only [CpuParallelTaskPlan.assign, hcandidate]
    split
    · rename_i hgain
      have hgain : candidate base.columnPanelCount threads r ≤
          candidate base.columnPanelCount threads (seen + 1) := by omega
      refine .inr ⟨seen + 1, Nat.succ_pos _, le_rfl, rfl, hmore.trans_le hgain,
        fun r' hr' hle' => ?_⟩
      by_cases heq : r' = seen + 1
      · exact .inr ⟨by rw [heq], heq.le⟩
      · have := hbest r' hr' (by omega)
        omega
    · rename_i hnone
      refine .inr ⟨r, hr, by omega, rfl, hmore, fun r' hr' hle' => ?_⟩
      by_cases heq : r' = seen + 1
      · subst heq; omega
      · exact hbest r' hr' (by omega)

/-- **The loop** finds the best plan. -/
theorem best_loop (base : CpuParallelTaskPlan) (threads maximum : ℕ) (hseen : seen ≤ maximum) :
    Best base threads maximum seen
      ((List.range' 1 seen).foldl (fun plan => plan.consider threads) (base.rowsOnly maximum)) := by
  induction seen with
  | zero => exact .inl ⟨rfl, fun r hr hle => by omega⟩
  | succ seen ih =>
    rw [List.range'_1_concat, List.foldl_append, Nat.add_comm 1 seen]
    exact best_step hseen (ih (Nat.le_of_succ_le hseen))

theorem best_again {plan' : CpuParallelTaskPlan} {threads : ℕ}
    (h : Best base threads maximum maximum plan)
    (h' : Best base plan.taskCount maximum maximum plan') : plan' = plan := by
  rcases h with ⟨rfl, -⟩ | ⟨r, hr, hle, rfl, hmore, hbest⟩
  · rcases h' with ⟨rfl, -⟩ | ⟨r', -, -, -, hmore', -⟩
    · rfl
    · exact absurd (candidate_le _ _ _) (Nat.not_le.2 hmore')
  set tasks := candidate base.columnPanelCount threads r with htasks
  change Best base tasks maximum maximum plan' at h'
  have htasks_le : tasks ≤ threads := candidate_le _ _ _
  have hdiv : tasks / r = min base.columnPanelCount (threads / r) :=
    Nat.mul_div_cancel_left _ hr
  have hmin : min base.columnPanelCount (tasks / r) = min base.columnPanelCount (threads / r) := by
    rw [hdiv, min_eq_right (min_le_left _ _)]
  have hself : candidate base.columnPanelCount tasks r = tasks :=
    congrArg (r * ·) hmin
  rcases h' with ⟨-, hall⟩ | ⟨r', hr', hle', rfl, hmore', hbest'⟩
  · have := hall r hr hle
    omega
  · have hupper := candidate_le base.columnPanelCount tasks r'
    have hmono : candidate base.columnPanelCount tasks r' ≤
        candidate base.columnPanelCount threads r' :=
      Nat.mul_le_mul_left r' (min_le_min_left _ (Nat.div_le_div_right htasks_le))
    obtain rfl : r' = r := by
      have h₁ := hbest' r hr hle
      have h₂ := hbest r' hr' hle'
      omega
    unfold CpuParallelTaskPlan.assign
    rw [hmin, hself]

/-- The counts that the planner starts from. -/
def basePlan (problem : CpuGemmProblem) : CpuParallelTaskPlan :=
  let rowQuantum := leastCommonMultiple registerTileRows
    (cacheLineFloatCount / greatestCommonDivisor problem.n.toNat cacheLineFloatCount)
  { macroTileCount := divideRoundUp problem.m.toNat macroTileRows
    rowQuantum
    rowGroupCount := divideRoundUp problem.m.toNat rowQuantum
    columnPanelCount := divideRoundUp problem.n.toNat columnTileColumns }

/-- The row tasks that the planner starts from. -/
def maximumRowTasks (problem : CpuGemmProblem) (threads : ℕ) : ℕ :=
  min threads (min (basePlan problem).macroTileCount (basePlan problem).rowGroupCount)

/-- The plan before the threads are counted. -/
def chosenPlan (problem : CpuGemmProblem) (threads : ℕ) : CpuParallelTaskPlan :=
  (((basePlan problem).rowsOnly (maximumRowTasks problem threads)).spread problem threads
    (maximumRowTasks problem threads)).settle problem (maximumRowTasks problem threads)

variable {problem : CpuGemmProblem} {threads : ℕ}

theorem plan_eq (hm : 0 < problem.m) (hn : 0 < problem.n) (hk : 0 < problem.k) (ht : 0 < threads) :
    planCpuParallelTasks problem threads = { chosenPlan problem threads with
      actualThreads := min threads (chosenPlan problem threads).taskCount % 2 ^ 32 } := by
  unfold planCpuParallelTasks
  rw [if_neg (by omega)]
  rw [if_neg (quantum_spec problem.n.toNat).1.ne']
  rfl

theorem settle_cases (problem : CpuGemmProblem) (maximum : ℕ) (plan : CpuParallelTaskPlan) :
    plan.settle problem maximum = plan ∨ plan.settle problem maximum = plan.rowsOnly maximum := by
  unfold CpuParallelTaskPlan.settle
  dsimp only
  split_ifs
  all_goals first
    | exact .inl rfl
    | exact .inr rfl

theorem settle_rowsOnly (problem : CpuGemmProblem) (maximum : ℕ) (base : CpuParallelTaskPlan) :
    (base.rowsOnly maximum).settle problem maximum = base.rowsOnly maximum := by
  rcases settle_cases problem maximum (base.rowsOnly maximum) with h | h
  · exact h
  · exact h

theorem chosen_cases (problem : CpuGemmProblem) (threads : ℕ) :
    chosenPlan problem threads = (basePlan problem).rowsOnly (maximumRowTasks problem threads) ∨
    (64 ≤ problem.minimumAlignmentBytes ∧ problem.n.toNat % 16 = 0) ∧
      Best (basePlan problem) threads (maximumRowTasks problem threads)
        (maximumRowTasks problem threads) (chosenPlan problem threads) := by
  have hloop := best_loop (basePlan problem) threads (maximumRowTasks problem threads) le_rfl
  unfold chosenPlan CpuParallelTaskPlan.spread
  split
  · rename_i hsafe
    revert hloop
    generalize List.foldl _ _ _ = plan
    intro hloop
    rcases settle_cases problem (maximumRowTasks problem threads) plan with hkeep | hreturn
    · exact .inr ⟨hsafe.1, by rw [hkeep]; exact hloop⟩
    · left
      rw [hreturn]
      rcases hloop with ⟨rfl, -⟩ | ⟨r, -, -, rfl, -, -⟩ <;> rfl
  · left
    exact settle_rowsOnly problem _ _

/-- What a plan promises of its counts. -/
structure Planned (problem : CpuGemmProblem) (threads : ℕ) (plan : CpuParallelTaskPlan) : Prop where
  quantum : 0 < plan.rowQuantum ∧ plan.rowQuantum ≤ 16 ∧ 4 ∣ plan.rowQuantum ∧
    16 ∣ plan.rowQuantum * problem.n.toNat
  groups : plan.rowGroupCount = divideRoundUp problem.m.toNat plan.rowQuantum
  panels : plan.columnPanelCount = divideRoundUp problem.n.toNat columnTileColumns
  rowTasks : 0 < plan.rowTaskCount ∧ plan.rowTaskCount ≤ plan.rowGroupCount
  columnTasks : 0 < plan.columnTaskCount ∧ plan.columnTaskCount ≤ plan.columnPanelCount
  count : plan.taskCount = plan.rowTaskCount * plan.columnTaskCount
  le_threads : plan.taskCount ≤ threads
  safe : 1 < plan.columnTaskCount →
    64 ≤ problem.minimumAlignmentBytes ∧ problem.n.toNat % 16 = 0
  actual : plan.actualThreads = plan.taskCount

theorem maximumRowTasks_pos (hm : 0 < problem.m) (ht : 0 < threads) :
    0 < maximumRowTasks problem threads := by
  have hpos : 0 < problem.m.toNat := by omega
  have htiles : 0 < divideRoundUp problem.m.toNat macroTileRows :=
    (divideRoundUp_spec hpos (by decide)).1
  have hgroups := (divideRoundUp_spec hpos (quantum_spec problem.n.toNat).1).1
  exact lt_min ht (lt_min htiles hgroups)

theorem planned_plan (hm : 0 < problem.m) (hn : 0 < problem.n) (hk : 0 < problem.k)
    (ht : 0 < threads) (hlt : threads < 2 ^ 32) :
    Planned problem threads (planCpuParallelTasks problem threads) := by
  have hmax := maximumRowTasks_pos hm ht
  have hgroups : maximumRowTasks problem threads ≤ (basePlan problem).rowGroupCount :=
    (min_le_right _ _).trans (min_le_right _ _)
  have hthreads : maximumRowTasks problem threads ≤ threads := min_le_left _ _
  have hpanels : 0 < divideRoundUp problem.n.toNat columnTileColumns :=
    (divideRoundUp_spec (by omega) (by decide)).1
  have actual : ∀ {count : ℕ}, count ≤ threads → min threads count % 2 ^ 32 = count := by
    intro count hcount
    rw [min_eq_right hcount, Nat.mod_eq_of_lt (hcount.trans_lt hlt)]
  rw [plan_eq hm hn hk ht]
  have rows : Planned problem threads { (basePlan problem).rowsOnly (maximumRowTasks problem threads)
      with actualThreads := min threads (maximumRowTasks problem threads) % 2 ^ 32 } :=
    { quantum := quantum_spec problem.n.toNat
      groups := rfl
      panels := rfl
      rowTasks := ⟨hmax, hgroups⟩
      columnTasks := ⟨Nat.zero_lt_one, hpanels⟩
      count := (Nat.mul_one _).symm
      le_threads := hthreads
      safe := fun h => absurd h (Nat.lt_irrefl 1)
      actual := actual hthreads }
  rcases chosen_cases problem threads with h | ⟨hsafe, ⟨h, -⟩ | ⟨r, hr, hle, h, -, -⟩⟩
  · rw [h]; exact rows
  · rw [h]; exact rows
  · rw [h]
    have hcount := candidate_le (basePlan problem).columnPanelCount threads r
    have hdiv : 0 < threads / r := Nat.div_pos (hle.trans hthreads) hr
    exact
      { quantum := quantum_spec problem.n.toNat
        groups := rfl
        panels := rfl
        rowTasks := ⟨hr, hle.trans hgroups⟩
        columnTasks := ⟨lt_min hpanels hdiv, min_le_left _ _⟩
        count := rfl
        le_threads := hcount
        safe := fun _ => hsafe
        actual := actual hcount }

theorem settle_again (problem : CpuGemmProblem) {plans : ℕ → CpuParallelTaskPlan}
    (hbest : ∀ threads, Best base threads maximum maximum (plans threads)) (threads : ℕ) :
    (plans ((plans threads).settle problem maximum).taskCount).settle problem maximum =
      (plans threads).settle problem maximum := by
  rcases settle_cases problem maximum (plans threads) with h | h
  · rw [h, best_again (hbest threads) (hbest _), h]
  · have hrows : (plans threads).settle problem maximum = base.rowsOnly maximum := by
      rw [h]
      rcases hbest threads with ⟨heq, -⟩ | ⟨r, -, -, heq, -, -⟩ <;> rw [heq] <;> rfl
    rw [hrows]
    change (plans maximum).settle problem maximum = _
    rcases hbest maximum with ⟨heq, -⟩ | ⟨r, -, -, -, hmore, -⟩
    · rw [heq, settle_rowsOnly]
    · exact absurd (candidate_le _ _ _) (Nat.not_le.2 hmore)

theorem chosen_again (problem : CpuGemmProblem) (threads : ℕ)
    (hle : (chosenPlan problem threads).taskCount ≤ threads)
    (hmax : maximumRowTasks problem threads ≤ (chosenPlan problem threads).taskCount) :
    chosenPlan problem (chosenPlan problem threads).taskCount = chosenPlan problem threads := by
  have hrows : maximumRowTasks problem (chosenPlan problem threads).taskCount =
      maximumRowTasks problem threads := by
    unfold maximumRowTasks at hmax ⊢
    omega
  rw [chosenPlan, hrows]
  unfold chosenPlan CpuParallelTaskPlan.spread
  by_cases hsafe : (problem.minimumAlignmentBytes ≥ 64 ∧
      problem.n.toNat % cacheLineFloatCount = 0) ∧
      ((basePlan problem).rowsOnly (maximumRowTasks problem threads)).columnPanelCount > 1
  · simp only [if_pos hsafe]
    exact settle_again problem (fun threads' => best_loop (basePlan problem) threads'
      (maximumRowTasks problem threads) le_rfl) threads
  · rw [if_neg hsafe, if_neg hsafe]

/-- **The plan for the chosen threads is the plan.** -/
theorem plan_again (hm : 0 < problem.m) (hn : 0 < problem.n) (hk : 0 < problem.k)
    (ht : 0 < threads) (hlt : threads < 2 ^ 32) :
    planCpuParallelTasks problem (planCpuParallelTasks problem threads).actualThreads =
      planCpuParallelTasks problem threads := by
  have hplanned := planned_plan hm hn hk ht hlt
  have hcount : (planCpuParallelTasks problem threads).actualThreads =
      (chosenPlan problem threads).taskCount := by
    rw [hplanned.actual, plan_eq hm hn hk ht]
  have hle : (chosenPlan problem threads).taskCount ≤ threads := by
    have := hplanned.le_threads
    rwa [plan_eq hm hn hk ht] at this
  have hmax : maximumRowTasks problem threads ≤ (chosenPlan problem threads).taskCount := by
    rcases chosen_cases problem threads with h | ⟨-, ⟨h, -⟩ | ⟨r, -, -, h, hmore, -⟩⟩
    · rw [h]; exact le_rfl
    · rw [h]; exact le_rfl
    · rw [h]; exact hmore.le
  have hpos : 0 < (chosenPlan problem threads).taskCount := (maximumRowTasks_pos hm ht).trans_le hmax
  rw [hcount, plan_eq hm hn hk hpos, chosen_again problem threads hle hmax, min_self,
    plan_eq hm hn hk ht, min_eq_right hle]

/-- **Planning again with the threads that a plan has chosen gives the plan.** A plan without
threads is the empty one. -/
theorem plan_fixed_point (problem : CpuGemmProblem) (requestedThreads : UInt32) :
    let plan := planCpuParallelTasks problem requestedThreads.toNat
    planCpuParallelTasks problem plan.actualThreads = plan := by
  intro plan
  by_cases h : problem.m ≤ 0 ∨ problem.n ≤ 0 ∨ problem.k ≤ 0 ∨ requestedThreads.toNat = 0
  · have hempty : plan = {} := if_pos h
    rw [hempty]
    exact if_pos (.inr (.inr (.inr rfl)))
  · simp only [not_or, Int.not_le] at h
    obtain ⟨hm, hn, hk, ht⟩ := h
    exact plan_again hm hn hk (Nat.pos_of_ne_zero ht) requestedThreads.toNat_lt

end Matcore.Gemm
