import Matcore.Gemm.Contract
import Matcore.Lib.Share
import Matcore.Proof.TaskPlan

/-!
# The parallel output partition

No operation wraps, and a task lies between two edges of rows and two of columns.
-/

namespace Matcore.Gemm

open Share (start start_mono start_all start_succ size)

variable {problem : CpuGemmProblem} {threads : ℕ} {plan : CpuParallelTaskPlan} {i : ℕ} {b a : ℕ}

theorem sizeAdd_eq (h : a + b < 2 ^ 64) : sizeAdd a b = a + b := Nat.mod_eq_of_lt h

theorem sizeMul_eq (h : a * b < 2 ^ 64) : sizeMul a b = a * b := Nat.mod_eq_of_lt h

theorem sizeSub_eq (ha : a < 2 ^ 64) (h : b ≤ a) : sizeSub a b = a - b := by
  unfold sizeSub
  omega

/-- Where the rows of a row task begin. -/
def rowEdge (problem : CpuGemmProblem) (plan : CpuParallelTaskPlan) (i : ℕ) : ℕ :=
  min problem.m.toNat (start plan.rowGroupCount plan.rowTaskCount i * plan.rowQuantum)

/-- Where the columns of a column task begin. -/
def columnEdge (problem : CpuGemmProblem) (plan : CpuParallelTaskPlan) (i : ℕ) : ℕ :=
  min problem.n.toNat (start plan.columnPanelCount plan.columnTaskCount i * packedNc)

/-- Edges between whole units: they rise from 0 to the extent, strictly while tasks are left. -/
structure Edges (extent units tasks width : ℕ) : Prop where
  pos : 0 < tasks
  le_units : tasks ≤ units
  covers : extent ≤ units * width
  needed : (units - 1) * width < extent

namespace Edges

variable {extent units tasks width : ℕ}

theorem lt_extent (h : Edges extent units tasks width) (hi : i < tasks) :
    start units tasks i * width < extent := by
  have hlt := Share.start_lt h.pos h.le_units hi
  exact (Nat.mul_le_mul_right width (by omega)).trans_lt h.needed

theorem mono : Monotone fun i => min extent (start units tasks i * width) :=
  fun _ _ hij => min_le_min_left _ (Nat.mul_le_mul_right _ (start_mono hij))

theorem zero : min extent (start units tasks 0 * width) = 0 := by simp

section

variable (h : Edges extent units tasks width)

include h

theorem all :
    min extent (start units tasks tasks * width) = extent := by
  rw [start_all h.pos, min_eq_left h.covers]

theorem lt_succ (hw : 0 < width) (hi : i < tasks) :
    start units tasks i * width < min extent (start units tasks (i + 1) * width) := by
  refine lt_min (h.lt_extent hi) (Nat.mul_lt_mul_of_pos_right ?_ hw)
  rw [start_succ]
  exact Nat.lt_add_of_pos_right (Share.size_pos h.pos h.le_units)

theorem bounds (hw : 0 < width) (hw' : width ≤ 256)
    (he : extent < 2 ^ 63) (hi : i < tasks) : start units tasks (i + 1) * width < 2 ^ 64 := by
  have hle : start units tasks (i + 1) ≤ units :=
    (start_mono (Nat.succ_le_of_lt hi)).trans_eq (start_all h.pos)
  have hunits : units * width ≤ extent + width := by
    have := h.needed
    obtain ⟨u, rfl⟩ : ∃ u, units = u + 1 := ⟨units - 1, by have := h.pos; have := h.le_units; omega⟩
    rw [Nat.add_sub_cancel] at this
    rw [Nat.succ_mul]
    omega
  have hmul := Nat.mul_le_mul_right width hle
  omega

end

/-- The first unit of a task and its number of units, as the code computes them. -/
theorem share_eq (hw : 0 < width) (h : start units tasks (i + 1) * width < 2 ^ 64) :
    sizeAdd (sizeMul i (units / tasks)) (min i (units % tasks)) = start units tasks i ∧
      sizeAdd (units / tasks) (if i < units % tasks then 1 else 0) = size units tasks i := by
  have hself := Nat.le_mul_of_pos_right (start units tasks (i + 1)) hw
  have hsucc : start units tasks (i + 1) = start units tasks i +
    size units tasks i := start_succ
  have hmul : i * (units / tasks) ≤ start units tasks i := Nat.le_add_right _ _
  rw [sizeMul_eq (by omega)]
  exact ⟨sizeAdd_eq (a := i * (units / tasks)) (show start units tasks i < 2 ^ 64 by omega),
    sizeAdd_eq (show size units tasks i < 2 ^ 64 by omega)⟩

end Edges

section

variable (h : Planned problem threads plan)

include h

theorem Planned.rowEdges (hm : 0 < problem.m) :
    Edges problem.m.toNat plan.rowGroupCount plan.rowTaskCount plan.rowQuantum := by
  obtain ⟨-, hcovers, hneeded⟩ :=
    divideRoundUp_spec (a := problem.m.toNat) (by omega) h.quantum.1
  rw [← h.groups] at hcovers hneeded
  exact ⟨h.rowTasks.1, h.rowTasks.2, hcovers, hneeded⟩

theorem Planned.row_lt (hi : i < plan.taskCount) :
    i / plan.columnTaskCount < plan.rowTaskCount :=
  Nat.div_lt_of_lt_mul (by rw [Nat.mul_comm, ← h.count]; exact hi)

theorem Planned.columnEdges (hn : 0 < problem.n) :
    Edges problem.n.toNat plan.columnPanelCount plan.columnTaskCount packedNc := by
  obtain ⟨-, hcovers, hneeded⟩ :=
    divideRoundUp_spec (a := problem.n.toNat) (b := columnTileColumns) (by omega) (by decide)
  rw [← h.panels] at hcovers hneeded
  exact ⟨h.columnTasks.1, h.columnTasks.2, hcovers, hneeded⟩

theorem outputPartition_eq (hm : 0 < problem.m) (hn : 0 < problem.n) (hi : i < plan.taskCount) :
    outputPartition problem plan i =
      { rowBegin := rowEdge problem plan (i / plan.columnTaskCount)
        rows := rowEdge problem plan (i / plan.columnTaskCount + 1) -
          rowEdge problem plan (i / plan.columnTaskCount)
        columnBegin := columnEdge problem plan (i % plan.columnTaskCount)
        columnEnd := columnEdge problem plan (i % plan.columnTaskCount + 1) } := by
  have hrow := h.row_lt hi
  have hcolumn : i % plan.columnTaskCount < plan.columnTaskCount := Nat.mod_lt _ h.columnTasks.1
  have hrows := h.rowEdges hm
  have hcolumns := h.columnEdges hn
  have hmlt : problem.m.toNat < 2 ^ 63 := by have := problem.m_lt; omega
  have hnlt : problem.n.toNat < 2 ^ 63 := by have := problem.n_lt; omega
  have hrowlt := hrows.bounds h.quantum.1 (h.quantum.2.1.trans (by decide)) hmlt hrow
  have hcolumnlt := hcolumns.bounds (by decide) le_rfl hnlt hcolumn
  obtain ⟨hgroupBegin, hgroups⟩ := Edges.share_eq h.quantum.1 hrowlt
  obtain ⟨hpanelBegin, hpanels⟩ := Edges.share_eq (by decide) hcolumnlt
  have hrowBegin := hrows.lt_extent hrow
  have hcolumnBegin := hcolumns.lt_extent hcolumn
  unfold outputPartition rowEdge columnEdge
  dsimp only
  rw [hgroupBegin, hgroups, hpanelBegin, hpanels, min_eq_right hrowBegin.le,
    min_eq_right hcolumnBegin.le]
  have hself := Nat.le_mul_of_pos_right
    (start plan.columnPanelCount plan.columnTaskCount (i % plan.columnTaskCount + 1))
    (show 0 < packedNc by decide)
  rw [start_succ, Nat.add_mul] at hrowlt hcolumnlt hself
  rw [start_succ, start_succ, Nat.add_mul, sizeMul_eq (by omega), sizeMul_eq (by omega),
    sizeMul_eq (by omega), sizeSub_eq (by omega) hrowBegin.le, sizeAdd_eq (by omega),
    sizeMul_eq (by rw [Nat.add_mul]; omega)]
  congr 1
  omega

end

theorem rowEdge_mono (problem : CpuGemmProblem) (plan : CpuParallelTaskPlan) :
    Monotone (rowEdge problem plan) := Edges.mono

theorem columnEdge_mono (problem : CpuGemmProblem) (plan : CpuParallelTaskPlan) :
    Monotone (columnEdge problem plan) := Edges.mono

variable {row column : ℕ}

/-- The elements of a task, by the edges of its row task and its column task. -/
theorem contains_iff (h : Planned problem threads plan) (hm : 0 < problem.m) (hn : 0 < problem.n)
    (hi : i < plan.taskCount) :
    (outputPartition problem plan i).Contains row column ↔
      (rowEdge problem plan (i / plan.columnTaskCount) ≤ row ∧
        row < rowEdge problem plan (i / plan.columnTaskCount + 1)) ∧
      columnEdge problem plan (i % plan.columnTaskCount) ≤ column ∧
        column < columnEdge problem plan (i % plan.columnTaskCount + 1) := by
  have hmono := rowEdge_mono problem plan
    (Nat.le_succ (i / plan.columnTaskCount))
  rw [outputPartition_eq h hm hn hi]
  unfold OutputPartition.Contains
  rw [Nat.add_sub_cancel' hmono]

/-- The 64-byte line of a byte of an output element. -/
def outputLine (base n row column byte : ℕ) : ℕ := (base + 4 * (row * n + column) + byte) / 64

variable {b' base : ℕ}

theorem line_ne_of_boundary {e e' z : ℕ} (hbase : 64 ∣ base) (hz : 16 ∣ z) (he : e < z)
    (he' : z ≤ e') (hb : b < 4) : (base + 4 * e + b) / 64 ≠ (base + 4 * e' + b') / 64 := by
  obtain ⟨base, rfl⟩ := hbase
  obtain ⟨z, rfl⟩ := hz
  omega

variable {column' row' : ℕ}

theorem line_ne_of_rows {n z : ℕ} (hbase : 64 ∣ base) (hz : 16 ∣ z * n) (hrow : row < z)
    (hrow' : z ≤ row') (hcolumn : column < n) (hb : b < 4) :
    outputLine base n row column b ≠ outputLine base n row' column' b' := by
  refine line_ne_of_boundary hbase hz ?_ ?_ hb
  · calc row * n + column < (row + 1) * n := by rw [Nat.succ_mul]; omega
      _ ≤ z * n := Nat.mul_le_mul_right n hrow
  · exact (Nat.mul_le_mul_right n hrow').trans (Nat.le_add_right _ _)

variable {j : ℕ}

section

variable (h : Planned problem threads plan)

include h

/-- Two row tasks have no line in common: the boundary between them is one of lines. -/
theorem line_ne_of_rowTasks (hm : 0 < problem.m)
    (hj : j < plan.rowTaskCount) (hij : i < j) (hbase : 64 ∣ base)
    (hrow : row < rowEdge problem plan (i + 1)) (hrow' : rowEdge problem plan j ≤ row')
    (hcolumn : column < problem.n.toNat) (hb : b < 4) :
    outputLine base problem.n.toNat row column b ≠
      outputLine base problem.n.toNat row' column' b' := by
  have hedge : rowEdge problem plan j =
      start plan.rowGroupCount plan.rowTaskCount j * plan.rowQuantum :=
    min_eq_right ((h.rowEdges hm).lt_extent hj).le
  refine line_ne_of_rows hbase ?_ (hrow.trans_le (rowEdge_mono _ _ hij)) hrow' hcolumn hb
  rw [hedge, Nat.mul_assoc]
  exact h.quantum.2.2.2.mul_left _

/-- Two column tasks have no line in common: every row begins a line, and so does every column
task. -/
theorem line_ne_of_columnTasks (hn : 0 < problem.n)
    (hj : j < plan.columnTaskCount) (hij : i < j) (hbase : 64 ∣ base)
    (hcolumn : column < columnEdge problem plan (i + 1))
    (hcolumn' : columnEdge problem plan j ≤ column') (hlt : column' < problem.n.toNat) (hb : b < 4)
    (hb' : b' < 4) :
    outputLine base problem.n.toNat row column b ≠
      outputLine base problem.n.toNat row' column' b' := by
  have hedge : columnEdge problem plan j =
      start plan.columnPanelCount plan.columnTaskCount j * packedNc :=
    min_eq_right ((h.columnEdges hn).lt_extent hj).le
  have hdvd : 16 ∣ columnEdge problem plan j := by
    rw [hedge]
    exact Dvd.dvd.mul_left (by decide) _
  have hrows : 16 ∣ problem.n.toNat := Nat.dvd_of_mod_eq_zero (h.safe (by omega)).2
  have hcolumn : column < columnEdge problem plan j := hcolumn.trans_le (columnEdge_mono _ _ hij)
  rcases Nat.lt_trichotomy row row' with hlt' | rfl | hlt'
  · exact line_ne_of_rows hbase (hrows.mul_left _) (Nat.lt_succ_self row) hlt' (by omega) hb
  · have hline : 16 ∣ row * problem.n.toNat + columnEdge problem plan j :=
      Nat.dvd_add (hrows.mul_left row) hdvd
    exact line_ne_of_boundary hbase hline (Nat.add_lt_add_left hcolumn _)
      (Nat.add_le_add_left hcolumn' _) hb
  · exact (line_ne_of_rows hbase (hrows.mul_left _) (Nat.lt_succ_self row') hlt' hlt hb').symm

theorem line_ne_of_tasks (hm : 0 < problem.m)
    (hn : 0 < problem.n) (hi : i < plan.taskCount) (hj : j < plan.taskCount) (hij : i ≠ j)
    (hbase : 64 ∣ base) (hin : (outputPartition problem plan i).Contains row column)
    (hin' : (outputPartition problem plan j).Contains row' column') (hb : b < 4) (hb' : b' < 4) :
    outputLine base problem.n.toNat row column b ≠
      outputLine base problem.n.toNat row' column' b' := by
  obtain ⟨⟨h₁, h₂⟩, h₃, h₄⟩ := (contains_iff h hm hn hi).1 hin
  obtain ⟨⟨h₁', h₂'⟩, h₃', h₄'⟩ := (contains_iff h hm hn hj).1 hin'
  have hrow : ∀ {x}, x < plan.taskCount → x / plan.columnTaskCount < plan.rowTaskCount := by
    intro x hx
    exact h.row_lt hx
  have hcolumn : ∀ x, x % plan.columnTaskCount < plan.columnTaskCount :=
    fun x => Nat.mod_lt x h.columnTasks.1
  have hlt : column < problem.n.toNat := h₄.trans_le (min_le_left _ _)
  have hlt' : column' < problem.n.toNat := h₄'.trans_le (min_le_left _ _)
  rcases Nat.lt_trichotomy (i / plan.columnTaskCount) (j / plan.columnTaskCount) with hr | hr | hr
  · exact line_ne_of_rowTasks h hm (hrow hj) hr hbase h₂ h₁' hlt hb
  · rcases Nat.lt_trichotomy (i % plan.columnTaskCount) (j % plan.columnTaskCount) with hc | hc | hc
    · exact line_ne_of_columnTasks h hn (hcolumn j) hc hbase h₄ h₃' hlt' hb hb'
    · rw [← Nat.div_add_mod i plan.columnTaskCount, hr, hc, Nat.div_add_mod] at hij
      exact absurd rfl hij
    · exact (line_ne_of_columnTasks h hn (hcolumn i) hc hbase h₄' h₃ hlt hb' hb).symm
  · exact (line_ne_of_rowTasks h hm (hrow hi) hr hbase h₂' h₁ hlt' hb').symm

theorem exists_unique_task (hm : 0 < problem.m)
    (hn : 0 < problem.n) (hrow : row < problem.m.toNat) (hcolumn : column < problem.n.toNat) :
    ∃! i, i < plan.taskCount ∧ (outputPartition problem plan i).Contains row column := by
  obtain ⟨r, ⟨hr, hin⟩, hrow⟩ := Share.exists_unique_step (rowEdge_mono problem plan)
    Edges.zero (hrow.trans_eq (h.rowEdges hm).all.symm)
  obtain ⟨c, ⟨hc, hin'⟩, hcolumn⟩ := Share.exists_unique_step (columnEdge_mono problem plan) Edges.zero
    (hcolumn.trans_eq (h.columnEdges hn).all.symm)
  have hpos := h.columnTasks.1
  have hdiv : (r * plan.columnTaskCount + c) / plan.columnTaskCount = r := by
    rw [Nat.mul_comm, Nat.mul_add_div hpos, Nat.div_eq_of_lt hc, Nat.add_zero]
  have hmod : (r * plan.columnTaskCount + c) % plan.columnTaskCount = c := by
    rw [Nat.mul_comm, Nat.mul_add_mod, Nat.mod_eq_of_lt hc]
  have hlt : r * plan.columnTaskCount + c < plan.taskCount := by
    have := Nat.mul_le_mul_right plan.columnTaskCount (Nat.succ_le_of_lt hr)
    rw [Nat.succ_mul] at this
    rw [h.count]
    omega
  refine ⟨_, ⟨hlt, (contains_iff h hm hn hlt).2 (by rw [hdiv, hmod]; exact ⟨hin, hin'⟩)⟩, ?_⟩
  rintro i ⟨hi, hcontains⟩
  obtain ⟨h₁, h₂⟩ := (contains_iff h hm hn hi).1 hcontains
  rw [← hrow _ ⟨h.row_lt hi, h₁⟩, ← hcolumn _ ⟨Nat.mod_lt i hpos, h₂⟩, Nat.mul_comm, Nat.div_add_mod]

theorem outputPartition_inside (hm : 0 < problem.m) (hn : 0 < problem.n) (hi : i < plan.taskCount) :
    let part := outputPartition problem plan i
    part.rowBegin < problem.m.toNat ∧ 0 < part.rows ∧ part.rowBegin + part.rows ≤ problem.m.toNat ∧
      part.columnBegin < part.columnEnd ∧ part.columnEnd ≤ problem.n.toNat := by
  have hrow := h.row_lt hi
  have hcolumn : i % plan.columnTaskCount < plan.columnTaskCount := Nat.mod_lt _ h.columnTasks.1
  have hrows : rowEdge problem plan (i / plan.columnTaskCount) <
      rowEdge problem plan (i / plan.columnTaskCount + 1) :=
    (min_le_right _ _).trans_lt ((h.rowEdges hm).lt_succ h.quantum.1 hrow)
  have hcolumns : columnEdge problem plan (i % plan.columnTaskCount) <
      columnEdge problem plan (i % plan.columnTaskCount + 1) :=
    (min_le_right _ _).trans_lt ((h.columnEdges hn).lt_succ (by decide) hcolumn)
  have hm' : rowEdge problem plan (i / plan.columnTaskCount + 1) ≤ problem.m.toNat := min_le_left _ _
  rw [outputPartition_eq h hm hn hi]
  refine ⟨hrows.trans_le hm', ?_, ?_, hcolumns, min_le_left _ _⟩
  · exact Nat.sub_pos_of_lt hrows
  · dsimp only; omega

end

/-- **The output partition is exact.** The tasks of a plan lie in the output and are not empty,
cover every element once, and no two of them touch a line of a 64-byte aligned output. -/
theorem partition_exact (hm : 0 < problem.m) (hn : 0 < problem.n) (hk : 0 < problem.k)
    (hlt : threads < 2 ^ 32) (hvalid : (planCpuParallelTasks problem threads).actualThreads ≠ 0) :
    let plan := planCpuParallelTasks problem threads
    plan.actualThreads = plan.taskCount ∧
    (∀ i < plan.taskCount,
      let part := outputPartition problem plan i
      part.rowBegin < problem.m.toNat ∧ 0 < part.rows ∧
        part.rowBegin + part.rows ≤ problem.m.toNat ∧
        part.columnBegin < part.columnEnd ∧ part.columnEnd ≤ problem.n.toNat) ∧
    (∀ row < problem.m.toNat, ∀ column < problem.n.toNat,
      ∃! i, i < plan.taskCount ∧ (outputPartition problem plan i).Contains row column) ∧
    ∀ base, 64 ∣ base → ∀ i < plan.taskCount, ∀ j < plan.taskCount, i ≠ j →
      ∀ row column row' column', (outputPartition problem plan i).Contains row column →
        (outputPartition problem plan j).Contains row' column' → ∀ b < 4, ∀ b' < 4,
          outputLine base problem.n.toNat row column b ≠
            outputLine base problem.n.toNat row' column' b' := by
  have ht : 0 < threads := by
    refine Nat.pos_of_ne_zero fun h0 => hvalid ?_
    unfold planCpuParallelTasks
    rw [if_pos (.inr (.inr (.inr h0)))]
  have h := planned_plan hm hn hk ht hlt
  exact ⟨h.actual, fun i hi => outputPartition_inside h hm hn hi,
    fun row hrow column hcolumn => exists_unique_task h hm hn hrow hcolumn,
    fun base hbase i hi j hj hij row column row' column' hin hin' b hb b' hb' =>
      line_ne_of_tasks h hm hn hi hj hij hbase hin hin' hb hb'⟩

/-- The rows of an output of 300 by 24 in two tasks. -/
theorem partition_exact_300x24 :
    let plan := planCpuParallelTasks
      ⟨300, 24, 8, .f32, .f32, .rowMajorContiguous, 4, by decide, by decide, by decide⟩ 2
    ∃! i, i < plan.taskCount ∧ (outputPartition
      ⟨300, 24, 8, .f32, .f32, .rowMajorContiguous, 4, by decide, by decide, by decide⟩ plan
      i).Contains 151 7 :=
  (partition_exact (by decide) (by decide) (by decide) (by decide) (by decide +kernel)).2.2.1
    151 (by decide) 7 (by decide)

end Matcore.Gemm
