import Matcore.Gpu.VectorCopy
import Matcore.Lib.Ownership

/-!
# What the distributed copy moves

The numbers of the segments that a thread moves, for the three kinds of code.
-/

namespace Matcore.Gpu.VectorCopy

open List (mem_flatMap mem_map nodup_flatMap nodup_range mem_singleton not_mem_nil)

section Threads

variable {block : Block} {t u : Thread}

theorem mem_threads : t ∈ block.threads ↔ t.x < block.x ∧ t.y < block.y ∧ t.z < block.z := by
  unfold Block.threads
  simp only [mem_flatMap, mem_map, List.mem_range]
  constructor
  · rintro ⟨z, hz, y, hy, x, hx, rfl⟩
    exact ⟨hx, hy, hz⟩
  · rintro ⟨hx, hy, hz⟩
    exact ⟨t.z, hz, t.y, hy, t.x, hx, rfl⟩

theorem nodup_threads (block : Block) : block.threads.Nodup := by
  unfold Block.threads
  refine nodup_flatMap.2 ⟨fun z _ => ?_, ?_⟩
  · refine nodup_flatMap.2 ⟨fun y _ => ?_, ?_⟩
    · exact nodup_range.map fun x x' h => congrArg Thread.x h
    · refine nodup_range.imp fun {y y'} hne t ht ht' => hne ?_
      obtain ⟨x, -, rfl⟩ := mem_map.1 ht
      obtain ⟨x', -, h⟩ := mem_map.1 ht'
      exact (congrArg Thread.y h).symm
  · refine nodup_range.imp fun {z z'} hne t ht ht' => hne ?_
    obtain ⟨y, -, ht⟩ := mem_flatMap.1 ht
    obtain ⟨y', -, ht'⟩ := mem_flatMap.1 ht'
    obtain ⟨x, -, rfl⟩ := mem_map.1 ht
    obtain ⟨x', -, h⟩ := mem_map.1 ht'
    exact (congrArg Thread.z h).symm

/-- The number of a row of threads in its block. -/
def Block.plane (block : Block) (t : Thread) : ℕ := t.y + t.z * block.y

/-- The number of a thread in its block. -/
def Block.number (block : Block) (t : Thread) : ℕ := t.x + block.plane t * block.x

section

variable (ht : t ∈ block.threads)

include ht

theorem plane_lt : block.plane t < block.y * block.z := by
  obtain ⟨-, hy, hz⟩ := mem_threads.1 ht
  calc t.y + t.z * block.y < block.y + t.z * block.y := by omega
    _ = (t.z + 1) * block.y := by ring
    _ ≤ block.z * block.y := Nat.mul_le_mul_right block.y hz
    _ = block.y * block.z := Nat.mul_comm _ _

theorem number_lt : block.number t < block.size := by
  have hx := (mem_threads.1 ht).1
  have hplane : block.plane t + 1 ≤ block.y * block.z := plane_lt ht
  calc t.x + block.plane t * block.x < block.x + block.plane t * block.x := by omega
    _ = (block.plane t + 1) * block.x := by ring
    _ ≤ block.y * block.z * block.x := Nat.mul_le_mul_right block.x hplane
    _ = block.size := by unfold Block.size; ring

theorem number_mod : block.number t % block.x = t.x := by
  rw [Block.number, Nat.add_mul_mod_self_right, Nat.mod_eq_of_lt (mem_threads.1 ht).1]

theorem number_div : block.number t / block.x = block.plane t := by
  have hx := (mem_threads.1 ht).1
  rw [Block.number, Nat.add_mul_div_right _ _ (by omega), Nat.div_eq_of_lt hx, Nat.zero_add]

theorem number_inj (hu : u ∈ block.threads) (h : block.number t = block.number u) : t = u := by
  obtain ⟨-, hty, -⟩ := mem_threads.1 ht
  obtain ⟨-, huy, -⟩ := mem_threads.1 hu
  have hx : t.x = u.x := by rw [← number_mod ht, h, number_mod hu]
  have hplane : t.y + t.z * block.y = u.y + u.z * block.y := by
    have := number_div ht
    rwa [h, number_div hu, eq_comm] at this
  have hy : t.y = u.y := by
    have := congrArg (· % block.y) hplane
    simpa [Nat.mod_eq_of_lt hty, Nat.mod_eq_of_lt huy] using this
  have hz : t.z = u.z := by
    rw [hy] at hplane
    exact Nat.eq_of_mul_eq_mul_right (by omega) (Nat.add_left_cancel hplane)
  cases t
  cases u
  simp_all

end

theorem exists_number {n : ℕ} (hn : n < block.size) : ∃ t ∈ block.threads, block.number t = n := by
  have hn' : n < block.x * (block.y * block.z) := by
    rwa [← Nat.mul_assoc]
  have hx : 0 < block.x := Nat.pos_of_mul_pos_right (Nat.zero_lt_of_lt hn')
  have hplane : n / block.x < block.y * block.z := (Nat.div_lt_iff_lt_mul hx).2 (by
    rwa [Nat.mul_comm])
  have hy : 0 < block.y := Nat.pos_of_mul_pos_right (Nat.zero_lt_of_lt hplane)
  refine ⟨⟨n % block.x, n / block.x % block.y, n / block.x / block.y⟩, mem_threads.2 ⟨?_, ?_, ?_⟩, ?_⟩
  · exact Nat.mod_lt n hx
  · exact Nat.mod_lt _ hy
  · exact (Nat.div_lt_iff_lt_mul hy).2 (by rwa [Nat.mul_comm])
  · rw [Block.number, Block.plane, Nat.mod_add_div', Nat.mod_add_div']

end Threads

variable {info : Rank2CopyLoopInfo}

theorem mem_segmentGrid {x : ℕ × ℕ} :
    x ∈ segmentGrid info ↔
      ∃ row < info.rows, ∃ segment < info.cols / 8, x = (row, segment * 8) := by
  unfold segmentGrid
  simp only [mem_flatMap, mem_map, List.mem_range, eq_comm]

theorem nodup_segmentGrid (info : Rank2CopyLoopInfo) : (segmentGrid info).Nodup := by
  unfold segmentGrid
  refine nodup_flatMap.2 ⟨fun row _ => ?_, ?_⟩
  · refine nodup_range.map fun s s' h => ?_
    have := congrArg Prod.snd h
    simpa using this
  · refine nodup_range.imp fun {row row'} hne x hx hx' => hne ?_
    obtain ⟨s, -, rfl⟩ := mem_map.1 hx
    obtain ⟨s', -, h⟩ := mem_map.1 hx'
    exact (congrArg Prod.fst h).symm

/-- The transfers of each thread are those of the segments that have its number. -/
structure Owns (info : Rank2CopyLoopInfo) (block : Block) (owner : ℕ → ℕ → ℕ)
    (transfers : Thread → List (ℕ × ℕ)) : Prop where
  nodup : ∀ t ∈ block.threads, (transfers t).Nodup
  mem : ∀ t ∈ block.threads, ∀ row column, (row, column) ∈ transfers t ↔
    row < info.rows ∧ ∃ segment < info.cols / 8,
      column = segment * 8 ∧ owner row segment = block.number t

/-- **Every segment is moved once** where its number is that of a thread. -/
theorem perm_iff_of_owner {block : Block} {owner : ℕ → ℕ → ℕ} {transfers : Thread → List (ℕ × ℕ)}
    (h : Owns info block owner transfers) :
    (block.threads.flatMap transfers).Perm (segmentGrid info) ↔
      ∀ row < info.rows, ∀ segment < info.cols / 8, owner row segment < block.size := by
  constructor
  · intro hperm row hrow segment hsegment
    have hgrid : (row, segment * 8) ∈ segmentGrid info :=
      mem_segmentGrid.2 ⟨row, hrow, segment, hsegment, rfl⟩
    obtain ⟨t, ht, hmoved⟩ := mem_flatMap.1 (hperm.mem_iff.2 hgrid)
    obtain ⟨-, segment', -, hcolumn, howner⟩ := (h.mem t ht _ _).1 hmoved
    obtain rfl : segment = segment' := Nat.eq_of_mul_eq_mul_right (by omega) hcolumn
    rw [howner]
    exact number_lt ht
  · intro hthreads
    refine flatMap_perm_of_owner (nodup_threads block) h.nodup (nodup_segmentGrid info) ?_ ?_
    · rintro t ht u hu ⟨row, column⟩ hmoved hmoved'
      obtain ⟨-, segment, -, hcolumn, howner⟩ := (h.mem t ht _ _).1 hmoved
      obtain ⟨-, segment', -, hcolumn', howner'⟩ := (h.mem u hu _ _).1 hmoved'
      obtain rfl : segment = segment' := Nat.eq_of_mul_eq_mul_right (by omega) (hcolumn ▸ hcolumn')
      exact number_inj ht hu (howner.symm.trans howner')
    · rintro ⟨row, column⟩
      rw [mem_segmentGrid]
      constructor
      · rintro ⟨row', hrow, segment, hsegment, hx⟩
        obtain ⟨rfl, rfl⟩ := Prod.mk.inj hx
        obtain ⟨t, ht, hnumber⟩ := exists_number (hthreads row hrow segment hsegment)
        exact ⟨t, ht, (h.mem t ht _ _).2 ⟨hrow, segment, hsegment, rfl, hnumber.symm⟩⟩
      · rintro ⟨t, ht, hmoved⟩
        obtain ⟨hrow, segment, hsegment, rfl, -⟩ := (h.mem t ht _ _).1 hmoved
        exact ⟨row, hrow, segment, hsegment, rfl⟩

variable {upper step lower i : ℕ}

theorem mem_loopRange (hs : 0 < step) :
    i ∈ loopRange lower upper step ↔ lower ≤ i ∧ i < upper ∧ step ∣ i - lower :=
  Loop.mem_strides_from hs

theorem nodup_loopRange (hs : 0 < step) : (loopRange lower upper step).Nodup := by
  unfold loopRange Loop.strides
  rw [List.map_map]
  refine nodup_range.map fun a b h => ?_
  have : a * step = b * step := by simpa using h
  exact Nat.eq_of_mul_eq_mul_right hs this

theorem mem_loopRange_of_lt (h : lower < step) :
    i ∈ loopRange lower upper step ↔ i < upper ∧ i % step = lower := by
  rw [mem_loopRange (by omega)]
  constructor
  · rintro ⟨hle, hlt, k, hk⟩
    refine ⟨hlt, ?_⟩
    have hi : i = lower + step * k := by omega
    rw [hi, Nat.add_mul_mod_self_left, Nat.mod_eq_of_lt h]
  · rintro ⟨hlt, rfl⟩
    exact ⟨Nat.mod_le i step, hlt, Nat.dvd_sub_mod i⟩

theorem mem_loopRange_one {n : ℕ} : i ∈ loopRange 0 n 1 ↔ i < n := by
  rw [mem_loopRange Nat.one_pos]
  simp

theorem nodup_turns {l : List ℕ} (hl : l.Nodup) (row : ℕ → ℕ) (hrow : row.Injective)
    {list : ℕ → List (ℕ × ℕ)} (hlist : ∀ i ∈ l, (list i).Nodup)
    (hin : ∀ i ∈ l, ∀ x ∈ list i, x.1 = row i) : (l.flatMap list).Nodup := by
  refine nodup_flatMap.2 ⟨hlist, hl.imp_of_mem fun {i j} hi hj hne x hxi hxj => hne ?_⟩
  exact hrow ((hin i hi x hxi).symm.trans (hin j hj x hxj))

theorem le_ceilDiv_mul {n d : ℕ} (hd : 0 < d) : n ≤ ceilDiv n d * d := by
  have hdiv := Nat.div_add_mod (n + d - 1) d
  have hmod := Nat.mod_lt (n + d - 1) hd
  rw [Nat.mul_comm] at hdiv
  unfold ceilDiv
  omega

theorem ceilDiv_of_dvd {q d : ℕ} (hd : 0 < d) : ceilDiv (q * d) d = q := by
  rw [ceilDiv, Nat.add_sub_assoc hd, Nat.add_comm, Nat.add_mul_div_right _ _ hd,
    Nat.div_eq_of_lt (by omega), Nat.zero_add]

/-- The turns of a loop over the rows from `offset` in steps of `stride`. The guard is left out where
the steps end at the last row. -/
def rowTurns (rows stride offset column : ℕ) : List (ℕ × ℕ) :=
  (loopRange 0 (ceilDiv rows stride) 1).flatMap fun i =>
    if rows % stride = 0 ∨ offset + i * stride < rows then [(offset + i * stride, column)] else []

variable {rows : ℕ} {stride offset column : ℕ}

theorem mem_rowTurns (h : offset < stride) {row c : ℕ} :
    (row, c) ∈ rowTurns rows stride offset column ↔
      row < rows ∧ row % stride = offset ∧ c = column := by
  have hstride : 0 < stride := by omega
  unfold rowTurns
  simp only [mem_flatMap, mem_loopRange_one]
  constructor
  · rintro ⟨i, hi, hin⟩
    split at hin
    · rename_i hguard
      obtain ⟨rfl, rfl⟩ := Prod.mk.inj (mem_singleton.1 hin)
      refine ⟨?_, by rw [Nat.add_mul_mod_self_right, Nat.mod_eq_of_lt h], rfl⟩
      rcases hguard with hdvd | hlt
      · obtain ⟨q, rfl⟩ := Nat.dvd_of_mod_eq_zero hdvd
        rw [Nat.mul_comm stride q] at hi ⊢
        rw [ceilDiv_of_dvd hstride] at hi
        calc offset + i * stride < stride + i * stride := by omega
          _ = (i + 1) * stride := by ring
          _ ≤ q * stride := Nat.mul_le_mul_right stride hi
      · exact hlt
    · exact absurd hin not_mem_nil
  · rintro ⟨hrow, rfl, rfl⟩
    have hdiv : row % stride + row / stride * stride = row := Nat.mod_add_div' row stride
    refine ⟨row / stride, ?_, ?_⟩
    · refine (Nat.div_lt_iff_lt_mul hstride).2 ?_
      exact hrow.trans_le (le_ceilDiv_mul hstride)
    · rw [hdiv, if_pos (.inr hrow)]
      exact List.mem_singleton_self _

theorem nodup_rowTurns (hstride : 0 < stride) :
    (rowTurns rows stride offset column).Nodup := by
  refine nodup_turns (nodup_loopRange Nat.one_pos) (fun i => offset + i * stride) ?_ ?_ ?_
  · intro i j h
    exact Nat.eq_of_mul_eq_mul_right hstride (Nat.add_left_cancel h)
  · intro i _
    split
    · exact List.nodup_singleton _
    · exact List.nodup_nil
  · intro i _ x hx
    split at hx
    · rw [mem_singleton.1 hx]
    · exact absurd hx not_mem_nil

variable {info : Rank2CopyLoopInfo} {block : Block}

theorem number_of_x (hx : block.x = 32) (t : Thread) :
    block.number t = block.plane t * 32 + t.x := by
  rw [Block.number, hx, Nat.add_comm]

/-- **Whole rows to groups of lanes.** -/
theorem owns_wholeRows (hx : block.x = 32) (hsegments : 0 < info.cols / 8)
    (hdvd : 32 % (info.cols / 8) = 0) :
    Owns info block
      (fun row segment =>
        row % (block.y * block.z * (32 / (info.cols / 8))) * (info.cols / 8) + segment)
      (fun t => (emitWholeRows info.rows (info.cols / 8) (block.y * block.z)
        (.add (.threadId .y) (.mul (.threadId .z) (.constant block.y)))).transfers block t
          fun _ => 0) := by
  generalize hS : info.cols / 8 = segments at *
  obtain ⟨rowsPerWarp, hR⟩ := Nat.dvd_of_mod_eq_zero hdvd
  have hdiv : 32 / segments = rowsPerWarp := by
    rw [hR, Nat.mul_div_cancel_left _ hsegments]
  rw [hdiv]
  -- the turns of one thread
  have hturns : ∀ t ∈ block.threads, (emitWholeRows info.rows segments (block.y * block.z)
        (.add (.threadId .y) (.mul (.threadId .z) (.constant block.y)))).transfers block t
          (fun _ => 0) =
      rowTurns info.rows (block.y * block.z * rowsPerWarp)
        (block.plane t * rowsPerWarp + t.x / segments) (t.x % segments * 8) := by
    intro t _
    have hrow : ∀ i, (t.y + t.z * block.y + i * (block.y * block.z)) * rowsPerWarp + t.x / segments =
        block.plane t * rowsPerWarp + t.x / segments + i * (block.y * block.z * rowsPerWarp) := by
      intro i
      unfold Block.plane
      ring
    unfold emitWholeRows rowTurns
    rw [hdiv]
    by_cases hguard : info.rows % (block.y * block.z * rowsPerWarp) = 0
    · simp [Stmt.transfers, Index.eval, buildTransfer, hguard, hrow]
    · simp [Stmt.transfers, Index.eval, buildTransfer, hguard, hrow]
  have hlane : ∀ t ∈ block.threads, t.x / segments < rowsPerWarp := by
    intro t ht
    have hlt := (mem_threads.1 ht).1
    rw [hx, hR] at hlt
    exact (Nat.div_lt_iff_lt_mul hsegments).2 (by rwa [Nat.mul_comm])
  have hoffset : ∀ t ∈ block.threads, block.plane t * rowsPerWarp + t.x / segments <
      block.y * block.z * rowsPerWarp := by
    intro t ht
    calc block.plane t * rowsPerWarp + t.x / segments
        < block.plane t * rowsPerWarp + rowsPerWarp := Nat.add_lt_add_left (hlane t ht) _
      _ = (block.plane t + 1) * rowsPerWarp := by ring
      _ ≤ block.y * block.z * rowsPerWarp := Nat.mul_le_mul_right _ (plane_lt ht)
  have hnumber : ∀ t, block.number t =
      (block.plane t * rowsPerWarp + t.x / segments) * segments + t.x % segments := by
    intro t
    rw [number_of_x hx, hR, Nat.add_mul, Nat.add_assoc, Nat.div_add_mod', Nat.mul_assoc,
      Nat.mul_comm rowsPerWarp]
  refine ⟨fun t ht => ?_, fun t ht row column => ?_⟩
  · rw [hturns t ht]
    exact nodup_rowTurns (Nat.zero_lt_of_lt (hoffset t ht))
  · have hrem : t.x % segments < segments := Nat.mod_lt _ hsegments
    rw [hturns t ht, mem_rowTurns (hoffset t ht), hS, hnumber t]
    constructor
    · rintro ⟨hrow, hmod, hcolumn⟩
      exact ⟨hrow, _, hrem, hcolumn, by rw [hmod]⟩
    · rintro ⟨hrow, segment, hsegment, hcolumn, howner⟩
      have hquotient := congrArg (· / segments) howner
      have hremainder := congrArg (· % segments) howner
      simp only [Nat.mul_comm _ segments, Nat.mul_add_div hsegments, Nat.div_eq_of_lt hsegment,
        Nat.div_eq_of_lt hrem, Nat.mul_add_mod, Nat.mod_eq_of_lt hsegment,
        Nat.mod_eq_of_lt hrem] at hquotient hremainder
      exact ⟨hrow, by simpa using hquotient, by rw [hcolumn, hremainder]⟩

/-- **One segment to each of the first lanes.** -/
theorem owns_laneSegments (hx : block.x = 32) (hsegments : info.cols / 8 ≤ 32) :
    Owns info block (fun row segment => row % (block.y * block.z) * 32 + segment)
      (fun t => (emitLaneSegments info.rows (info.cols / 8) (block.y * block.z)
        (.add (.threadId .y) (.mul (.threadId .z) (.constant block.y)))).transfers block t
          fun _ => 0) := by
  have hturns : ∀ t, (emitLaneSegments info.rows (info.cols / 8) (block.y * block.z)
        (.add (.threadId .y) (.mul (.threadId .z) (.constant block.y)))).transfers block t
          (fun _ => 0) =
      if t.x < info.cols / 8 then
        rowTurns info.rows (block.y * block.z) (block.plane t) (t.x * 8)
      else [] := by
    unfold emitLaneSegments rowTurns
    by_cases hguard : info.rows % (block.y * block.z) = 0
    · simp [Stmt.transfers, Index.eval, buildTransfer, hguard, Block.plane]
    · simp [Stmt.transfers, Index.eval, buildTransfer, hguard, Block.plane]
  refine ⟨fun t ht => ?_, fun t ht row column => ?_⟩
  · rw [hturns]
    split
    · exact nodup_rowTurns (Nat.zero_lt_of_lt (plane_lt ht))
    · exact List.nodup_nil
  · have hlane : t.x < 32 := hx ▸ (mem_threads.1 ht).1
    rw [hturns, number_of_x hx]
    constructor
    · intro hmoved
      split at hmoved
      · rename_i hactive
        obtain ⟨hrow, hmod, hcolumn⟩ := (mem_rowTurns (plane_lt ht)).1 hmoved
        exact ⟨hrow, t.x, hactive, hcolumn, by rw [hmod]⟩
      · exact absurd hmoved not_mem_nil
    · rintro ⟨hrow, segment, hsegment, hcolumn, howner⟩
      obtain ⟨hplane, rfl⟩ : row % (block.y * block.z) = block.plane t ∧ segment = t.x := by omega
      rw [if_pos hsegment]
      exact (mem_rowTurns (plane_lt ht)).2 ⟨hrow, hplane, hcolumn⟩

/-- **Strides of all warps.** The last warp may have fewer than 32 lanes. -/
theorem owns_strided {dims : Option Block} (hdims : ∀ b, dims = some b → b = block) :
    Owns info block (fun row segment => row % ceilDiv block.size 32 * 32 + segment % 32)
      (fun t => (emitStrided info.rows (info.cols / 8) dims).transfers block t fun _ => 0) := by
  have hturns : ∀ t, (emitStrided info.rows (info.cols / 8) dims).transfers block t (fun _ => 0) =
      (loopRange (block.number t / 32) info.rows (ceilDiv block.size 32)).flatMap fun row =>
        (loopRange (block.number t % 32) (info.cols / 8) 32).flatMap fun segment =>
          [(row, segment * 8)] := by
    intro t
    cases dims with
    | none => rfl
    | some b =>
      rw [hdims b rfl]
      rfl
  refine ⟨fun t ht => ?_, fun t ht row column => ?_⟩
  · have hwarps : 0 < ceilDiv block.size 32 := by
      have := number_lt ht
      unfold ceilDiv
      omega
    rw [hturns]
    refine nodup_turns (nodup_loopRange hwarps) id Function.injective_id (fun row _ => ?_) ?_
    · refine nodup_flatMap.2 ⟨fun _ _ => List.nodup_singleton _, ?_⟩
      refine (nodup_loopRange (by omega)).imp fun {s s'} hne x hx hx' => hne ?_
      have := congrArg Prod.snd ((mem_singleton.1 hx).symm.trans (mem_singleton.1 hx'))
      simpa using this
    · intro row _ x hx
      obtain ⟨segment, -, hx⟩ := mem_flatMap.1 hx
      rw [mem_singleton.1 hx]
      rfl
  · have hwarp : block.number t / 32 < ceilDiv block.size 32 := by
      have := number_lt ht
      unfold ceilDiv
      omega
    have hlane : block.number t % 32 < 32 := Nat.mod_lt _ (by omega)
    rw [hturns]
    simp only [mem_flatMap, mem_singleton, Prod.mk.injEq, mem_loopRange_of_lt hwarp,
      mem_loopRange_of_lt hlane]
    constructor
    · rintro ⟨row', ⟨hrow, hmod⟩, segment, ⟨hsegment, hrem⟩, rfl, rfl⟩
      exact ⟨hrow, segment, hsegment, rfl, by rw [hmod, hrem]; omega⟩
    · rintro ⟨hrow, segment, hsegment, rfl, howner⟩
      refine ⟨row, ⟨hrow, by omega⟩, segment, ⟨hsegment, by omega⟩, rfl, rfl⟩

theorem match_pos {loop : LoopOp} (h : matchRank2CopyLoop loop = some info) :
    0 < info.rows ∧ 0 < info.cols / 8 := by
  unfold matchRank2CopyLoop at h
  split at h
  · simp only [Option.bind_eq_bind, Option.bind_eq_some_iff, Option.guard_eq_some', exists_const,
      Option.pure_def, Option.some.injEq] at h
    obtain ⟨rows, -, ⟨-, -, hrows⟩, cols, -, ⟨-, -, hcols⟩, -, -, -, -, hmod, rfl⟩ := h
    simp only
    omega
  · cases h

theorem strided_lt_iff {size segments : ℕ} (hsize : 0 < size) :
    (∀ row < rows, ∀ segment < segments, row % ceilDiv size 32 * 32 + segment % 32 < size) ↔
      size % 32 = 0 ∨ segments ≤ size % 32 ∨ rows ≤ size / 32 := by
  unfold ceilDiv
  constructor
  · intro h
    by_contra hnone
    -- the first lane that the last warp does not have
    have hlast := h (size / 32) (by omega) (size % 32) (by omega)
    rw [Nat.mod_eq_of_lt (by omega : size / 32 < (size + 32 - 1) / 32)] at hlast
    omega
  · intro h row hrow segment hsegment
    have hle : row % ((size + 32 - 1) / 32) ≤ row := Nat.mod_le _ _
    have hlt : row % ((size + 32 - 1) / 32) < (size + 32 - 1) / 32 := Nat.mod_lt _ (by omega)
    rcases h with h | h | h
    · omega
    · have := Nat.mod_eq_of_lt (by omega : segment < 32)
      omega
    · omega

/-- **Every segment of a copy is moved once** where the block has whole warps, or the last warp has a
lane for each segment, or it has no row. -/
theorem copiesOnce_iff {loop : LoopOp} (h : matchRank2CopyLoop loop = some info) (block : Block)
    (isStatic : Bool) :
    (blockTransfers info block isStatic).Perm (segmentGrid info) ↔
      block.size % 32 = 0 ∨ info.cols / 8 ≤ block.size % 32 ∨ info.rows ≤ block.size / 32 := by
  obtain ⟨hrows, hsegments⟩ := match_pos h
  have hnone : ¬ (info.rows = 0 ∨ info.cols / 8 = 0) := by omega
  have hsize : 0 < block.size :=
    Nat.mul_pos (Nat.mul_pos block.pos.1 block.pos.2.1) block.pos.2.2
  have hstrided : ∀ dims : Option Block, (∀ b, dims = some b → b = block) →
      ((block.threads.flatMap fun t =>
        (emitStrided info.rows (info.cols / 8) dims).transfers block t fun _ => 0).Perm
          (segmentGrid info) ↔
        block.size % 32 = 0 ∨ info.cols / 8 ≤ block.size % 32 ∨ info.rows ≤ block.size / 32) :=
    fun dims hdims => (perm_iff_of_owner (owns_strided hdims)).trans (strided_lt_iff hsize)
  unfold blockTransfers emitDistributedVectorCopy
  rw [if_neg hnone]
  cases isStatic with
  | false => exact hstrided none nofun
  | true =>
    simp only [if_true]
    by_cases hwarps : block.x = 32 ∧ 0 < block.y ∧ 0 < block.z ∧ 32 ≤ block.size ∧
        block.size % 32 = 0 ∧ info.cols / 8 ≤ 32
    · rw [if_pos hwarps]
      obtain ⟨hx, hy, hz, -, hmod, hle⟩ := hwarps
      have hgroups : 0 < block.y * block.z := Nat.mul_pos hy hz
      have hthreads : block.size = block.y * block.z * 32 := by
        rw [Block.size, hx, Nat.mul_assoc, Nat.mul_comm]
      refine iff_of_true ?_ (.inl hmod)
      -- a warp takes whole rows, or one row with lanes to spare
      by_cases hdvd : 32 % (info.cols / 8) = 0
      · rw [if_pos hdvd]
        refine (perm_iff_of_owner (owns_wholeRows hx hsegments hdvd)).2 fun row _ segment hsegment => ?_
        obtain ⟨rowsPerWarp, hR⟩ := Nat.dvd_of_mod_eq_zero hdvd
        have hdiv : 32 / (info.cols / 8) = rowsPerWarp := by
          conv_lhs => rw [hR]
          rw [Nat.mul_div_cancel_left _ hsegments]
        have hR0 : 0 < rowsPerWarp := by
          by_contra hzero
          rw [Nat.eq_zero_of_not_pos hzero] at hR
          omega
        have hlt : row % (block.y * block.z * rowsPerWarp) < block.y * block.z * rowsPerWarp :=
          Nat.mod_lt _ (Nat.mul_pos hgroups hR0)
        rw [hdiv]
        calc row % (block.y * block.z * rowsPerWarp) * (info.cols / 8) + segment
            < row % (block.y * block.z * rowsPerWarp) * (info.cols / 8) + info.cols / 8 :=
              Nat.add_lt_add_left hsegment _
          _ = (row % (block.y * block.z * rowsPerWarp) + 1) * (info.cols / 8) := by ring
          _ ≤ block.y * block.z * rowsPerWarp * (info.cols / 8) := Nat.mul_le_mul_right _ hlt
          _ = block.y * block.z * ((info.cols / 8) * rowsPerWarp) := by ring
          _ = block.size := by rw [hthreads, ← hR]
      · rw [if_neg hdvd]
        refine (perm_iff_of_owner (owns_laneSegments hx hle)).2 fun row _ segment hsegment => ?_
        have hlt : row % (block.y * block.z) < block.y * block.z := Nat.mod_lt _ hgroups
        omega
    · rw [if_neg hwarps]
      exact hstrided (some block) fun b hb => (Option.some.inj hb).symm

/-- The loops of a copy from a global tile to a workgroup tile. -/
def tileCopyLoop (rows cols : ℤ) : LoopOp :=
  let shape := [some rows, some cols]
  .scfFor (some 0) (some rows) (some 1) 0
    [.scfFor (some 0) (some cols) (some 1) 1
      [.load 2 (.value 3 ⟨shape, .f16, false⟩) [0, 1],
        .store 2 (.value 4 ⟨shape, .f16, true⟩) [0, 1]]]

/-- A row of eight segments and a block of 48 threads. -/
theorem copiesOnce_iff_shortRow : ∃ info, matchRank2CopyLoop (tileCopyLoop 64 64) = some info ∧
    (blockTransfers info ⟨48, 1, 1, by decide⟩ true).Perm (segmentGrid info) :=
  ⟨_, rfl, (copiesOnce_iff (rfl : matchRank2CopyLoop (tileCopyLoop 64 64) = some _) _ true).2
    (.inr (.inl (by decide)))⟩

/-- **A block of half a warp misses half of a row** of 32 segments. -/
theorem partial_warp_misses : ∃ info, matchRank2CopyLoop (tileCopyLoop 1 256) = some info ∧
    ¬ (blockTransfers info ⟨16, 1, 1, by decide⟩ false).Perm (segmentGrid info) ∧
    (0, 128) ∈ segmentGrid info ∧ (0, 128) ∉ blockTransfers info ⟨16, 1, 1, by decide⟩ false := by
  have hmissed : ∀ info, matchRank2CopyLoop (tileCopyLoop 1 256) = some info →
      (0, 128) ∈ segmentGrid info ∧
        (0, 128) ∉ blockTransfers info ⟨16, 1, 1, by decide⟩ false := by
    rintro _ ⟨⟩
    decide
  refine ⟨_, rfl, fun hperm => ?_, hmissed _ rfl⟩
  exact (hmissed _ rfl).2 (hperm.mem_iff.2 (hmissed _ rfl).1)

end Matcore.Gpu.VectorCopy
