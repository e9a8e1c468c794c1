import Mathlib.Data.List.ProdSigma
import Matcore.Gpu.SplitK
import Matcore.Lib.Ownership

/-!
# Split-K computes the whole product

The slices share out the iterations of the K loop where the K tile divides K, as it does in every
mapping that is selected, and a store goes to the element of its slice that it would have written
where its views do not stride. The reduction adds the slices in any case.
-/

namespace Matcore.Gpu.SplitK

open List (mem_map map_map nodup_range range mem_range length_cons mem_cons)
open LoopNest (points)

theorem largestDivisorBelow_dvd (kTiles split : ℕ) :
    1 < largestDivisorBelow kTiles split → largestDivisorBelow kTiles split ∣ kTiles := by
  induction split with
  | zero => intro h; exact absurd h (by simp [largestDivisorBelow])
  | succ split ih =>
    rw [largestDivisorBelow]
    split_ifs with hsmaller
    · exact ih
    · intro hone
      rw [not_and, not_not] at hsmaller
      exact Nat.dvd_of_mod_eq_zero (hsmaller hone)

/-- A split has at least four tiles of K, and its factor divides their number. -/
theorem computeSplitKFactor_spec {config : NvidiaMappingConfig} {m n k smCount : ℕ}
    (h : 1 < computeSplitKFactor config m n k smCount) :
    4 ≤ k / config.kTile ∧ computeSplitKFactor config m n k smCount ∣ k / config.kTile := by
  unfold computeSplitKFactor at h ⊢
  dsimp only at h ⊢
  split at h
  · omega
  · rename_i hfew
    rw [if_neg hfew]
    generalize (if min _ _ < 2 then _ else _ : ℕ) = split at h ⊢
    by_cases htwo : 2 ≤ largestDivisorBelow (k / config.kTile) split
    · rw [if_pos htwo]
      exact ⟨by omega, largestDivisorBelow_dvd _ _ htwo⟩
    · rw [if_neg htwo] at h
      omega

theorem halveToDivisor_dvd {dim tile : ℕ} (htile : 0 < tile) : halveToDivisor dim tile ∣ dim := by
  induction tile using Nat.strong_induction_on with
  | _ tile ih =>
    rw [halveToDivisor]
    split_ifs with hhalve
    · exact ih (tile / 2) (by omega) (by omega)
    · rw [not_and, not_not] at hhalve
      by_cases hone : 1 < tile
      · exact Nat.dvd_of_mod_eq_zero (hhalve hone)
      · obtain rfl : tile = 1 := by omega
        exact one_dvd dim

theorem pickTilingFactor_dvd {dim preferred : ℕ} (hdim : 0 < dim) :
    pickTilingFactor dim preferred ∣ dim := by
  unfold pickTilingFactor
  split_ifs with hnone
  · exact one_dvd dim
  · omega
  · have hdvd : halveToDivisor dim (min dim preferred) ∣ dim := halveToDivisor_dvd (by omega)
    rwa [max_eq_left (Nat.pos_of_dvd_of_pos hdvd hdim)]

theorem mem_iterations {loop : KLoop} (hstep : 0 < loop.step) {x : ℕ} :
    x ∈ loop.iterations ↔
      loop.lowerBound ≤ x ∧ x < loop.upperBound ∧ loop.step ∣ x - loop.lowerBound :=
  Loop.mem_strides_from hstep

theorem iterations_nodup {loop : KLoop} (hstep : 0 < loop.step) : loop.iterations.Nodup := by
  unfold KLoop.iterations Loop.strides
  rw [map_map]
  refine List.Nodup.map ?_ nodup_range
  intro x y hxy
  have hmul : x * loop.step = y * loop.step := by simpa using hxy
  exact Nat.eq_of_mul_eq_mul_right hstep hmul

section slices
variable {s k kTile : ℕ}

/-- The loop of a product. -/
def wholeLoop (k kTile : ℕ) : KLoop := { upperBound := k, step := kTile }

/-- The length of a slice. -/
def chunk (s k : ℕ) : ℕ := (k + (s - 1)) / s

theorem mem_slice (hs : 1 < s) (hstep : 0 < kTile) {z x : ℕ} :
    x ∈ (partition s z (wholeLoop k kTile)).iterations ↔
      min (z * chunk s k) k ≤ x ∧ x < min ((z + 1) * chunk s k) k ∧
        kTile ∣ x - min (z * chunk s k) k := by
  have hsplit : ¬ s ≤ 1 := by omega
  have hpartition : partition s z (wholeLoop k kTile) =
      ⟨min (z * chunk s k) k, min ((z + 1) * chunk s k) k, kTile⟩ := by
    unfold partition
    rw [if_neg hsplit]
    rfl
  rw [hpartition]
  exact mem_iterations hstep

theorem chunk_dvd (hs : 1 < s) (hk : kTile ∣ k) (htiles : s ∣ k / kTile) :
    kTile ∣ chunk s k ∧ s * chunk s k = k := by
  obtain ⟨tiles, rfl⟩ := hk
  rcases Nat.eq_zero_or_pos kTile with rfl | hpos
  · have hsmall : (s - 1) / s = 0 := Nat.div_eq_of_lt (by omega)
    simp [chunk, hsmall]
  · rw [Nat.mul_div_cancel_left _ hpos] at htiles
    obtain ⟨perSlice, rfl⟩ := htiles
    have hchunk : chunk s (kTile * (s * perSlice)) = kTile * perSlice := by
      unfold chunk
      rw [show kTile * (s * perSlice) + (s - 1) = s - 1 + s * (kTile * perSlice) by ring,
        Nat.add_mul_div_left _ _ (by omega), Nat.div_eq_of_lt (by omega), Nat.zero_add]
    rw [hchunk]
    exact ⟨Nat.dvd_mul_right _ _, by ring⟩

/-- **The slices of a loop of whole tiles share out its iterations.** -/
theorem slices_perm (hs : 1 < s) (hstep : 0 < kTile) (hk : kTile ∣ k) (htiles : s ∣ k / kTile) :
    ((range s).flatMap fun z => (partition s z (wholeLoop k kTile)).iterations).Perm
      (wholeLoop k kTile).iterations := by
  obtain ⟨hchunk, hwhole⟩ := chunk_dvd hs hk htiles
  have hle : ∀ z, z < s → (z + 1) * chunk s k ≤ k := fun z hz => by
    calc (z + 1) * chunk s k ≤ s * chunk s k := Nat.mul_le_mul_right _ hz
      _ = k := hwhole
  have hmem : ∀ z, z < s → ∀ x, x ∈ (partition s z (wholeLoop k kTile)).iterations ↔
      z * chunk s k ≤ x ∧ x < (z + 1) * chunk s k ∧ kTile ∣ x := by
    intro z hz x
    have hupper := hle z hz
    have hlower : z * chunk s k ≤ k := by
      have : (z + 1) * chunk s k = z * chunk s k + chunk s k := by ring
      omega
    rw [mem_slice hs hstep, min_eq_left hlower, min_eq_left hupper]
    refine and_congr_right fun hx => and_congr_right fun _ => ?_
    exact (Nat.dvd_sub_iff_left hx (Dvd.dvd.mul_left hchunk z))
  refine flatMap_perm_of_owner nodup_range ?_ (iterations_nodup hstep) ?_ ?_
  · intro z _
    exact iterations_nodup (by unfold partition; split <;> exact hstep)
  · intro z hz z' hz' x hx hx'
    rw [hmem z (mem_range.1 hz)] at hx
    rw [hmem z' (mem_range.1 hz')] at hx'
    -- both are the quotient by the length of a slice
    have hpos : 0 < chunk s k := by
      have : (z + 1) * chunk s k = z * chunk s k + chunk s k := by ring
      omega
    rw [← Nat.div_eq_of_lt_le hx.1 hx.2.1, ← Nat.div_eq_of_lt_le hx'.1 hx'.2.1]
  · intro x
    rw [mem_iterations hstep]
    constructor
    · rintro ⟨-, hlt, hdvd⟩
      have hlt : x < s * chunk s k := hwhole.symm ▸ hlt
      have hpos : 0 < chunk s k := Nat.pos_of_ne_zero fun hzero => by
        rw [hzero] at hlt
        omega
      have hz : x / chunk s k < s := Nat.div_lt_of_lt_mul (by rwa [Nat.mul_comm])
      refine ⟨x / chunk s k, mem_range.2 hz, (hmem _ hz x).2 ⟨Nat.div_mul_le_self _ _, ?_, ?_⟩⟩
      · rw [Nat.mul_comm]
        exact Nat.lt_mul_div_succ x hpos
      · simpa [wholeLoop] using hdvd
    · rintro ⟨z, hz, hx⟩
      have hz := mem_range.1 hz
      obtain ⟨-, hlt, hdvd⟩ := (hmem z hz x).1 hx
      have := hle z hz
      exact ⟨Nat.zero_le x, lt_of_lt_of_le hlt this, by simpa [wholeLoop] using hdvd⟩

/-- Behind a tile that is cut off, the second slice starts between two iterations. -/
theorem dvd_of_slices_perm (hs : 1 < s) (hstep : 0 < kTile) (htiles : s ∣ k / kTile)
    (hfour : 4 ≤ k / kTile)
    (h : ((range s).flatMap fun z => (partition s z (wholeLoop k kTile)).iterations).Perm
      (wholeLoop k kTile).iterations) : kTile ∣ k := by
  obtain ⟨perSlice, hperSlice⟩ := htiles
  have hdiv : kTile * (s * perSlice) + k % kTile = k := hperSlice ▸ Nat.div_add_mod k kTile
  by_contra hnot
  have hrest : 0 < k % kTile := Nat.pos_of_ne_zero fun hzero => hnot (Nat.dvd_of_mod_eq_zero hzero)
  have hrestlt : k % kTile < kTile := Nat.mod_lt k hstep
  -- the share of the rest that is in the length of a slice
  obtain ⟨q, hq⟩ : ∃ q, q = (k % kTile + (s - 1)) / s := ⟨_, rfl⟩
  have hchunk : chunk s k = kTile * perSlice + q := by
    have hsum : k + (s - 1) = k % kTile + (s - 1) + s * (kTile * perSlice) := by
      have : kTile * (s * perSlice) = s * (kTile * perSlice) := by ring
      omega
    rw [chunk, hsum, Nat.add_mul_div_left _ _ (by omega), Nat.add_comm, hq]
  have hqpos : 0 < q := hq ▸ Nat.div_pos (by omega) (by omega)
  have hqlt : q < kTile := by
    have hle : q ≤ k % kTile := by
      rw [hq]
      refine Nat.div_le_of_le_mul ?_
      obtain ⟨s', rfl⟩ : ∃ s', s = s' + 1 := ⟨s - 1, by omega⟩
      have : s' ≤ s' * (k % kTile) := Nat.le_mul_of_pos_right _ hrest
      rw [Nat.add_one_mul]
      omega
    omega
  have hlt : chunk s k < k := by
    have hslice : 0 < perSlice := Nat.pos_of_ne_zero fun hzero => by
      rw [hperSlice, hzero] at hfour
      omega
    have htwo : kTile * (2 * perSlice) ≤ kTile * (s * perSlice) :=
      Nat.mul_le_mul_left _ (Nat.mul_le_mul_right _ hs)
    have hone : kTile ≤ kTile * perSlice := Nat.le_mul_of_pos_right _ hslice
    have : kTile * (2 * perSlice) = kTile * perSlice + kTile * perSlice := by ring
    omega
  have hmem : chunk s k ∈ (partition s 1 (wholeLoop k kTile)).iterations := by
    rw [mem_slice hs hstep, Nat.one_mul, min_eq_left hlt.le, Nat.sub_self]
    exact ⟨le_refl _, lt_min (by omega) hlt, Nat.dvd_zero kTile⟩
  have horiginal := h.subset (List.mem_flatMap.2 ⟨1, mem_range.2 hs, hmem⟩)
  have hdvd : kTile ∣ chunk s k := ((mem_iterations hstep).1 horiginal).2.2
  rw [hchunk, Nat.dvd_add_right (Nat.dvd_mul_right _ _)] at hdvd
  exact absurd (Nat.le_of_dvd hqpos hdvd) (by omega)

end slices

/-- The output, seen through subviews only. -/
def View.IsChain : View → Prop
  | output => True
  | reinterpretCast _ _ => False
  | subView source _ => source.IsChain

/-- The views do not stride, and a cast has rows and columns that lie as those of the output. -/
def View.Plain (columns : ℕ) : View → List ℕ → Prop
  | output, _ => True
  | reinterpretCast offset strides, indices =>
    ∃ row col i j, strides = [row, col] ∧ indices = [i, j] ∧
      columns * (i + offset / divisor columns strides) + (j + offset % divisor columns strides) =
        offset + (row.value * i + col.value * j) ∧
      j + offset % divisor columns strides < columns
  | subView source dims, indices =>
    (∀ d ∈ dims, d.dropped = false) ∧
      List.Forall₂ (fun d i => d.stride = 1 ∨ i = 0) dims indices ∧
      source.Plain columns (addOffsets indices dims)

section views
variable {columns : ℕ} {view : View} {dims : List SubViewDim} {a b : List ℕ}

theorem length_addOffsets (dims : List SubViewDim) (a : List ℕ) :
    (addOffsets a dims).length = a.length := by
  induction dims generalizing a with
  | nil => cases a <;> rfl
  | cons d dims ih =>
    cases a with
    | nil => rfl
    | cons i a => rw [addOffsets, length_cons, ih, length_cons]

variable {d : SubViewDim}

theorem sourceIndices_dropped (h : d.dropped = true) (a : List ℕ) :
    sourceIndices (d :: dims) a = d.offset :: sourceIndices dims a := by
  cases a <;> simp [sourceIndices, h]

theorem sourceIndices_kept (h : d.dropped = false) (i : ℕ) (a : List ℕ) :
    sourceIndices (d :: dims) (i :: a) = (d.offset + d.stride * i) :: sourceIndices dims a := by
  simp [sourceIndices, h]

theorem length_sourceIndices (h : a.length = (dims.filter fun d => !d.dropped).length) :
    (sourceIndices dims a).length = dims.length := by
  induction dims generalizing a with
  | nil => rfl
  | cons d dims ih =>
    by_cases hdropped : d.dropped = true
    · rw [List.filter_cons_of_neg (by simp [hdropped])] at h
      rw [sourceIndices_dropped hdropped, length_cons, ih h, length_cons]
    · rw [List.filter_cons_of_pos (by simpa using hdropped)] at h
      cases a with
      | nil => simp at h
      | cons i a =>
        rw [length_cons, length_cons, Nat.succ_inj] at h
        rw [sourceIndices_kept (by simpa using hdropped), length_cons, ih h, length_cons]

/-- The offsets alone lead no further than the strides do, and as far only without them. -/
theorem addOffsets_le (hkept : ∀ d ∈ dims, d.dropped = false) (hlength : a.length = dims.length)
    (hab : List.Forall₂ (· ≤ ·) a b) :
    List.Forall₂ (· ≤ ·) (addOffsets a dims) (sourceIndices dims b) ∧
      (addOffsets a dims = sourceIndices dims b ↔
        a = b ∧ List.Forall₂ (fun d i => d.stride = 1 ∨ i = 0) dims a) := by
  induction hab generalizing dims with
  | nil =>
    obtain rfl : dims = [] := List.length_eq_zero_iff.1 hlength.symm
    exact ⟨.nil, by simp [addOffsets, sourceIndices]⟩
  | @cons i j a b hij _ ih =>
    cases dims with
    | nil => cases hlength
    | cons d dims =>
      have hd : d.dropped = false := hkept d List.mem_cons_self
      obtain ⟨hle, heq⟩ := ih (fun d hd => hkept d (List.mem_cons_of_mem _ hd))
        (Nat.succ.inj hlength)
      have hstride : j ≤ d.stride * j := Nat.le_mul_of_pos_left j d.stride_pos
      rw [addOffsets, sourceIndices_kept hd]
      refine ⟨.cons (by omega) hle, ?_⟩
      rw [List.cons.injEq, heq, List.cons.injEq, List.forall₂_cons]
      have hhead : i + d.offset = d.offset + d.stride * j ↔ i = j ∧ (d.stride = 1 ∨ i = 0) := by
        constructor
        · intro hsum
          obtain rfl : i = j := by omega
          refine ⟨rfl, ?_⟩
          rcases Nat.eq_zero_or_pos i with hzero | hpos
          · exact .inr hzero
          · refine .inl (Nat.eq_of_mul_eq_mul_right hpos ?_)
            omega
        · rintro ⟨rfl, hone | rfl⟩
          · rw [hone]
            omega
          · omega
      rw [hhead]
      tauto

theorem rank_le_two (hwell : view.WellFormed) (hchain : view.IsChain) : view.rank ≤ 2 := by
  induction view with
  | output => exact le_refl 2
  | reinterpretCast => exact hchain.elim
  | subView source dims ih =>
    calc (dims.filter fun d => !d.dropped).length ≤ dims.length := List.length_filter_le _ _
      _ = source.rank := hwell.1
      _ ≤ 2 := ih hwell.2 hchain

theorem length_redirected (hchain : view.IsChain) (a : List ℕ) :
    (view.redirected columns a).length = a.length := by
  induction view generalizing a with
  | output => rfl
  | reinterpretCast => exact hchain.elim
  | subView source dims ih => rw [View.redirected, ih hchain, length_addOffsets]

theorem length_position (hwell : view.WellFormed) (hchain : view.IsChain)
    (h : a.length = view.rank) : (view.position columns a).length = 2 := by
  induction view generalizing a with
  | output => exact h
  | reinterpretCast => exact hchain.elim
  | subView source dims ih =>
    exact ih hwell.2 hchain ((length_sourceIndices h).trans hwell.1)

theorem rank_of_plain (hwell : view.WellFormed) (hchain : view.IsChain)
    (h : view.Plain columns a) : view.rank = 2 := by
  induction view generalizing a with
  | output => rfl
  | reinterpretCast => exact hchain.elim
  | subView source dims ih =>
    obtain ⟨hkept, -, hsource⟩ := h
    have hall : dims.filter (fun d => !d.dropped) = dims :=
      List.filter_eq_self.2 fun d hd => by simp [hkept d hd]
    rw [View.rank, hall, hwell.1, ih hwell.2 hchain hsource]

theorem kept_of_rank {source : View} (hwell : (View.subView source dims).WellFormed)
    (hchain : source.IsChain) (hrank : (View.subView source dims).rank = 2) :
    (∀ d ∈ dims, d.dropped = false) ∧ source.rank = 2 ∧ dims.length = 2 := by
  have hsource : source.rank ≤ 2 := rank_le_two hwell.2 hchain
  have hlength : dims.length = source.rank := hwell.1
  have hfilter : (dims.filter fun d => !d.dropped).length = 2 := hrank
  have hle := List.length_filter_le (fun d : SubViewDim => !d.dropped) dims
  refine ⟨fun d hd => ?_, by omega, by omega⟩
  have hall := List.length_filter_eq_length_iff.1 (hfilter.trans (by omega : 2 = dims.length)) d hd
  simpa using hall

theorem redirected_le (hwell : view.WellFormed) (hchain : view.IsChain) (hrank : view.rank = 2)
    (hlength : a.length = 2) (hab : List.Forall₂ (· ≤ ·) a b) :
    List.Forall₂ (· ≤ ·) (view.redirected columns a) (view.position columns b) ∧
      (view.redirected columns a = view.position columns b ↔ a = b ∧ view.Plain columns a) := by
  induction view generalizing a b with
  | output => exact ⟨hab, (and_iff_left trivial).symm⟩
  | reinterpretCast => exact hchain.elim
  | subView source dims ih =>
    obtain ⟨hkept, hsource, hdims⟩ := kept_of_rank hwell hchain hrank
    obtain ⟨hle, heq⟩ := addOffsets_le hkept (hlength.trans hdims.symm) hab
    obtain ⟨hle', heq'⟩ := ih hwell.2 hchain hsource ((length_addOffsets dims a).trans hlength) hle
    refine ⟨hle', heq'.trans ?_⟩
    rw [heq, View.Plain]
    tauto

/-- **Through subviews a store keeps its place where it does not stride.** -/
theorem redirected_chain_iff (hwell : view.WellFormed) (hchain : view.IsChain)
    (hlength : a.length = view.rank) :
    view.redirected columns a = view.position columns a ↔ view.Plain columns a := by
  by_cases hrank : view.rank = 2
  · have hself : List.Forall₂ (· ≤ ·) a a := List.forall₂_same.2 fun _ _ => le_rfl
    rw [(redirected_le hwell hchain hrank (hlength.trans hrank) hself).2]
    exact and_iff_right rfl
  · refine iff_of_false (fun heq => hrank ?_) fun h => hrank (rank_of_plain hwell hchain h)
    have hsame : (view.redirected columns a).length = a.length := length_redirected hchain a
    rw [← hlength, ← hsame, heq, length_position hwell hchain hlength]

/-- **Through a cast it does where rows and columns lie as in the output.** -/
theorem redirected_cast_iff {offset : ℕ} {strides : List Stride} (hcolumns : 0 < columns)
    (hlength : a.length = strides.length) :
    (View.reinterpretCast offset strides).redirected columns a =
        (View.reinterpretCast offset strides).position columns a ↔
      (View.reinterpretCast offset strides).Plain columns a := by
  have hposition : (View.reinterpretCast offset strides).position columns a =
      [linearIndex offset strides a / columns, linearIndex offset strides a % columns] := rfl
  rw [hposition]
  match strides, a, hlength with
  | [row, col], [i, j], _ =>
    have hlinear : linearIndex offset [row, col] [i, j] =
        offset + (row.value * i + col.value * j) := by
      simp [linearIndex]
    obtain ⟨r, hr⟩ : ∃ r, r = i + offset / divisor columns [row, col] := ⟨_, rfl⟩
    obtain ⟨c, hc⟩ : ∃ c, c = j + offset % divisor columns [row, col] := ⟨_, rfl⟩
    have hredirected :
        (View.reinterpretCast offset [row, col]).redirected columns [i, j] = [r, c] := by
      rw [hr, hc]
      rfl
    have hplain : (View.reinterpretCast offset [row, col]).Plain columns [i, j] ↔
        columns * r + c = offset + (row.value * i + col.value * j) ∧ c < columns := by
      rw [hr, hc]
      constructor
      · rintro ⟨row', col', i', j', hs, hi, h⟩
        cases hs
        cases hi
        exact h
      · exact fun h => ⟨row, col, i, j, rfl, rfl, h⟩
    rw [hredirected, hplain, hlinear]
    generalize offset + (row.value * i + col.value * j) = address
    -- the row and the column are the quotient and the remainder
    constructor
    · intro heq
      obtain ⟨rfl, rfl⟩ : r = address / columns ∧ c = address % columns := by simpa using heq
      exact ⟨Nat.div_add_mod address columns, Nat.mod_lt _ hcolumns⟩
    · rintro ⟨rfl, hlt⟩
      rw [Nat.mul_add_div hcolumns, Nat.div_eq_of_lt hlt, Nat.mul_add_mod, Nat.mod_eq_of_lt hlt,
        Nat.add_zero]
  | [], [], _ =>
    exact iff_of_false (by simp [View.redirected]) (by rintro ⟨_, _, _, _, h, -⟩; cases h)
  | [_], [_], _ =>
    exact iff_of_false (by simp [View.redirected]) (by rintro ⟨_, _, _, _, h, -⟩; cases h)
  | _ :: _ :: _ :: _, _ :: _ :: _ :: _, _ =>
    exact iff_of_false (by simp [View.redirected]) (by rintro ⟨_, _, _, _, h, -⟩; cases h)

theorem cast_plain {offset i j : ℕ} (h : j + offset % columns < columns) :
    (View.reinterpretCast offset [⟨columns, true⟩, ⟨1, true⟩]).Plain columns [i, j] := by
  have hdivisor : divisor columns [⟨columns, true⟩, ⟨1, true⟩] = columns := by
    simp [divisor]
  refine ⟨_, _, i, j, rfl, rfl, ?_, by rwa [hdivisor]⟩
  have hoffset := Nat.div_add_mod offset columns
  rw [hdivisor, Nat.mul_add]
  show columns * i + columns * (offset / columns) + (j + offset % columns) =
    offset + (columns * i + 1 * j)
  omega

end views

section kernels
variable {V : Type} [AddCommMonoid V] {s rows columns : ℕ} {loop : KLoop}

theorem reduceGrid_eq (rows columns : ℕ) :
    reduceGrid rows columns =
      range ((rows * columns + reduceThreads - 1) / reduceThreads * reduceThreads) := by
  unfold reduceGrid
  rw [Loop.flatMap_range]
  conv_rhs => rw [← List.map_id (range _)]
  refine List.map_congr_left fun d _ => ?_
  rw [Nat.mul_comm]
  exact Nat.div_add_mod d reduceThreads

theorem le_gridSize (rows columns : ℕ) :
    rows * columns ≤ (rows * columns + reduceThreads - 1) / reduceThreads * reduceThreads := by
  unfold reduceThreads
  omega

/-- **Each element is written by one thread**, in the order of the threads. -/
theorem reduce_targets (rows columns : ℕ) :
    (reduceGrid rows columns).filterMap (reduceTarget rows columns) =
      points [rows, columns] := by
  have hpoints : points [rows, columns] =
      (range (rows * columns)).map fun d => [d / columns, d % columns] := by
    rw [← Loop.flatMap_range rows columns fun i j => [i, j]]
    have hrow : ∀ i, (range columns).map (fun j => [i, j]) =
        (range columns).flatMap fun j => [[i, j]] := fun i => List.map_eq_flatMap
    simp [points, List.map_flatMap, hrow]
  obtain ⟨idle, hidle⟩ := Nat.exists_eq_add_of_le (le_gridSize rows columns)
  rw [reduceGrid_eq, hidle, List.range_add, List.filterMap_append, hpoints]
  have hbusy : (range (rows * columns)).filterMap (reduceTarget rows columns) =
      (range (rows * columns)).map fun d => [d / columns, d % columns] := by
    rw [← List.filterMap_eq_map]
    refine List.filterMap_congr fun d hd => ?_
    rw [reduceTarget, if_pos (mem_range.1 hd)]
    rfl
  have hnone : ((range idle).map (rows * columns + ·)).filterMap (reduceTarget rows columns) =
      [] := by
    rw [List.filterMap_eq_nil_iff]
    intro d hd
    obtain ⟨i, -, rfl⟩ := mem_map.1 hd
    rw [reduceTarget, if_neg (by omega)]
  rw [hbusy, hnone, List.append_nil]

theorem reduceTarget_eq_some {d : ℕ} {x : List ℕ} (h : reduceTarget rows columns d = some x) :
    d < rows * columns ∧ x = [d / columns, d % columns] := by
  unfold reduceTarget at h
  split at h
  · exact ⟨by assumption, (Option.some.inj h).symm⟩
  · cases h

theorem reduce_owned (s rows columns : ℕ) (ws : List ℕ → V) :
    Owned (fun (out : List ℕ → V) x => out x)
      (fun d x => reduceTarget rows columns d = some x) (reduceThread s rows columns ws) where
  unique := by
    intro d d' x hd hd'
    obtain ⟨-, rfl⟩ := reduceTarget_eq_some hd
    obtain ⟨-, heq⟩ := reduceTarget_eq_some hd'
    have hdiv : d / columns = d' / columns := (List.cons.inj heq).1
    have hmod : d % columns = d' % columns := (List.cons.inj (List.cons.inj heq).2).1
    rw [← Nat.div_add_mod d columns, hdiv, hmod, Nat.div_add_mod]
  frame := by
    intro out d x hx
    unfold reduceThread
    cases helement : reduceTarget rows columns d with
    | none => rfl
    | some element =>
      have hne : x ≠ element := fun heq => hx (heq.symm ▸ helement)
      exact Function.update_of_ne hne _ _
  reads := by
    intro out out' d _ x hx
    unfold reduceThread
    rw [hx]
    dsimp only
    rw [Function.update_self, Function.update_self]

/-- **In any order of its threads the reduction leaves the sum of the slices** in every element. -/
theorem reduce_eq (s : ℕ) (ws out : List ℕ → V) {order : List ℕ}
    (horder : order.Perm (reduceGrid rows columns)) {row col : ℕ} (hrow : row < rows)
    (hcol : col < columns) :
    order.foldl (reduceThread s rows columns ws) out [row, col] =
      ((range s).map fun z => ws [z, row, col]).sum := by
  have hlt : col + columns * row < rows * columns := by
    calc col + columns * row < columns + columns * row := by omega
      _ = (row + 1) * columns := by ring
      _ ≤ rows * columns := Nat.mul_le_mul_right _ hrow
  have hmem : col + columns * row ∈ order := by
    rw [horder.mem_iff, reduceGrid_eq, mem_range]
    exact lt_of_lt_of_le hlt (le_gridSize rows columns)
  have hnodup : order.Nodup := by
    rw [horder.nodup_iff, reduceGrid_eq]
    exact nodup_range
  have htarget : reduceTarget rows columns (col + columns * row) = some [row, col] := by
    rw [reduceTarget, if_pos hlt, Nat.add_mul_div_left _ _ (by omega), Nat.add_mul_mod_self_left,
      Nat.div_eq_of_lt hcol, Nat.mod_eq_of_lt hcol, Nat.zero_add]
  rw [(reduce_owned s rows columns ws).foldl_of_owner hnodup out hmem htarget, reduceThread,
    htarget]
  dsimp only
  rw [Function.update_self, List.sum_eq_foldl, List.foldl_map]

omit [AddCommMonoid V] in
theorem foldl_last {P : Type*} {l : List P} {f : P → V} {v x : V} (hne : l ≠ [])
    (h : ∀ p ∈ l, f p = v) : l.foldl (fun _ p => f p) x = v := by
  obtain rfl | ⟨l, p, rfl⟩ := List.eq_nil_or_concat l
  · exact absurd rfl hne
  · rw [List.concat_eq_append, List.foldl_append]
    exact h p (by simp)

/-- An element of the workspace to which all stores bring the same holds it. -/
theorem workspace_eq {stores : List (ℕ × TaggedStore V)} {key : List ℕ} {v : V}
    (hsome : ∃ p ∈ stores, p.2.slot columns p.1 = key)
    (hall : ∀ p ∈ stores, p.2.slot columns p.1 = key → p.2.value (partition s p.1 loop) = v) :
    workspace s columns loop stores key = v := by
  obtain ⟨p, hp, hkey⟩ := hsome
  refine (LoopNest.foldl_store (fun p : ℕ × TaggedStore V => p.2.slot columns p.1)
    (fun p _ => p.2.value (partition s p.1 loop)) stores _ key).trans ?_
  refine foldl_last (List.ne_nil_of_mem (List.mem_filter.2 ⟨hp, by simpa using hkey⟩)) ?_
  intro q hq
  obtain ⟨hq, hqkey⟩ := List.mem_filter.1 hq
  exact hall q hq (by simpa using hqkey)

variable {kernelLoop : KLoop}

theorem sum_slices (store : TaggedStore V)
    (h : ((range s).flatMap fun z => (partition s z kernelLoop).iterations).Perm
      kernelLoop.iterations) :
    ((range s).map fun z => store.value (partition s z kernelLoop)).sum =
      store.value kernelLoop := by
  have hsum := (h.map store.term).sum_eq
  rw [List.map_flatMap, List.flatMap_def, List.sum_flatten, map_map] at hsum
  exact hsum

/-- A store to the output, through subviews of it or through one cast. -/
structure TaggedStore.Valid (rows columns : ℕ) (store : TaggedStore V) : Prop where
  wellFormed : store.view.WellFormed
  length : store.indices.length = store.view.rank
  views : store.view.IsChain ∨ ∃ offset strides, store.view = .reinterpretCast offset strides
  inside : ∃ row < rows, ∃ col < columns, store.position columns = [row, col]

/-- The slices and the reduction compute what the one kernel did. -/
structure SplitsProduct (s rows columns : ℕ) (kernelLoop : KLoop) (stores : List (TaggedStore V)) :
    Prop where
  iterations : ((range s).flatMap fun z => (partition s z kernelLoop).iterations).Perm
    kernelLoop.iterations
  slots : ∀ store ∈ stores, ∀ z < s, store.slot columns z = z :: store.position columns
  separate : ∀ store ∈ stores, ∀ store' ∈ stores, ∀ z < s,
    store.slot columns z = store'.slot columns z →
      store.position columns = store'.position columns
  targets : (reduceGrid rows columns).filterMap (reduceTarget rows columns) =
    points [rows, columns]
  reduced : ∀ (ws out : List ℕ → V) (order : List ℕ), order.Perm (reduceGrid rows columns) →
    ∀ row < rows, ∀ col < columns, order.foldl (reduceThread s rows columns ws) out [row, col] =
      ((range s).map fun z => ws [z, row, col]).sum
  /-- whatever the order of the stores of all slices, where those to one element agree -/
  product : ∀ run : List (ℕ × TaggedStore V), run.Perm ((range s).product stores) →
    ∀ (out : List ℕ → V) (order : List ℕ), order.Perm (reduceGrid rows columns) → ∀ store ∈ stores,
      (∀ store' ∈ stores, store'.position columns = store.position columns →
        store'.term = store.term) →
      order.foldl (reduceThread s rows columns (workspace s columns kernelLoop run)) out
        (store.position columns) = store.value kernelLoop

omit [AddCommMonoid V] in
theorem slot_eq_iff {store : TaggedStore V} (h : store.Valid rows columns) (z : ℕ) :
    store.slot columns z = z :: store.position columns ↔
      store.view.Plain columns store.indices := by
  unfold TaggedStore.slot TaggedStore.position
  rw [List.cons.injEq, and_iff_right rfl]
  rcases h.views with hchain | ⟨offset, strides, hcast⟩
  · exact redirected_chain_iff h.wellFormed hchain h.length
  · obtain ⟨row, -, col, hcol, -⟩ := h.inside
    have hlength := h.length
    rw [hcast] at hlength ⊢
    exact redirected_cast_iff (Nat.zero_lt_of_lt hcol) hlength

theorem product_of {stores : List (TaggedStore V)}
    (hiterations : ((range s).flatMap fun z => (partition s z kernelLoop).iterations).Perm
      kernelLoop.iterations)
    (hslots : ∀ store ∈ stores, ∀ z < s, store.slot columns z = z :: store.position columns)
    {run : List (ℕ × TaggedStore V)} (hrun : run.Perm ((range s).product stores))
    (out : List ℕ → V) {order : List ℕ} (horder : order.Perm (reduceGrid rows columns))
    {store : TaggedStore V} (hstore : store ∈ stores) (hvalid : store.Valid rows columns)
    (hagree : ∀ store' ∈ stores, store'.position columns = store.position columns →
      store'.term = store.term) :
    order.foldl (reduceThread s rows columns (workspace s columns kernelLoop run)) out
      (store.position columns) = store.value kernelLoop := by
  obtain ⟨row, hrow, col, hcol, hposition⟩ := hvalid.inside
  rw [hposition, reduce_eq s _ out horder hrow hcol, ← sum_slices store hiterations]
  refine congrArg List.sum (List.map_congr_left fun z hz => ?_)
  have hmem : ∀ p : ℕ × TaggedStore V, p ∈ run ↔ p.1 < s ∧ p.2 ∈ stores := fun p => by
    rw [hrun.mem_iff, List.pair_mem_product, mem_range]
  refine workspace_eq ⟨(z, store), (hmem _).2 ⟨mem_range.1 hz, hstore⟩, ?_⟩ ?_
  · rw [hslots store hstore z (mem_range.1 hz), hposition]
  · rintro ⟨z', store'⟩ hp hkey
    obtain ⟨hz', hstore'⟩ := (hmem _).1 hp
    rw [hslots store' hstore' z' hz', ← hposition, List.cons.injEq] at hkey
    obtain ⟨rfl, hsame⟩ := hkey
    show store'.value _ = store.value _
    rw [TaggedStore.value, TaggedStore.value, hagree store' hstore' hsame]

/-- **Split-K computes the whole product if and only if** the K tile divides K and every store has
plain views. -/
theorem splits_product_iff (config : NvidiaMappingConfig) (m n k smCount : ℕ)
    (hsplit : 1 < computeSplitKFactor config m n k smCount) (stores : List (TaggedStore V))
    (hstores : ∀ store ∈ stores, store.Valid m n) :
    SplitsProduct (computeSplitKFactor config m n k smCount) m n (wholeLoop k config.kTile) stores ↔
      config.kTile ∣ k ∧ ∀ store ∈ stores, store.view.Plain n store.indices := by
  obtain ⟨hfour, htiles⟩ := computeSplitKFactor_spec hsplit
  have hstep : 0 < config.kTile := Nat.pos_of_ne_zero fun hzero => by
    rw [hzero, Nat.div_zero] at hfour
    omega
  constructor
  · intro h
    refine ⟨dvd_of_slices_perm hsplit hstep htiles hfour h.iterations, fun store hstore => ?_⟩
    exact (slot_eq_iff (hstores store hstore) 0).1 (h.slots store hstore 0 (by omega))
  · rintro ⟨hk, hplain⟩
    have hiterations := slices_perm hsplit hstep hk htiles
    have hslots : ∀ store ∈ stores, ∀ z < computeSplitKFactor config m n k smCount,
        store.slot n z = z :: store.position n := fun store hstore z _ =>
      (slot_eq_iff (hstores store hstore) z).2 (hplain store hstore)
    refine ⟨hiterations, hslots, ?_, reduce_targets m n, ?_, ?_⟩
    · intro store hstore store' hstore' z hz hsame
      rw [hslots store hstore z hz, hslots store' hstore' z hz] at hsame
      exact (List.cons.inj hsame).2
    · intro ws out order horder row hrow col hcol
      exact reduce_eq _ ws out horder hrow hcol
    · intro run hrun out order horder store hstore hagree
      exact product_of hiterations hslots hrun out horder hstore (hstores store hstore) hagree

end kernels

/-- Stores through two subviews and through a cast. -/
def plainStores : List (TaggedStore ℕ) :=
  [⟨.subView (.subView .output [⟨32, 1, false, by decide⟩, ⟨0, 1, false, by decide⟩])
      [⟨16, 1, false, by decide⟩, ⟨8, 1, false, by decide⟩], [3, 1], fun k => k + 1⟩,
    ⟨.reinterpretCast 136 [⟨64, true⟩, ⟨1, true⟩], [3, 1], fun k => 2 * k⟩]

theorem split_small : SplitsProduct 2 64 64 (wholeLoop 64 16) plainStores := by
  have hvalid : ∀ store ∈ plainStores, store.Valid 64 64 := by
    rintro store hstore
    simp only [plainStores, mem_cons, List.not_mem_nil, or_false] at hstore
    rcases hstore with rfl | rfl
    · exact ⟨⟨rfl, rfl, trivial⟩, rfl, .inl trivial, 51, by decide, 9, by decide, rfl⟩
    · exact ⟨trivial, rfl, .inr ⟨_, _, rfl⟩, 5, by decide, 9, by decide, rfl⟩
  have hplain : ∀ store ∈ plainStores, store.view.Plain 64 store.indices := by
    rintro store hstore
    simp only [plainStores, mem_cons, List.not_mem_nil, or_false] at hstore
    rcases hstore with rfl | rfl
    · refine ⟨by simp, by simp, by simp, ?_, trivial⟩
      simp [addOffsets]
    · exact cast_plain (by decide)
  exact (splits_product_iff ⟨64, 64, 16⟩ 64 64 64 24 (by decide) plainStores hvalid).2
    ⟨by decide, hplain⟩

/-- A store of the first row of a view with every second row of the output. -/
def stridedStore : TaggedStore ℕ :=
  ⟨.subView .output [⟨0, 2, false, by decide⟩, ⟨0, 1, false, by decide⟩], [1, 0], fun k => k⟩

/-- It goes to another row of the workspace, and with a tile that is cut off the second slice starts
at 18 where an iteration starts at 16. -/
theorem split_strays :
    computeSplitKFactor ⟨64, 64, 16⟩ 64 64 64 24 = 2 ∧ stridedStore.Valid 64 64 ∧
      stridedStore.position 64 = [2, 0] ∧ stridedStore.slot 64 0 = [0, 1, 0] ∧
      ¬ SplitsProduct 2 64 64 (wholeLoop 64 16) [stridedStore] ∧
    computeSplitKFactor ⟨64, 64, 8⟩ 64 64 36 24 = 2 ∧
      (wholeLoop 36 8).iterations = [0, 8, 16, 24, 32] ∧
      (partition 2 1 (wholeLoop 36 8)).iterations = [18, 26, 34] ∧
      ¬ SplitsProduct 2 64 64 (wholeLoop 36 8) ([] : List (TaggedStore ℕ)) := by
  refine ⟨by decide, ⟨⟨rfl, trivial⟩, rfl, .inl trivial, 2, by decide, 0, by decide, rfl⟩, rfl, rfl,
    fun h => ?_, by decide, by decide, by decide, fun h => ?_⟩
  · have hslot := h.slots stridedStore List.mem_cons_self 0 (by decide)
    exact absurd hslot (by decide)
  · have hlength := h.iterations.subset (show 18 ∈ _ by decide)
    exact absurd hlength (by decide)

end Matcore.Gpu.SplitK
