import Mathlib.Data.List.Induction
import Mathlib.Data.Nat.Prime.Basic
import Mathlib.Order.Fin.Basic
import Mathlib.Tactic.NormNum
import Mathlib.Tactic.Zify
import Matcore.Gpu.Mapping
import Matcore.Proof.SplitK

/-!
# When the mapping fits the product

The selected tiles are exact. The ids share out the iterations of a loop where its bounds allow it.
-/

namespace Matcore.Gpu.Mapping

open Function (update update_self update_of_ne)
open Engine (Signature)
open SplitK (pickTilingFactor ceilDiv computeSplitKFactor halveToDivisor pickTilingFactor_dvd)
open BitVec (toNat toNat_add toNat_udiv le_toInt toInt_lt ofInt ofInt_toInt toInt eq_of_toNat_eq
  ofNat lt_def)

/-- The tiles of a configuration cover the product exactly. -/
structure NvidiaMappingConfig.Exact (config : NvidiaMappingConfig) (m n k : ℕ) : Prop where
  tileM : config.blockTileM ∣ m
  tileN : config.blockTileN ∣ n
  tileK : config.kTile ∣ k
  mma : config.rewriteToMmaSync = true →
    16 ∣ config.blockTileM ∧ 8 ∣ config.blockTileN ∧ 16 ∣ config.kTile
  warps : config.rewriteToMmaSync = true → 1 < config.numWarps →
    ∃ warpsM warpsN, warpsM * config.warpTileM = config.blockTileM ∧
      warpsN * config.warpTileN = config.blockTileN ∧ warpsM * warpsN = config.numWarps
  threads : config.rewriteToMmaSync = false →
    config.threadTileM * config.blockThreadsY = config.blockTileM ∧
      config.threadTileN * config.blockThreadsX = config.blockTileN
  split : 1 < config.splitKFactor → config.splitKFactor ∣ k / config.kTile ∧
    2 ≤ k / config.kTile / config.splitKFactor
  slices : ∀ tile < k / config.kTile, ∃! slice, slice < config.splitKFactor ∧
    slice * (k / config.kTile / config.splitKFactor) ≤ tile ∧
    tile < (slice + 1) * (k / config.kTile / config.splitKFactor)

def NvidiaMappingConfig.blockThreads (config : NvidiaMappingConfig) : ℕ :=
  config.blockThreadsX * config.blockThreadsY * config.blockThreadsZ

/-- How many threads share out the block tile of a dimension. -/
def threadsAlong (size thread : ℕ) : ℕ :=
  let tile := if size ≤ 128 then size else size.gcd 128
  if tile ≤ thread then 1 else tile / tile.gcd thread

variable {dim : ℕ}

theorem halveToDivisor_two_pow (j : ℕ) : halveToDivisor dim (2 ^ j) = dim.gcd (2 ^ j) := by
  induction j with
  | zero => rw [halveToDivisor, if_neg (by simp), pow_zero, Nat.gcd_one_right]
  | succ j ih =>
    rw [halveToDivisor]
    split_ifs with hhalve
    · have hhalf : 2 ^ (j + 1) / 2 = 2 ^ j := by
        rw [pow_succ, Nat.mul_div_cancel _ two_pos]
      rw [hhalf, ih]
      obtain ⟨i, hi, hgcd⟩ := (Nat.dvd_prime_pow Nat.prime_two).1 (dim.gcd_dvd_right (2 ^ (j + 1)))
      -- The divisor is not the whole power, which does not divide the dimension.
      have hlt : i ≠ j + 1 := by
        rintro rfl
        exact hhalve.2 (Nat.mod_eq_zero_of_dvd (hgcd ▸ dim.gcd_dvd_left _))
      refine Nat.dvd_antisymm (Nat.gcd_dvd_gcd_of_dvd_right _ (pow_dvd_pow 2 j.le_succ)) ?_
      refine Nat.dvd_gcd (dim.gcd_dvd_left _) ?_
      rw [hgcd]
      exact pow_dvd_pow 2 (by omega)
    · have hone : 1 < 2 ^ (j + 1) := Nat.one_lt_two_pow j.succ_ne_zero
      have hdvd : 2 ^ (j + 1) ∣ dim := by
        by_contra hnot
        exact hhalve ⟨hone, fun hmod => hnot (Nat.dvd_of_mod_eq_zero hmod)⟩
      exact (Nat.gcd_eq_right hdvd).symm

/-- The tile is the whole dimension, or the largest power of two that divides it. -/
theorem pickTilingFactor_two_pow (j : ℕ) (hdim : 0 < dim) :
    pickTilingFactor dim (2 ^ j) = if dim ≤ 2 ^ j then dim else dim.gcd (2 ^ j) := by
  have hpow : 0 < 2 ^ j := pow_pos two_pos j
  unfold pickTilingFactor
  rw [if_neg hpow.ne', if_neg hdim.ne']
  split_ifs with hle
  · rw [min_eq_left hle, halveToDivisor, if_neg (by simp), max_eq_left hdim]
  · rw [min_eq_right (by omega), halveToDivisor_two_pow, max_eq_left]
    exact Nat.gcd_pos_of_pos_left _ hdim

theorem dvd_pickTilingFactor {unit : ℕ} {j : ℕ} (hdim : 0 < dim) (h : unit ∣ dim)
    (hpow : unit ∣ 2 ^ j) : unit ∣ pickTilingFactor dim (2 ^ j) := by
  rw [pickTilingFactor_two_pow j hdim]
  split_ifs
  · exact h
  · exact Nat.dvd_gcd h hpow

variable {preferred : ℕ}

theorem pickTilingFactor_pos (hdim : 0 < dim) :
    0 < pickTilingFactor dim preferred :=
  Nat.pos_of_dvd_of_pos (pickTilingFactor_dvd hdim) hdim

theorem largestDivisorBelow_le (kTiles split : ℕ) :
    SplitK.largestDivisorBelow kTiles split ≤ split := by
  induction split with
  | zero => rfl
  | succ split ih =>
    rw [SplitK.largestDivisorBelow]
    split_ifs
    · omega
    · rfl

theorem two_le_slice {config : SplitK.NvidiaMappingConfig} {m n k smCount : ℕ}
    (h : 1 < computeSplitKFactor config m n k smCount) :
    2 ≤ k / config.kTile / computeSplitKFactor config m n k smCount := by
  have hle : computeSplitKFactor config m n k smCount ≤ k / config.kTile / 2 := by
    unfold computeSplitKFactor at h ⊢
    dsimp only at h ⊢
    have hbelow := largestDivisorBelow_le (k / config.kTile)
    split_ifs at h ⊢ with hfew hsmall htwo htwo
    · omega
    · exact (hbelow _).trans (min_le_right _ _)
    · omega
    · exact (hbelow _).trans ((min_le_right _ _).trans (by omega))
    · omega
  rw [Nat.le_div_iff_mul_le (by omega)]
  omega

variable {tile : ℕ}

theorem exists_slice {factor kTiles : ℕ} (hdvd : factor ∣ kTiles) (htile : tile < kTiles) :
    ∃! slice, slice < factor ∧ slice * (kTiles / factor) ≤ tile ∧
      tile < (slice + 1) * (kTiles / factor) := by
  obtain ⟨size, rfl⟩ := hdvd
  have hfactor : 0 < factor := Nat.pos_of_ne_zero fun h => by simp [h] at htile
  have hsize : 0 < size := Nat.pos_of_ne_zero fun h => by simp [h] at htile
  rw [Nat.mul_div_cancel_left _ hfactor]
  refine ⟨tile / size, ⟨?_, Nat.div_mul_le_self _ _, ?_⟩, ?_⟩
  · rwa [Nat.div_lt_iff_lt_mul hsize]
  · exact Nat.lt_mul_of_div_lt (Nat.lt_succ_self _) hsize
  · rintro slice ⟨-, hle, hlt⟩
    have hlower : slice ≤ tile / size := (Nat.le_div_iff_mul_le hsize).2 hle
    have hupper : tile / size < slice + 1 := (Nat.div_lt_iff_lt_mul hsize).2 hlt
    omega

theorem exact_unsplit {config : NvidiaMappingConfig} {kTiles : ℕ} (h : config.splitKFactor = 1)
    (htile : tile < kTiles) :
    ∃! slice, slice < config.splitKFactor ∧ slice * (kTiles / config.splitKFactor) ≤ tile ∧
      tile < (slice + 1) * (kTiles / config.splitKFactor) := by
  rw [h]
  exact exists_slice (one_dvd _) htile

variable {m n k : ℕ}

theorem multiWarp_exact {warps threadsX threadsY : ℕ} (hk : 0 < k) (hm : tile ∣ m) (hn : tile ∣ n)
    (hk16 : 16 ∣ k) (htile : 16 ∣ tile) (hwarps : ∃ side, side * 32 = tile ∧ side * side = warps) :
    (multiWarp tile warps threadsX threadsY m n k).Exact m n k where
  tileM := hm
  tileN := hn
  tileK := (pickTilingFactor_dvd hk : pickTilingFactor k 32 ∣ k)
  mma _ := ⟨htile, (by decide : 8 ∣ 16).trans htile,
    dvd_pickTilingFactor (j := 5) hk hk16 (by decide)⟩
  warps _ _ := by
    obtain ⟨side, hside, hsquare⟩ := hwarps
    exact ⟨side, side, hside, hside, hsquare⟩
  threads hfalse := by cases hfalse
  split hsplit := ⟨(SplitK.computeSplitKFactor_spec hsplit).2, two_le_slice hsplit⟩
  slices t ht := by
    refine exists_slice ?_ ht
    by_cases hsplit : 1 < (multiWarp tile warps threadsX threadsY m n k).splitKFactor
    · exact (SplitK.computeSplitKFactor_spec hsplit).2
    · have hone : (multiWarp tile warps threadsX threadsY m n k).splitKFactor = 1 := by
        revert hsplit
        simp only [multiWarp, computeSplitKFactor]
        split_ifs <;> omega
      rw [hone]
      exact one_dvd _

theorem singleWarpTiles_spec (hm : 0 < m) (hn : 0 < n) (hm16 : 16 ∣ m) (hn8 : 8 ∣ n) :
    (16 ∣ (singleWarpTiles m n).1 ∧ (singleWarpTiles m n).1 ∣ m) ∧
      8 ∣ (singleWarpTiles m n).2 ∧ (singleWarpTiles m n).2 ∣ n := by
  have hcandidate : ∀ j, 16 ∣ 2 ^ j →
      (16 ∣ pickTilingFactor m (2 ^ j) ∧ pickTilingFactor m (2 ^ j) ∣ m) ∧
        8 ∣ pickTilingFactor n (2 ^ j) ∧ pickTilingFactor n (2 ^ j) ∣ n := by
    intro j hj
    exact ⟨⟨dvd_pickTilingFactor hm hm16 hj, pickTilingFactor_dvd hm⟩,
      dvd_pickTilingFactor hn hn8 ((by decide : 8 ∣ 16).trans hj), pickTilingFactor_dvd hn⟩
  unfold singleWarpTiles
  dsimp only
  generalize hfind : List.find? _ _ = found
  cases found with
  | none => exact ⟨⟨dvd_rfl, hm16⟩, dvd_rfl, hn8⟩
  | some tiles =>
    have hmem := List.mem_of_find?_eq_some hfind
    rw [List.mem_map] at hmem
    obtain ⟨c, hc, rfl⟩ := hmem
    simp only [List.mem_cons, List.not_mem_nil, or_false] at hc
    rcases hc with rfl | rfl
    · exact hcandidate 6 (by decide)
    · exact hcandidate 5 (by decide)

theorem singleWarp_exact (hm : 0 < m) (hn : 0 < n) (hk : 0 < k) (hm16 : 16 ∣ m) (hn8 : 8 ∣ n)
    (hk16 : 16 ∣ k) : (singleWarp m n k).Exact m n k := by
  obtain ⟨⟨h16, hdvdM⟩, h8, hdvdN⟩ := singleWarpTiles_spec hm hn hm16 hn8
  have hkTile : 16 ∣ (singleWarp m n k).kTile ∧ (singleWarp m n k).kTile ∣ k := by
    dsimp only [singleWarp]
    split_ifs
    · exact ⟨dvd_pickTilingFactor (j := 5) hk hk16 (by decide), pickTilingFactor_dvd hk⟩
    · exact ⟨dvd_rfl, hk16⟩
  exact {
    tileM := hdvdM
    tileN := hdvdN
    tileK := hkTile.2
    mma := fun _ => ⟨h16, h8, hkTile.1⟩
    warps := fun _ hwarps => absurd hwarps (lt_irrefl 1)
    threads := fun hfalse => by cases hfalse
    split := fun hsplit => absurd hsplit (lt_irrefl 1)
    slices := fun _ htile => exact_unsplit rfl htile }

theorem thread_mul_ceilDiv (htile : 0 < tile) :
    max 1 (pickTilingFactor tile preferred) *
        max 1 (ceilDiv tile (max 1 (pickTilingFactor tile preferred))) = tile ∧
      max 1 (ceilDiv tile (max 1 (pickTilingFactor tile preferred))) =
        tile / pickTilingFactor tile preferred := by
  have hpos : 0 < pickTilingFactor tile preferred := pickTilingFactor_pos htile
  have hdvd : pickTilingFactor tile preferred ∣ tile := pickTilingFactor_dvd htile
  rw [max_eq_right hpos]
  generalize pickTilingFactor tile preferred = thread at hpos hdvd
  obtain ⟨count, rfl⟩ := hdvd
  have hcount : 0 < count := Nat.pos_of_mul_pos_left htile
  have hceil : ceilDiv (thread * count) thread = count := by
    unfold ceilDiv
    rw [if_neg (by omega), Nat.add_sub_assoc hpos, Nat.mul_add_div hpos,
      Nat.div_eq_of_lt (by omega), Nat.add_zero]
  rw [hceil, max_eq_right hcount, Nat.mul_div_cancel_left _ hpos]
  exact ⟨rfl, rfl⟩

theorem scalar_exact {signature : Signature} (hm : 0 < m) (hn : 0 < n) (hk : 0 < k) :
    (scalar m n k signature).Exact m n k where
  tileM := (pickTilingFactor_dvd hm : pickTilingFactor m 128 ∣ m)
  tileN := (pickTilingFactor_dvd hn : pickTilingFactor n 128 ∣ n)
  tileK := (pickTilingFactor_dvd hk : pickTilingFactor k _ ∣ k)
  mma htrue := by cases htrue
  warps htrue := by cases htrue
  threads _ := ⟨(thread_mul_ceilDiv (pickTilingFactor_pos hm)).1,
    (thread_mul_ceilDiv (pickTilingFactor_pos hn)).1⟩
  split hsplit := absurd hsplit (lt_irrefl 1)
  slices _ htile := exact_unsplit rfl htile

theorem scalar_threads {size j : ℕ} (hsize : 0 < size) :
    pickTilingFactor size 128 / pickTilingFactor (pickTilingFactor size 128) (2 ^ j) =
      threadsAlong size (2 ^ j) := by
  have htile : pickTilingFactor size 128 = if size ≤ 128 then size else size.gcd 128 :=
    pickTilingFactor_two_pow 7 hsize
  rw [pickTilingFactor_two_pow j (pickTilingFactor_pos hsize)]
  unfold threadsAlong
  dsimp only
  rw [← htile]
  have hpos : 0 < pickTilingFactor size 128 := pickTilingFactor_pos hsize
  split_ifs
  · exact Nat.div_self hpos
  · rfl

/-- **The selected tiles are exact**, for every product of static matrices. A block has at most 1024
threads if and only if the product is for tensor cores or few threads share out its block tile. -/
theorem select_iff (m n k : ℕ) (rows : Option ℕ) (signature : Signature) (hm : 0 < m) (hn : 0 < n)
    (hk : 0 < k) :
    let config := SelectNvidiaMappingConfig [some [some m, some k], some [rows, some n]] signature
    config.Exact m n k ∧ (config.blockThreads ≤ 1024 ↔
      staticallyCompatibleMma m n k signature = true ∨
        threadsAlong n 8 * threadsAlong m 16 ≤ 1024) := by
  intro config
  have hconfig : config = SelectNvidiaMappingConfig _ signature := rfl
  unfold SelectNvidiaMappingConfig at hconfig
  by_cases hmma : staticallyCompatibleMma m n k signature = true
  · rw [hconfig]
    simp only [dimSize, List.getElem?_cons_zero, List.getElem?_cons_succ, Option.join_some,
      if_true, one_ne_zero, if_false, Option.getD_some, hmma, true_or, iff_true]
    simp only [staticallyCompatibleMma, Bool.and_eq_true, decide_eq_true_eq] at hmma
    obtain ⟨⟨⟨-, hm16⟩, hn8⟩, hk16⟩ := hmma.1
    have hm16 := Nat.dvd_of_mod_eq_zero hm16
    have hn8 := Nat.dvd_of_mod_eq_zero hn8
    have hk16 := Nat.dvd_of_mod_eq_zero hk16
    split_ifs with h128 h64
    · simp only [Bool.and_eq_true, decide_eq_true_eq] at h128
      obtain ⟨⟨-, hm128⟩, hn128⟩ := h128.1
      exact ⟨multiWarp_exact hk (Nat.dvd_of_mod_eq_zero hm128) (Nat.dvd_of_mod_eq_zero hn128)
        hk16 (by decide) ⟨4, rfl, rfl⟩, (by decide : 128 * 4 * 1 ≤ 1024)⟩
    · simp only [Bool.and_eq_true, decide_eq_true_eq] at h64
      obtain ⟨⟨-, hm64⟩, hn64⟩ := h64.1
      exact ⟨multiWarp_exact hk (Nat.dvd_of_mod_eq_zero hm64) (Nat.dvd_of_mod_eq_zero hn64)
        hk16 (by decide) ⟨2, rfl, rfl⟩, (by decide : 64 * 2 * 1 ≤ 1024)⟩
    · exact ⟨singleWarp_exact hm hn hk hm16 hn8 hk16, (by decide : 32 * 1 * 1 ≤ 1024)⟩
  · rw [hconfig]
    simp only [dimSize, List.getElem?_cons_zero, List.getElem?_cons_succ, Option.join_some,
      if_true, one_ne_zero, if_false, Option.getD_some, hmma, false_or, Bool.false_eq_true]
    refine ⟨scalar_exact hm hn hk, ?_⟩
    have hthreads : (scalar m n k signature).blockThreads =
        threadsAlong n 8 * threadsAlong m 16 := by
      simp only [NvidiaMappingConfig.blockThreads, scalar, Nat.mul_one]
      rw [(thread_mul_ceilDiv (pickTilingFactor_pos hm)).2,
        (thread_mul_ceilDiv (pickTilingFactor_pos hn)).2]
      exact congrArg₂ (· * ·) (scalar_threads (j := 3) hn) (scalar_threads (j := 4) hm)
    rw [hthreads]

/-- A product of single precision matrices. -/
def squareSignature : Signature where
  lhsDtype := .float32
  rhsDtype := .float32
  outDtype := .float32

theorem select_square :
    let config := SelectNvidiaMappingConfig [some [some 256, some 48], some [some 48, some 96]]
      squareSignature
    config.Exact 256 96 48 ∧ (config.blockThreads ≤ 1024 ↔
      staticallyCompatibleMma 256 96 48 squareSignature = true ∨
        threadsAlong 96 8 * threadsAlong 256 16 ≤ 1024) :=
  select_iff 256 96 48 (some 48) squareSignature (by decide) (by decide) (by decide)

/-- A prime below 128 is a block tile of single elements. -/
theorem select_prime_threads :
    ¬ ∀ m n k (signature : Signature), 0 < m → 0 < n → 0 < k →
      (SelectNvidiaMappingConfig [some [some m, some k], some [some k, some n]]
        signature).blockThreads ≤ 1024 := by
  intro h
  have hiff := (select_iff 127 127 127 (some 127) squareSignature (by decide) (by decide)
    (by decide)).2
  exact absurd (hiff.1 (h 127 127 127 squareSignature (by decide) (by decide) (by decide)))
    (by decide)

namespace LoopDim

/-- How many iterations there are along a dimension. -/
def count (d : LoopDim) : ℕ :=
  ((d.upper.value.toInt - d.lower.value.toInt + d.step.value.toInt - 1) /
    d.step.value.toInt).toNat

/-- The value of the induction variable for an id. -/
def at' (d : LoopDim) (i : Index) : Index := d.lower.value + i * d.step.value

variable {d : LoopDim}

theorem lt_count :
    k < d.count ↔ d.lower.value.toInt + k * d.step.value.toInt < d.upper.value.toInt := by
  have hstep := d.step_pos
  have hle : (k : ℤ) + 1 ≤ (d.upper.value.toInt - d.lower.value.toInt + d.step.value.toInt - 1) /
      d.step.value.toInt ↔ ((k : ℤ) + 1) * d.step.value.toInt ≤
        d.upper.value.toInt - d.lower.value.toInt + d.step.value.toInt - 1 :=
    Int.le_ediv_iff_mul_le hstep
  unfold count
  rw [add_mul, one_mul] at hle
  omega

theorem count_pos : 0 < d.count ↔ d.lower.value.toInt < d.upper.value.toInt := by
  rw [lt_count]
  simp

theorem toNat_difference (h : d.lower.value.toInt ≤ d.upper.value.toInt) :
    ((d.upper.value - d.lower.value).toNat : ℤ) =
      d.upper.value.toInt - d.lower.value.toInt := by
  rw [BitVec.toNat_sub]
  simp only [BitVec.toInt_eq_toNat_cond] at h ⊢
  split_ifs at h ⊢ <;> omega

theorem toNat_of_pos {x : Index} (h : 0 < x.toInt) : (x.toNat : ℤ) = x.toInt := by
  simp only [BitVec.toInt_eq_toNat_cond] at h ⊢
  split_ifs at h ⊢ <;> omega

theorem bounds_ne (h : 0 < d.count) : d.lower.value ≠ d.upper.value := fun heq =>
  absurd (count_pos.1 h) (heq ▸ lt_irrefl _)

theorem tripCount_eq_zero : d.tripCount = 0 ↔ d.lower.value = d.upper.value := by
  unfold tripCount buildCeilDivIndex
  constructor
  · intro h
    by_contra hbounds
    have hne : d.upper.value - d.lower.value ≠ 0 := fun hzero => hbounds (by bv_omega)
    have hlt : (d.upper.value - d.lower.value - 1).toNat / d.step.value.toNat < 2 ^ 64 - 1 := by
      refine lt_of_le_of_lt (Nat.div_le_self _ _) ?_
      bv_omega
    rw [if_neg hne] at h
    have hnat := congrArg toNat h
    rw [toNat_add, toNat_udiv] at hnat
    generalize (d.upper.value - d.lower.value - 1).toNat / d.step.value.toNat = q at hlt hnat
    simp at hnat
    omega
  · intro h
    exact if_pos (by rw [h, BitVec.sub_self]; rfl)

theorem toNat_tripCount (h : d.lower.value.toInt < d.upper.value.toInt) :
    d.tripCount.toNat = d.count := by
  have hdifference := toNat_difference h.le
  have hpos := d.step_pos
  have hstep := toNat_of_pos hpos
  have hne : d.upper.value - d.lower.value ≠ 0 := fun hzero => by
    rw [hzero] at hdifference
    simp at hdifference
    omega
  refine eq_of_forall_lt_iff fun k => ?_
  rw [lt_count]
  unfold tripCount buildCeilDivIndex
  rw [if_neg hne]
  generalize d.upper.value - d.lower.value = x at hdifference hne
  have hx : 0 < x.toNat := by omega
  have hpred : (x - 1).toNat = x.toNat - 1 := by bv_omega
  have hquotient : (x.toNat - 1) / d.step.value.toNat ≤ x.toNat - 1 := Nat.div_le_self _ _
  have hsum : ((x - 1) / d.step.value + 1).toNat = (x.toNat - 1) / d.step.value.toNat + 1 := by
    rw [toNat_add, toNat_udiv, hpred]
    simp
    omega
  have hle : k ≤ (x.toNat - 1) / d.step.value.toNat ↔ k * d.step.value.toNat ≤ x.toNat - 1 :=
    Nat.le_div_iff_mul_le (by omega)
  rw [hsum, Nat.lt_succ_iff, hle, ← hstep]
  zify [hx]
  omega

variable {i : Index}

theorem toInt_at (h : i.toNat < d.count) :
    (d.at' i).toInt = d.lower.value.toInt + i.toNat * d.step.value.toInt := by
  have hlower := le_toInt d.lower.value
  have hupper := toInt_lt (x := d.upper.value)
  have hlt := lt_count.1 h
  have hmul : 0 ≤ (i.toNat : ℤ) * d.step.value.toInt :=
    mul_nonneg (Int.natCast_nonneg _) d.step_pos.le
  have heq : d.at' i = ofInt 64 (d.lower.value.toInt + i.toNat * d.step.value.toInt) := by
    rw [BitVec.ofInt_add, BitVec.ofInt_mul, ofInt_toInt, ofInt_toInt,
      BitVec.ofInt_natCast, BitVec.ofNat_toNat, BitVec.setWidth_eq]
    rfl
  rw [heq, BitVec.toInt_ofInt_eq_self (by decide)]
  · norm_num at hlower ⊢
    omega
  · norm_num at hupper ⊢
    omega

theorem inRange_at (h : i.toNat < d.count) : d.InRange (d.at' i) :=
  ⟨i.toNat, toInt_at h, by rw [toInt_at h]; exact lt_count.1 h⟩

theorem at_inj {j : Index} (hi : i.toNat < d.count) (hj : j.toNat < d.count) (h : d.at' i = d.at' j) :
    i = j := by
  have hint := congrArg toInt h
  rw [toInt_at hi, toInt_at hj, add_right_inj] at hint
  exact eq_of_toNat_eq (by exact_mod_cast mul_right_cancel₀ d.step_pos.ne' hint)

theorem lt_of_lt_count (h : k < d.count) : k < 2 ^ 64 := by
  have hlt := lt_count.1 h
  have hlower := le_toInt d.lower.value
  have hupper := toInt_lt (x := d.upper.value)
  have hmul : (k : ℤ) ≤ k * d.step.value.toInt :=
    le_mul_of_one_le_right (Int.natCast_nonneg _) d.step_pos
  norm_num at hlower hupper
  omega

theorem InRange.exists_at {index : Index} (h : d.InRange index) :
    ∃ i : Index, i.toNat < d.count ∧ d.at' i = index := by
  obtain ⟨k, hk, hlt⟩ := h
  have hcount : k < d.count := lt_count.2 (hk ▸ hlt)
  have hnat : (ofNat 64 k).toNat = k := Nat.mod_eq_of_lt (lt_of_lt_count hcount)
  refine ⟨ofNat 64 k, by rwa [hnat], BitVec.eq_of_toInt_eq ?_⟩
  rw [toInt_at (by rwa [hnat]), hnat, hk]

theorem InRange.lt {index : Index} (h : d.InRange index) :
    d.lower.value.toInt < d.upper.value.toInt := by
  obtain ⟨i, hi, -⟩ := h.exists_at
  exact count_pos.1 (Nat.zero_lt_of_lt hi)

end LoopDim

namespace LoweredLoop

variable {rank : ℕ} {l : LoweredLoop rank}

/-- Dimensions along one axis have a single iteration each. -/
def Separate (dims : Fin rank → LoopDim) (axis : Fin rank → Fin 3) : Prop :=
  ∀ d e, d ≠ e → axis d = axis e → (dims d).count = 1

/-- Along each axis in use, some dimension has every id that runs among its iterations. -/
def Bounded (l : LoweredLoop rank) : Prop :=
  ∀ d, ∃ e, l.axis e = l.axis d ∧ ∀ id, l.Runs id → (id (l.axis e)).toNat < (l.dims e).count

theorem at_zero_ne (d : LoopDim) : d.at' 0 ≠ d.at' 1 := by
  intro h
  have hstep : d.step.value = 0 := by simpa [LoopDim.at'] using h.symm
  have hpos := d.step_pos
  rw [hstep] at hpos
  exact absurd hpos (by decide)

/-- The first iteration but for one dimension, which is in its iteration `k`. -/
def iteration (l : LoweredLoop rank) (d : Fin rank) (k : Index) : Fin rank → Index :=
  fun e => (l.dims e).at' (if e = d then k else 0)

theorem iteration_inRange (hne : ∀ d, 0 < (l.dims d).count) {d : Fin rank} {k : Index}
    (hk : k.toNat < (l.dims d).count) : ∀ e, (l.dims e).InRange (l.iteration d k e) := by
  intro e
  unfold iteration
  by_cases he : e = d
  · rw [if_pos he]
    exact LoopDim.inRange_at (he ▸ hk)
  · rw [if_neg he]
    exact LoopDim.inRange_at (hne e)

theorem Preserves.separate (h : l.Preserves) (hne : ∀ d, 0 < (l.dims d).count)
    (hbounded : l.Bounded) : Separate l.dims l.axis := by
  -- A dimension beside the one that bounds the ids of its axis: both have one iteration.
  have hbeside : ∀ c d, d ≠ c → l.axis d = l.axis c →
      (∀ id, l.Runs id → (id (l.axis c)).toNat < (l.dims c).count) →
      (l.dims c).count = 1 ∧ (l.dims d).count = 1 := by
    intro c d hdc haxis hruns
    have hc : (l.dims c).count = 1 := by
      by_contra hmany
      have hone : 1 < (l.dims c).count := by have := hne c; omega
      obtain ⟨id, ⟨hrun, hindex⟩, -⟩ := h.1 _ (iteration_inRange (k := 1) hne hone)
      have hidc : id (l.axis c) = 1 := by
        refine LoopDim.at_inj (hruns id hrun) hone ?_
        have := congrFun hindex c
        unfold iteration at this
        rwa [if_pos rfl] at this
      have hd := congrFun hindex d
      unfold iteration at hd
      rw [if_neg hdc] at hd
      refine at_zero_ne (l.dims d) (hd.symm.trans ?_)
      exact congrArg (l.dims d).at' (by rw [haxis, hidc])
    refine ⟨hc, ?_⟩
    by_contra hmany
    have hone : 1 < (l.dims d).count := by have := hne d; omega
    obtain ⟨id, ⟨hrun, hindex⟩, -⟩ := h.1 _ (iteration_inRange (k := 1) hne hone)
    have hidc : id (l.axis c) = 0 := by
      have := hruns id hrun
      rw [hc] at this
      exact eq_of_toNat_eq (by simpa using this)
    have hd := congrFun hindex d
    unfold iteration at hd
    rw [if_pos rfl] at hd
    refine at_zero_ne (l.dims d) (Eq.trans ?_ hd)
    exact congrArg (l.dims d).at' (by rw [haxis, hidc])
  intro d e hde haxis
  obtain ⟨c, hc, hruns⟩ := hbounded d
  by_cases hdc : d = c
  · exact hdc ▸ (hbeside c e (fun hec => hde (hdc.trans hec.symm)) (haxis.symm.trans hc.symm)
      hruns).1
  · exact (hbeside c d hdc hc.symm hruns).2

/-- **The iterations are shared out among the ids** of a loop that is not empty if and only if there
are ids enough along every axis, only one along those not in use, and no axis is taken twice. -/
theorem fits_iff (hne : ∀ d, 0 < (l.dims d).count) (hbounded : l.Bounded) :
    l.Preserves ↔ (∀ d, (l.dims d).count ≤ (l.size (l.axis d)).toNat) ∧
      Separate l.dims l.axis ∧ ∀ r, (∀ d, l.axis d ≠ r) → l.size r = 1 := by
  constructor
  · intro h
    have hseparate := h.separate hne hbounded
    -- the thread that runs the first iteration
    obtain ⟨id, ⟨hrun, hindex⟩, hunique⟩ :=
      h.1 (fun d => (l.dims d).at' 0) fun d => LoopDim.inRange_at (hne d)
    refine ⟨fun d => ?_, hseparate, fun r hr => ?_⟩
    · obtain ⟨c, hc, hruns⟩ := hbounded d
      by_cases hcd : c = d
      · subst hcd
        have hlast : (l.dims c).count - 1 < (l.dims c).count := by have := hne c; omega
        have hk : (ofNat 64 ((l.dims c).count - 1)).toNat = (l.dims c).count - 1 :=
          Nat.mod_eq_of_lt (LoopDim.lt_of_lt_count hlast)
        obtain ⟨id, ⟨hrun, hindex⟩, -⟩ := h.1 _ (iteration_inRange hne (hk.trans_lt hlast))
        have hat := congrFun hindex c
        unfold iteration at hat
        rw [if_pos rfl] at hat
        have hid := LoopDim.at_inj (hruns id hrun) (hk.trans_lt hlast) hat
        have hlt := lt_def.1 (hrun.1 (l.axis c))
        rw [hid, hk] at hlt
        omega
      · have hlt := lt_def.1 (hrun.1 (l.axis d))
        rw [hseparate d c (Ne.symm hcd) hc.symm]
        omega
    · -- A second id along an axis without a dimension.
      by_contra hsize
      have hlt := lt_def.1 (hrun.1 r)
      obtain ⟨other, hother, hdiffers⟩ : ∃ other, other < l.size r ∧ other ≠ id r := by
        by_cases hzero : id r = 0
        · exact ⟨1, by bv_omega, by rw [hzero]; decide⟩
        · exact ⟨0, by bv_omega, fun h => hzero h.symm⟩
      have hrun' : l.Runs (update id r other) := by
        refine ⟨fun s => ?_, fun d hd => ?_⟩
        · by_cases hs : s = r
          · subst hs
            rwa [update_self]
          · rw [update_of_ne hs]
            exact hrun.1 s
        · rw [update_of_ne (hr d)]
          exact hrun.2 d hd
      have hindex' : l.index (update id r other) = fun d => (l.dims d).at' 0 := by
        funext d
        unfold index
        rw [update_of_ne (hr d)]
        exact congrFun hindex d
      have hsame := congrFun (hunique _ ⟨hrun', hindex'⟩) r
      rw [update_self] at hsame
      exact hdiffers hsame
  · rintro ⟨hsize, hseparate, hunused⟩
    have hids : ∀ id, l.Runs id → ∀ d, (id (l.axis d)).toNat < (l.dims d).count := by
      intro id hrun d
      obtain ⟨c, hc, hruns⟩ := hbounded d
      have hlt := hruns id hrun
      by_cases hcd : c = d
      · exact hcd ▸ hlt
      · rw [hc, hseparate c d hcd hc] at hlt
        rwa [hseparate d c (Ne.symm hcd) hc.symm]
    refine ⟨fun index hindex => ?_, fun id hrun d => LoopDim.inRange_at (hids id hrun d)⟩
    -- the ids are the numbers of the iterations along their axes
    choose i hi hat using fun d => (hindex d).exists_at
    have hsame : ∀ d e, l.axis d = l.axis e → i d = i e := by
      intro d e haxis
      by_cases hde : d = e
      · rw [hde]
      · have hd := hi d
        have he := hi e
        rw [hseparate d e hde haxis] at hd
        rw [hseparate e d (Ne.symm hde) haxis.symm] at he
        exact eq_of_toNat_eq (by omega)
    let id : Fin 3 → Index := fun r => if h : ∃ d, l.axis d = r then i h.choose else 0
    have hid : ∀ d, id (l.axis d) = i d := by
      intro d
      have hex : ∃ e, l.axis e = l.axis d := ⟨d, rfl⟩
      exact (dif_pos hex).trans (hsame _ _ hex.choose_spec)
    have hrun : l.Runs id := by
      refine ⟨fun r => ?_, fun d _ => ?_⟩
      · by_cases hr : ∃ d, l.axis d = r
        · obtain ⟨d, rfl⟩ := hr
          rw [hid, lt_def]
          exact (hi d).trans_le (hsize d)
        · rw [hunused r fun d hd => hr ⟨d, hd⟩]
          have hzero : id r = 0 := dif_neg hr
          rw [hzero]
          decide
      · rw [hid, lt_def, LoopDim.toNat_tripCount (LoopDim.count_pos.1 (hne d))]
        exact hi d
    refine ⟨id, ⟨hrun, funext fun d => ?_⟩, ?_⟩
    · unfold LoweredLoop.index
      rw [hid]
      exact hat d
    · rintro id' ⟨hrun', hindex'⟩
      funext r
      by_cases hr : ∃ d, l.axis d = r
      · obtain ⟨d, rfl⟩ := hr
        rw [hid]
        exact LoopDim.at_inj (hids id' hrun' d) (hi d) ((congrFun hindex' d).trans (hat d).symm)
      · have hone : l.size r = 1 := hunused r fun d hd => hr ⟨d, hd⟩
        have hlt := hrun.1 r
        have hlt' := hrun'.1 r
        rw [hone] at hlt hlt'
        bv_omega

/-- **A loop without iterations** is preserved where no id runs. -/
theorem preserves_iff_of_empty (h : ¬ ∀ d, 0 < (l.dims d).count) :
    l.Preserves ↔ (∃ r, l.size r = 0) ∨
      ∃ d, l.checked d = true ∧ (l.dims d).lower.value = (l.dims d).upper.value := by
  obtain ⟨empty, hempty⟩ := not_forall.1 h
  have hnone : ∀ index, ¬ (l.dims empty).InRange index :=
    fun index hindex => hempty (LoopDim.count_pos.2 hindex.lt)
  constructor
  · intro hpreserves
    by_contra hruns
    rw [not_or, not_exists, not_exists] at hruns
    refine hnone _ (hpreserves.2 0 ⟨fun r => ?_, fun d hd => ?_⟩ empty)
    · have hsize := hruns.1 r
      change 0 < l.size r
      bv_omega
    · have htrip : (l.dims d).tripCount ≠ 0 :=
        fun hzero => hruns.2 d ⟨hd, LoopDim.tripCount_eq_zero.1 hzero⟩
      change 0 < (l.dims d).tripCount
      bv_omega
  · intro hsome
    refine ⟨fun index hindex => absurd (hindex empty) (hnone _), fun id hrun => ?_⟩
    rcases hsome with ⟨r, hr⟩ | ⟨d, hd, hbounds⟩
    · have hlt := hrun.1 r
      rw [hr] at hlt
      exact absurd hlt (by bv_omega)
    · have hlt := hrun.2 d hd
      rw [LoopDim.tripCount_eq_zero.2 hbounds] at hlt
      exact absurd hlt (by bv_omega)

end LoweredLoop

open LoweredLoop (Separate fits_iff preserves_iff_of_empty)

theorem lowerForall_eq_ok {loop : ForallOp} {mapped : Bool} {outputs bounds unsupported : String}
    {lowered l : LoweredLoop loop.rank}
    (h : lowerForall loop mapped outputs bounds unsupported lowered = .ok (some l)) :
    lowered = l := by
  unfold lowerForall at h
  split_ifs at h
  · cases h
  · exact Option.some.inj (Except.ok.inj h)

variable {rank : ℕ} {dims : Fin rank → LoopDim} {axis : Fin rank → Fin 3}

theorem gridSize_cases (r : Fin 3) :
    (∃ d, axis d = r ∧ gridSize dims axis r = (dims d).tripCount ∧ ∀ e, d < e → axis e ≠ r) ∨
      (∀ d, axis d ≠ r) ∧ gridSize dims axis r = 1 := by
  let size (ds : List (Fin rank)) : Fin 3 → Index :=
    ds.foldl (fun size d => update size (axis d) (dims d).tripCount) fun _ => 1
  have hlist : ∀ ds : List (Fin rank), ds.Pairwise (· < ·) →
      (∃ d ∈ ds, axis d = r ∧ size ds r = (dims d).tripCount ∧ ∀ e ∈ ds, d < e → axis e ≠ r) ∨
        (∀ d ∈ ds, axis d ≠ r) ∧ size ds r = 1 := by
    intro ds
    induction ds using List.reverseRecOn with
    | nil => exact fun _ => Or.inr ⟨fun d hd => absurd hd List.not_mem_nil, rfl⟩
    | append_singleton ds last ih =>
      intro hsorted
      obtain ⟨hds, -, hbefore⟩ := List.pairwise_append.1 hsorted
      have happend : size (ds ++ [last]) =
          update (size ds) (axis last) (dims last).tripCount := List.foldl_append
      rw [happend]
      by_cases hlast : axis last = r
      · refine Or.inl ⟨last, by simp, hlast, ?_, fun e he hlt => ?_⟩
        · rw [hlast, update_self]
        · rcases List.mem_append.1 he with he | he
          · exact absurd (hbefore e he last (by simp)) (not_lt_of_gt hlt)
          · exact absurd hlt (List.mem_singleton.1 he ▸ lt_irrefl last)
      · rw [update_of_ne (Ne.symm hlast)]
        rcases ih hds with ⟨d, hd, hr, hsize, hafter⟩ | ⟨hnone, hsize⟩
        · refine Or.inl ⟨d, List.mem_append_left _ hd, hr, hsize, fun e he hlt => ?_⟩
          rcases List.mem_append.1 he with he | he
          · exact hafter e he hlt
          · exact List.mem_singleton.1 he ▸ hlast
        · refine Or.inr ⟨fun d hd => ?_, hsize⟩
          rcases List.mem_append.1 hd with hd | hd
          · exact hnone d hd
          · exact List.mem_singleton.1 hd ▸ hlast
  simpa [gridSize, size] using hlist _ (List.pairwise_lt_finRange rank)

/-- What a block mapping preserves: nothing to run along the last dimension of some axis, or no
empty dimension and no axis taken twice. -/
def BlocksFit (dims : Fin rank → LoopDim) (axis : Fin rank → Fin 3) : Prop :=
  (∃ d, (dims d).lower.value = (dims d).upper.value ∧ ∀ e, d < e → axis e ≠ axis d) ∨
    (∀ d, 0 < (dims d).count) ∧ Separate dims axis

/-- What a thread mapping preserves: an empty dimension that is checked, or none that is empty,
threads enough along every axis, one along those not in use, and no axis taken twice. -/
def ThreadsFit (block : BlockSize) (dims : Fin rank → LoopDim) (axis : Fin rank → Fin 3) : Prop :=
  (∃ d, (dims d).lower.value = (dims d).upper.value ∧
      fullyCovered (block.along (axis d)) (dims d) = false) ∨
    (∀ d, 0 < (dims d).count) ∧
      (∀ d, (dims d).count ≤ (block.along (axis d)).value.toNat) ∧ Separate dims axis ∧
      ∀ r, (∀ d, axis d ≠ r) → (block.along r).value = 1

theorem blocks_preserve_iff :
    (LoweredLoop.blocks dims axis).Preserves ↔ BlocksFit dims axis := by
  have hlast : ∀ d, ∃ c, axis c = axis d ∧ gridSize dims axis (axis d) = (dims c).tripCount ∧
      ∀ e, c < e → axis e ≠ axis d := by
    intro d
    rcases gridSize_cases (axis d) with hlast | ⟨hnone, -⟩
    · exact hlast
    · exact absurd rfl (hnone d)
  unfold BlocksFit
  by_cases hne : ∀ d, 0 < (dims d).count
  · rw [or_iff_right fun ⟨d, hd, _⟩ => LoopDim.bounds_ne (hne d) hd, and_iff_right hne,
      fits_iff (l := .blocks dims axis) hne]
    · refine ⟨fun h => h.2.1, fun h => ⟨fun d => ?_, h, fun r hr => ?_⟩⟩
      · obtain ⟨c, hc, hsize, -⟩ := hlast d
        change (dims d).count ≤ (gridSize dims axis (axis d)).toNat
        rw [hsize, LoopDim.toNat_tripCount (LoopDim.count_pos.1 (hne c))]
        by_cases hcd : c = d
        · rw [hcd]
        · rw [h d c (Ne.symm hcd) hc.symm]
          exact hne c
      · exact (gridSize_cases r).elim (fun ⟨c, hc, _⟩ => absurd hc (hr c)) And.right
    · intro d
      obtain ⟨c, hc, hsize, -⟩ := hlast d
      refine ⟨c, hc, fun id hrun => ?_⟩
      change (id (axis c)).toNat < (dims c).count
      rw [← LoopDim.toNat_tripCount (LoopDim.count_pos.1 (hne c)), ← hsize, ← hc]
      exact hrun.1 (axis c)
  · rw [or_iff_left fun h => hne h.1, preserves_iff_of_empty (l := .blocks dims axis) hne]
    constructor
    · rintro (⟨r, hr⟩ | ⟨d, hd, -⟩)
      · rcases gridSize_cases r with ⟨d, hd, hsize, hafter⟩ | ⟨-, hsize⟩
        · exact ⟨d, LoopDim.tripCount_eq_zero.1 (hsize.symm.trans hr),
            fun e he => hd ▸ hafter e he⟩
        · exact absurd (hsize.symm.trans hr) (by decide)
      · cases hd
    · rintro ⟨d, hd, hafter⟩
      obtain ⟨c, hc, hsize, hafter'⟩ := hlast d
      refine Or.inl ⟨axis d, hsize.trans (LoopDim.tripCount_eq_zero.2 ?_)⟩
      rcases lt_trichotomy c d with hlt | rfl | hlt
      · exact absurd rfl (hafter' d hlt)
      · exact hd
      · exact absurd hc (hafter c hlt)

theorem threads_preserve_iff {block : BlockSize} :
    (LoweredLoop.threads block dims axis).Preserves ↔ ThreadsFit block dims axis := by
  unfold ThreadsFit
  by_cases hne : ∀ d, 0 < (dims d).count
  · rw [or_iff_right fun ⟨d, hd, _⟩ => LoopDim.bounds_ne (hne d) hd, and_iff_right hne,
      fits_iff (l := .threads block dims axis) hne]
    · rfl
    · refine fun d => ⟨d, rfl, fun id hrun => ?_⟩
      change (id (axis d)).toNat < (dims d).count
      cases hcovered : fullyCovered (block.along (axis d)) (dims d) with
      | false =>
        rw [← LoopDim.toNat_tripCount (LoopDim.count_pos.1 (hne d))]
        exact hrun.2 d (by simp [LoweredLoop.threads, hcovered])
      | true =>
        simp only [fullyCovered, Bool.and_eq_true, decide_eq_true_eq] at hcovered
        have hlt := LoopDim.count_pos.1 (hne d)
        have hstep := (dims d).step_pos
        have hcount := hcovered.2
        unfold constantTripCount at hcount
        rw [if_neg (by omega), ← LoopDim.toNat_of_pos (block.pos (axis d))] at hcount
        unfold LoopDim.count
        rw [hcount]
        exact lt_def.1 (hrun.1 (axis d))
  · rw [or_iff_left fun h => hne h.1, preserves_iff_of_empty (l := .threads block dims axis) hne]
    constructor
    · rintro (⟨r, hr⟩ | ⟨d, hd, hbounds⟩)
      · have hpos := block.pos r
        rw [show (block.along r).value = 0 from hr] at hpos
        exact absurd hpos (by decide)
      · exact ⟨d, hbounds, by simpa [LoweredLoop.threads] using hd⟩
    · rintro ⟨d, hbounds, hd⟩
      exact Or.inr ⟨d, by simp [LoweredLoop.threads, hd], hbounds⟩

/-- **When the ids preserve the iterations**: of every loop that the lowering to a launch, or that
to the threads of a block, accepts. -/
theorem lowered_preserves_iff (loop : ForallOp) :
    (∀ l, lowerForallToLaunch loop = .ok (some l) →
      (l.Preserves ↔ BlocksFit loop.dims loop.axis)) ∧
    ∀ block l, lowerThreadForallToPredicatedRegion block loop = .ok (some l) →
      (l.Preserves ↔ ThreadsFit block loop.dims loop.axis) := by
  refine ⟨fun l h => ?_, fun block l h => ?_⟩
  · rw [← lowerForall_eq_ok h]
    exact blocks_preserve_iff
  · rw [← lowerForall_eq_ok h]
    exact threads_preserve_iff

/-- `scf.forall (%i) = (0) to (count) step (1)`, of constants. -/
def countedLoop (count : Index) (mapping : MappingAttr) : ForallOp where
  hasOutputs := false
  rank := 1
  dims _ := ⟨⟨0, true⟩, ⟨count, true⟩, ⟨1, true⟩, by decide⟩
  mapping := some [mapping]

theorem countedLoop_preserved :
    ∃ launched predicated,
      lowerForallToLaunch (countedLoop 100 (.block 0)) = .ok (some launched) ∧
      lowerThreadForallToPredicatedRegion warps (countedLoop 100 (.thread 0)) =
        .ok (some predicated) ∧ launched.Preserves ∧ predicated.Preserves := by
  have hseparate : ∀ (dims : Fin 1 → LoopDim) axis, Separate dims axis :=
    fun _ _ d e hne => absurd (Subsingleton.elim d e) hne
  have hcount : LoopDim.count ⟨⟨0, true⟩, ⟨100, true⟩, ⟨1, true⟩, by decide⟩ = 100 := by decide
  refine ⟨_, _, rfl, rfl, ?_, ?_⟩
  · refine ((lowered_preserves_iff (countedLoop 100 (.block 0))).1 _ rfl).2 (Or.inr ⟨?_, ?_⟩)
    · exact fun _ => hcount.symm ▸ (by decide : 0 < 100)
    · exact hseparate _ _
  · refine ((lowered_preserves_iff (countedLoop 100 (.thread 0))).2 warps _ rfl).2
      (Or.inr ⟨fun _ => hcount.symm ▸ (by decide : 0 < 100), fun d => ?_, hseparate _ _, ?_⟩)
    · obtain rfl : d = (0 : Fin 1) := Fin.eq_zero d
      change LoopDim.count ⟨⟨0, true⟩, ⟨100, true⟩, ⟨1, true⟩, _⟩ ≤ 128
      rw [hcount]
      decide
    · intro r hr
      have hne : r ≠ 0 := fun h => hr (0 : Fin 1) h.symm
      simp [warps, hne]

/-- More iterations than threads: those behind the last thread are not run. -/
theorem countedLoop_unfinished :
    ¬ ∀ block loop l, lowerThreadForallToPredicatedRegion block loop = .ok (some l) →
      l.Preserves := by
  intro h
  have hfits := ((lowered_preserves_iff (countedLoop 256 (.thread 0))).2 warps _ rfl).1
    (h warps (countedLoop 256 (.thread 0)) _ rfl)
  rcases hfits with ⟨d, hd, -⟩ | ⟨-, hsize, -⟩
  · have hbounds : (0 : Index) = 256 := hd
    exact absurd hbounds (by decide)
  · have hthreads : 256 ≤ 128 := hsize (0 : Fin 1)
    exact absurd hthreads (by decide)

end Matcore.Gpu.Mapping
