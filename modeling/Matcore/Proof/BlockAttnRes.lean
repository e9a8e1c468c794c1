import Mathlib.Analysis.SpecialFunctions.Sqrt
import Matcore.Engine.BlockAttnRes
import Matcore.Lib.Except

/-!
# The block attention residual is what it should be

Every kernel that is built leaves in each element of its output the sum of the sources, weighted
with the softmax of their scores, and writes it once, whatever the order of the threads.
-/

namespace Matcore.Engine.BlockAttnRes

open List (nodup_range mem_map mem_range range)
open Barriers MinusInfinity
open Except (error_ite_eq_ok bind_eq_ok check_eq_ok)

variable {F : Type}

namespace Kernel

section definition
variable [Field F] (kernel : Kernel F) (rsqrt exp : F → F) (x : ℕ → List ℕ → F) (b t : ℕ)

/-- An element of a source: the blocks, and the partial value behind them. -/
def sourceAt (s d : ℕ) : F :=
  if s < kernel.blockCount then x kernel.blocksArg [s, b, t, d] else x kernel.partialArg [b, t, d]

def normOf (s : ℕ) : F :=
  rsqrt ((∑ d ∈ Finset.range kernel.width, kernel.sourceAt x b t s d ^ 2) / kernel.width +
    kernel.eps)

def scoreOf (s : ℕ) : F :=
  ∑ d ∈ Finset.range kernel.width,
    x kernel.queryArg [d] * (kernel.sourceAt x b t s d * kernel.normOf rsqrt x b t s)

/-- The sources, weighted with the softmax of their scores. -/
def attention (d : ℕ) : F :=
  ∑ s ∈ Finset.range kernel.activeSources,
    exp (kernel.scoreOf rsqrt x b t s) /
      (∑ s' ∈ Finset.range kernel.activeSources, exp (kernel.scoreOf rsqrt x b t s')) *
      kernel.sourceAt x b t s d

end definition

section scratch
variable [Field F] {row : ℕ} {R W : Set Place} {I : Between blockDim Place (Number F)} {total : F}

/-- An assertion that does not look at the scratch lanes. -/
def Steady (row : ℕ) (I : Between blockDim Place (Number F)) : Prop :=
  ∀ m l m' l', I m l → (∀ a, (∀ lane, a ≠ .scratch row lane) → m' a = m a) →
    (∀ a ∈ written l', ∃ lane, a = .scratch row lane) → I m' (l' ++ l)

/-- The first lanes add up to a total. -/
def Summed (row size : ℕ) (total : F) (I : Between blockDim Place (Number F)) :
    Between blockDim Place (Number F) := fun m l =>
  I m l ∧ ∃ lanes : ℕ → F, (∀ lane < size, m (.scratch row lane) = .finite (lanes lane)) ∧
    ∑ lane ∈ Finset.range size, lanes lane = total

theorem reduceStep_leads {stride : ℕ} (hstride : stride ≤ blockDim)
    (hW : ∀ lane, .scratch row lane ∈ W) (hI : Steady row I) :
    Leads R W [emitReduceStep row stride] (Summed row (stride + stride) total I)
      (Summed row stride total I) := by
  let value : Fin blockDim → ThreadCode F (Number F) := fun tid =>
    (load (.scratch row tid)).bind fun lhs =>
      (load (.scratch row (tid + stride))).bind fun rhs => .ret (lhs.add rhs)
  have hphase : emitReduceStep (F := F) row stride = fun tid =>
      if tid.val < stride then (value tid).bind (store (.scratch row tid)) else .ret () := rfl
  rw [hphase]
  refine .storesIf (fun i => {.scratch row (i + stride)}) ?_ ?_ ?_ (fun i _ => hW i) ?_
  · intro i _
    exact (within_load (.inr (Set.mem_singleton _))).bind fun lhs =>
      (within_load (.inl (Set.mem_singleton _))).bind fun _ => trivial
  · intro i hi j _ hij
    constructor
    · intro hmem
      have hsame : i.val = j + stride := by simpa using hmem
      omega
    · intro hsame
      exact hij (Fin.ext (by simpa using hsame))
  · rintro i _ _ rfl
    exact .inr (hW _)
  · rintro m l ⟨hm, lanes, hlanes, hsum⟩
    refine ⟨fun i => .finite (lanes i + lanes (i + stride)), fun i hi => ?_, ?_⟩
    · have hlhs := hlanes i (by omega)
      have hrhs := hlanes (i + stride) (by omega)
      exact (gives_load hlhs).bind ((gives_load hrhs).bind (Code.gives_ret _ m))
    · intro m' l' hown hframe hwritten
      refine ⟨hI m l m' l' hm (fun a ha => hframe a fun i _ => ha i) fun a ha => ?_,
        fun lane => lanes lane + lanes (lane + stride), fun lane hlane => ?_, ?_⟩
      · obtain ⟨i, -, rfl⟩ := hwritten a ha
        exact ⟨i, rfl⟩
      · exact hown ⟨lane, by omega⟩ hlane
      · rw [← hsum, Finset.sum_range_add, Finset.sum_add_distrib]
        simp only [Nat.add_comm]

theorem halves_pow (k : ℕ) : halves (2 ^ (k + 1)) = 2 ^ (k + 1) :: halves (2 ^ k) := by
  obtain ⟨p, hp⟩ : ∃ p, 2 ^ (k + 1) = p + 1 := Nat.exists_eq_succ_of_ne_zero (by positivity)
  have hhalf : (p + 1) / 2 = 2 ^ k := by omega
  rw [hp, halves, hhalf]

/-- The tree sums up the lanes. -/
theorem reduction_leads (hW : ∀ lane, .scratch row lane ∈ W) (hI : Steady row I) :
    Leads R W (emitScratchSumReduction row) (Summed row blockDim total I)
      (Summed row 1 total I) := by
  have hgeneral : ∀ k ≤ 6, Leads R W ((halves (2 ^ k)).map (emitReduceStep row))
      (Summed row (2 ^ k + 2 ^ k) total I) (Summed row 1 total I) := by
    intro k
    induction k with
    | zero =>
      intro _
      have hone : halves 1 = [1] := by
        show halves (0 + 1) = [1]
        rw [halves, halves]
      rw [pow_zero, hone]
      exact reduceStep_leads (by decide) hW hI
    | succ k ih =>
      intro hk
      have hbound : 2 ^ (k + 1) ≤ blockDim :=
        (Nat.pow_le_pow_right (by decide) hk).trans (by decide)
      have hsize : 2 ^ (k + 1) = 2 ^ k + 2 ^ k := by omega
      rw [halves_pow, List.map_cons]
      refine .cons (reduceStep_leads hbound hW hI) ?_
      rw [hsize]
      exact ih (by omega)
  exact hgeneral 6 le_rfl

end scratch

variable {kernel : Kernel F} {rsqrt exp : F → F} {x : ℕ → List ℕ → F} {row : ℕ}

/-- The elements of the arguments that hold the inputs. -/
def inputPlaces (kernel : Kernel F) : Set Place :=
  { a | ∃ index element, index ≠ kernel.outArg ∧ a = .argument index element }

/-- What the block of a row may write. -/
def rowPlaces (kernel : Kernel F) (row : ℕ) : Set Place :=
  { a | (∃ slot, a = .score row slot) ∨ (∃ slot, a = .invRms row slot) ∨
    (∃ lane, a = .scratch row lane) ∨ ∃ col < kernel.width, a = kernel.outPlace row col }

theorem score_mem (slot : ℕ) : .score row slot ∈ kernel.rowPlaces row := .inl ⟨slot, rfl⟩

theorem invRms_mem (slot : ℕ) : .invRms row slot ∈ kernel.rowPlaces row := .inr (.inl ⟨slot, rfl⟩)

theorem scratch_mem (lane : ℕ) : .scratch row lane ∈ kernel.rowPlaces row :=
  .inr (.inr (.inl ⟨lane, rfl⟩))

variable {col : ℕ}

theorem outPlace_mem (h : col < kernel.width) : kernel.outPlace row col ∈ kernel.rowPlaces row :=
  .inr (.inr (.inr ⟨col, h, rfl⟩))

variable {row' : ℕ}

theorem outPlace_eq {col' : ℕ} (h : kernel.outPlace row col = kernel.outPlace row' col') :
    row = row' ∧ col = col' := by
  simp only [outPlace, Place.argument.injEq, List.cons.injEq, and_true, true_and] at h
  obtain ⟨hb, ht, hcol⟩ := h
  refine ⟨?_, hcol⟩
  rw [← Nat.div_add_mod row kernel.tokens, ← Nat.div_add_mod row' kernel.tokens]
  exact congrArg₂ (kernel.tokens * · + ·) hb ht

variable {a : Place}

theorem rowPlaces_apart (hrow : row ≠ row') (ha : a ∈ kernel.rowPlaces row) :
    a ∉ kernel.inputPlaces ∧ a ∉ kernel.rowPlaces row' := by
  rcases ha with ⟨slot, rfl⟩ | ⟨slot, rfl⟩ | ⟨lane, rfl⟩ | ⟨col, -, rfl⟩
  · simp [inputPlaces, rowPlaces, outPlace, hrow]
  · simp [inputPlaces, rowPlaces, outPlace, hrow]
  · simp [inputPlaces, rowPlaces, outPlace, hrow]
  · constructor
    · rintro ⟨index, element, hindex, heq⟩
      exact hindex (Place.argument.inj heq).1.symm
    · rintro (⟨_, heq⟩ | ⟨_, heq⟩ | ⟨_, heq⟩ | ⟨_, _, heq⟩)
      · cases heq
      · cases heq
      · cases heq
      · exact hrow (outPlace_eq heq).1

/-- What the kernel takes from its arguments is not its output. -/
structure Distinct (kernel : Kernel F) : Prop where
  sources : kernel.blocksArg ≠ kernel.outArg ∧ kernel.partialArg ≠ kernel.outArg
  query : kernel.queryArg ≠ kernel.outArg

/-- What the block of a row may read and does not write, or keeps from a phase before. -/
def termPlaces (kernel : Kernel F) (row : ℕ) : Set Place :=
  { a | a ∈ kernel.inputPlaces ∨ ∃ slot, a = .invRms row slot }

theorem emitSourceLoadByIndex_eq (source col : ℕ) :
    kernel.emitSourceLoadByIndex row source col = kernel.emitSourceLoadByConst row source col := by
  unfold emitSourceLoadByIndex emitSourceLoadByConst
  by_cases hlast : kernel.hasPartial
  · by_cases hsource : source = kernel.blockCount
    · simp [hlast, hsource]
    · simp [hlast, hsource]
  · simp [hlast]

variable {source : ℕ} {W R : Set Place}

theorem emitSourceLoadByConst_within
    (hargs : kernel.blocksArg ≠ kernel.outArg ∧ kernel.partialArg ≠ kernel.outArg)
    (hR : ∀ a ∈ kernel.inputPlaces, a ∈ R) :
    (kernel.emitSourceLoadByConst row source col).Within R W := by
  unfold emitSourceLoadByConst
  split
  · exact within_load (.inl (hR _ ⟨_, _, hargs.2, rfl⟩))
  · exact within_load (.inl (hR _ ⟨_, _, hargs.1, rfl⟩))

theorem tidZero_leads {P Q : Between blockDim Place (Number F)} {value : ThreadCode F (Number F)}
    {Rs : Set Place} {place : Place} (hwithin : value.Within Rs {place})
    (hR : ∀ a ∈ Rs, a ∈ R ∨ a ∈ W) (hW : place ∈ W)
    (h : ∀ m l, P m l → ∃ v, value.Gives m v ∧ ∀ m' l', m' place = v →
      (∀ a, a ≠ place → m' a = m a) → (∀ a ∈ written l', a = place) → Q m' (l' ++ l)) :
    Leads R W [emitTidZero (value.bind (store place))] P Q := by
  have hfirst : ∀ i j : Fin blockDim, i.val = 0 → j.val = 0 → i = j := fun i j hi hj =>
    Fin.ext (hi.trans hj.symm)
  have hphase : emitTidZero (value.bind (store place)) = fun tid =>
      if tid.val = 0 then ((fun _ : Fin blockDim => value) tid).bind
        (store ((fun _ : Fin blockDim => place) tid)) else .ret () := rfl
  rw [hphase]
  refine .storesIf (fun _ => Rs) (fun _ _ => hwithin) ?_ (fun _ _ => hR) (fun _ _ => hW)
    fun m l hm => ?_
  · exact fun i hi j hj hij => absurd (hfirst i j hi hj) hij
  · obtain ⟨v, hv, hQ⟩ := h m l hm
    refine ⟨fun _ => v, fun _ _ => hv, fun m' l' hown hframe hwritten => ?_⟩
    refine hQ m' l' (hown ⟨0, by decide⟩ rfl) (fun a ha => hframe a fun _ _ => ha) fun a ha => ?_
    obtain ⟨-, -, heq⟩ := hwritten a ha
    exact heq

variable {b t : ℕ}

theorem row_lt (hb : b < kernel.batch) (ht : t < kernel.tokens) :
    b * kernel.tokens + t < kernel.rows := by
  have hle : (b + 1) * kernel.tokens ≤ kernel.batch * kernel.tokens := Nat.mul_le_mul_right _ hb
  rw [Nat.add_mul, Nat.one_mul] at hle
  unfold rows
  omega

theorem bIdx_row (ht : t < kernel.tokens) : kernel.bIdx (b * kernel.tokens + t) = b := by
  have hpos : 0 < kernel.tokens := by omega
  rw [bIdx, Nat.add_comm, Nat.add_mul_div_right _ _ hpos, Nat.div_eq_of_lt ht, Nat.zero_add]

theorem tIdx_row (ht : t < kernel.tokens) : kernel.tIdx (b * kernel.tokens + t) = t := by
  rw [tIdx, Nat.add_comm, Nat.add_mul_mod_self_right, Nat.mod_eq_of_lt ht]

theorem outPlace_row {d : ℕ} (ht : t < kernel.tokens) :
    kernel.outPlace (b * kernel.tokens + t) d = .argument kernel.outArg [b, t, d] := by
  rw [outPlace, bIdx_row ht, tIdx_row ht]

theorem nodup_elements : kernel.elements.Nodup := by
  unfold elements
  refine List.nodup_flatMap.2 ⟨fun b _ => List.nodup_flatMap.2 ⟨fun t _ => ?_, ?_⟩, ?_⟩
  · exact nodup_range.map fun d d' hd => by simpa using hd
  · refine nodup_range.imp fun {t t'} htt a ha ha' => ?_
    obtain ⟨d, -, rfl⟩ := mem_map.1 ha
    obtain ⟨d', -, hd⟩ := mem_map.1 ha'
    simp only [Place.argument.injEq, List.cons.injEq] at hd
    exact htt hd.2.2.1.symm
  · refine nodup_range.imp fun {b b'} hbb a ha ha' => ?_
    simp only [List.mem_flatMap, mem_map] at ha ha'
    obtain ⟨t, -, d, -, rfl⟩ := ha
    obtain ⟨t', -, d', -, heq⟩ := ha'
    simp only [Place.argument.injEq, List.cons.injEq] at heq
    exact hbb heq.2.1.symm

theorem mem_elements : a ∈ kernel.elements ↔
    ∃ row < kernel.rows, ∃ d < kernel.width, a = kernel.outPlace row d := by
  unfold elements
  simp only [List.mem_flatMap, mem_map, mem_range]
  constructor
  · rintro ⟨b, hb, t, ht, d, hd, rfl⟩
    exact ⟨_, row_lt hb ht, d, hd, (outPlace_row ht).symm⟩
  · rintro ⟨row, hrow, d, hd, rfl⟩
    have hpos : 0 < kernel.tokens := Nat.pos_of_ne_zero fun hzero => by
      rw [rows, hzero, Nat.mul_zero] at hrow
      exact absurd hrow (Nat.not_lt_zero row)
    exact ⟨_, Nat.div_lt_of_lt_mul (by rwa [Nat.mul_comm]), _, Nat.mod_lt row hpos, d, hd, rfl⟩

variable [Field F]

/-- What holds behind the first sources of a row. -/
structure Scored (kernel : Kernel F) (rsqrt : F → F) (x : ℕ → List ℕ → F) (row count : ℕ)
    (m : Place → Number F) (l : List (Fin blockDim × Access Place)) : Prop where
  inputs : ∀ index element, index ≠ kernel.outArg →
    m (.argument index element) = .finite (x index element)
  scores : ∀ s < count, m (.score row s) =
    .finite (kernel.scoreOf rsqrt x (kernel.bIdx row) (kernel.tIdx row) s)
  clean : ∀ a ∈ written l, ∀ index element, a ≠ .argument index element

/-- The same within a source, whose norm is known. -/
def Normed (kernel : Kernel F) (rsqrt : F → F) (x : ℕ → List ℕ → F) (row source : ℕ) :
    Between blockDim Place (Number F) := fun m l =>
  kernel.Scored rsqrt x row source m l ∧ m (.invRms row source) =
    .finite (kernel.normOf rsqrt x (kernel.bIdx row) (kernel.tIdx row) source)

variable {m : Place → Number F} {count : ℕ} {l : List (Fin blockDim × Access Place)}

/-- What is known stays, where places of a row are written that are not among it. -/
theorem Scored.write {m' : Place → Number F} {l' : List (Fin blockDim × Access Place)}
    (h : kernel.Scored rsqrt x row count m l)
    (hframe : ∀ a, (∀ index element, a = .argument index element → m' a = m a) ∧
      ∀ s < count, a = .score row s → m' a = m a)
    (hwritten : ∀ a ∈ written l', ∀ index element, a ≠ .argument index element) :
    kernel.Scored rsqrt x row count m' (l' ++ l) where
  inputs := fun index element hindex =>
    ((hframe _).1 index element rfl).trans (h.inputs index element hindex)
  scores := fun s hs => ((hframe _).2 s hs rfl).trans (h.scores s hs)
  clean := by
    intro a ha
    rw [written_append, List.mem_append] at ha
    exact ha.elim (hwritten a) (h.clean a)

theorem Scored.steady (count : ℕ) : Steady row (kernel.Scored rsqrt x row count) := by
  intro m l m' l' h hframe hwritten
  refine h.write (fun a => ⟨fun _ _ ha => ?_, fun _ _ ha => ?_⟩) fun a ha => ?_
  · exact hframe a fun lane => by rw [ha]; simp
  · exact hframe a fun lane => by rw [ha]; simp
  · obtain ⟨lane, rfl⟩ := hwritten a ha
    intro _ _ hlane
    cases hlane

theorem Normed.steady (source : ℕ) : Steady row (kernel.Normed rsqrt x row source) := by
  rintro m l m' l' ⟨h, hnorm⟩ hframe hwritten
  refine ⟨Scored.steady source m l m' l' h hframe hwritten, ?_⟩
  rw [hframe _ fun lane => by simp, hnorm]

theorem emitSourceLoadByConst_gives
    (hargs : kernel.blocksArg ≠ kernel.outArg ∧ kernel.partialArg ≠ kernel.outArg)
    (hsource : source < kernel.activeSources) (h : kernel.Scored rsqrt x row count m l) :
    (kernel.emitSourceLoadByConst row source col).Gives m
      (.finite (kernel.sourceAt x (kernel.bIdx row) (kernel.tIdx row) source col)) := by
  unfold emitSourceLoadByConst sourceAt
  by_cases hlast : kernel.hasPartial ∧ source = kernel.blockCount
  · rw [if_pos hlast, if_neg (by omega)]
    exact gives_load (h.inputs _ _ hargs.2)
  · have hblock : source < kernel.blockCount := by
      unfold activeSources at hsource
      split at hsource
      · have hne : source ≠ kernel.blockCount := fun heq => hlast ⟨‹_›, heq⟩
        omega
      · omega
    rw [if_neg hlast, if_pos hblock]
    exact gives_load (h.inputs _ _ hargs.1)

theorem storeThreadSum_leads {dotProduct : Bool} {f : ℕ → F} {I : Between blockDim Place (Number F)}
    (hdistinct : kernel.Distinct) (hI : Steady row I) (hterm : ∀ m l, I m l → ∀ col < kernel.width,
      (kernel.emitTerm row source dotProduct col).Gives m (.finite (f col))) :
    Leads kernel.inputPlaces (kernel.rowPlaces row) [kernel.storeThreadSum row source dotProduct]
      I (Summed row blockDim (∑ col ∈ Finset.range kernel.width, f col) I) := by
  have hphase : kernel.storeThreadSum row source dotProduct = fun tid =>
      if True then (kernel.emitSourceThreadSum row source dotProduct tid).bind
        (store (.scratch row tid)) else .ret () := by
    funext tid
    rw [if_pos trivial]
    rfl
  have hinput : ∀ a ∈ kernel.inputPlaces, a ∈ kernel.termPlaces row := fun a ha => .inl ha
  rw [hphase]
  refine .storesIf (fun _ => kernel.termPlaces row) ?_ ?_ ?_ (fun i _ => scratch_mem i) ?_
  · refine fun i _ => within_fold (fun acc col _ => ?_) _
    refine Code.Within.bind ?_ fun _ => trivial
    refine (emitSourceLoadByConst_within hdistinct.sources hinput).bind fun val => ?_
    cases dotProduct with
    | true =>
      refine (within_load (.inl (.inr ⟨source, rfl⟩))).bind fun invRms => ?_
      exact (within_load (.inl (.inl ⟨_, _, hdistinct.query, rfl⟩))).bind fun _ => trivial
    | false => trivial
  · intro i _ j _ hij
    constructor
    · rintro (⟨index, element, -, heq⟩ | ⟨slot, heq⟩)
      · cases heq
      · cases heq
    · intro hsame
      exact hij (Fin.ext (by simpa using hsame))
  · rintro _ _ a (ha | ⟨slot, rfl⟩)
    · exact .inl ha
    · exact .inr (invRms_mem slot)
  · intro m l hm
    refine ⟨fun i => .finite (((share kernel.width i).map f).sum), fun i _ => ?_, ?_⟩
    · refine gives_sum fun col hcol => hterm m l hm col (mem_share.1 hcol).1
    · intro m' l' hown hframe hwritten
      refine ⟨hI m l m' l' hm (fun a ha => hframe a fun i _ => ha i) fun a ha => ?_, ?_⟩
      · obtain ⟨i, -, rfl⟩ := hwritten a ha
        exact ⟨i, rfl⟩
      · let lanes : ℕ → F := fun lane => if h : lane < blockDim then
          ((share kernel.width (⟨lane, h⟩ : Fin blockDim)).map f).sum else 0
        have hlanes : ∀ i : Fin blockDim, lanes i = ((share kernel.width i).map f).sum :=
          fun i => dif_pos i.isLt
        refine ⟨lanes, fun lane hlane => ?_, ?_⟩
        · exact (hown ⟨lane, hlane⟩ trivial).trans
            (congrArg Number.finite (hlanes ⟨lane, hlane⟩).symm)
        · rw [Finset.sum_range, ← sum_share (n := blockDim) (by decide)]
          exact Finset.sum_congr rfl fun i _ => hlanes i

theorem storeInvRms_leads :
    Leads kernel.inputPlaces (kernel.rowPlaces row)
      [emitTidZero (kernel.storeInvRms rsqrt row source)]
      (Summed row 1 (∑ d ∈ Finset.range kernel.width,
        kernel.sourceAt x (kernel.bIdx row) (kernel.tIdx row) source d ^ 2)
        (kernel.Scored rsqrt x row source)) (kernel.Normed rsqrt x row source) := by
  let value : ThreadCode F (Number F) := (load (.scratch row 0)).bind fun sumsq =>
    .ret (((sumsq.mul (.finite (1 / kernel.width))).add (.finite kernel.eps)).map rsqrt)
  have hvalue : value.Within {.scratch row 0} {.invRms row source} :=
    (within_load (.inl (Set.mem_singleton _))).bind fun _ => trivial
  have hR : ∀ a ∈ ({.scratch row 0} : Set Place),
      a ∈ kernel.inputPlaces ∨ a ∈ kernel.rowPlaces row := by
    rintro _ rfl
    exact .inr (scratch_mem 0)
  have hphase : kernel.storeInvRms rsqrt row source = value.bind (store (.invRms row source)) := rfl
  rw [hphase]
  refine tidZero_leads hvalue hR (invRms_mem source) ?_
  rintro m l ⟨h, lanes, hlanes, hsum⟩
  have htotal : lanes 0 = ∑ d ∈ Finset.range kernel.width,
      kernel.sourceAt x (kernel.bIdx row) (kernel.tIdx row) source d ^ 2 := by
    rw [← hsum, Finset.sum_range_one]
  refine ⟨_, (gives_load (hlanes 0 one_pos)).bind (Code.gives_ret _ m), ?_⟩
  intro m' l' hown hframe hwritten
  refine ⟨h.write (fun a => ⟨fun _ _ ha => ?_, fun _ _ ha => ?_⟩) fun a ha => ?_, ?_⟩
  · exact hframe a (by simp [ha])
  · exact hframe a (by simp [ha])
  · rw [hwritten a ha]
    simp
  · rw [hown, htotal]
    simp only [Number.mul_finite, Number.add_finite, Number.map_finite, normOf, mul_one_div]

theorem storeScore_leads :
    Leads kernel.inputPlaces (kernel.rowPlaces row) [emitTidZero (storeScore row source)]
      (Summed row 1 (kernel.scoreOf rsqrt x (kernel.bIdx row) (kernel.tIdx row) source)
        (kernel.Normed rsqrt x row source)) (kernel.Scored rsqrt x row (source + 1)) := by
  have hvalue : (load (.scratch row 0) : ThreadCode F (Number F)).Within {.scratch row 0}
      {.score row source} := within_load (.inl (Set.mem_singleton _))
  have hR : ∀ a ∈ ({.scratch row 0} : Set Place),
      a ∈ kernel.inputPlaces ∨ a ∈ kernel.rowPlaces row := by
    rintro _ rfl
    exact .inr (scratch_mem 0)
  refine tidZero_leads hvalue hR (score_mem source) ?_
  rintro m l ⟨⟨h, -⟩, lanes, hlanes, hsum⟩
  have htotal : lanes 0 = kernel.scoreOf rsqrt x (kernel.bIdx row) (kernel.tIdx row) source := by
    rw [← hsum, Finset.sum_range_one]
  refine ⟨_, gives_load (hlanes 0 one_pos), ?_⟩
  intro m' l' hown hframe hwritten
  have hkept : kernel.Scored rsqrt x row source m' (l' ++ l) := by
    refine h.write (fun a => ⟨fun _ _ ha => ?_, fun s hs ha => ?_⟩) fun a ha => ?_
    · exact hframe a (by simp [ha])
    · have hne : s ≠ source := by omega
      exact hframe a (by simp [ha, hne])
    · rw [hwritten a ha]
      simp
  refine ⟨hkept.inputs, fun s hs => ?_, hkept.clean⟩
  rcases Nat.lt_succ_iff_lt_or_eq.1 hs with hs | rfl
  · exact hkept.scores s hs
  · rw [hown, htotal]

/-- What the phases of one source lead to. -/
theorem emitSource_leads (hdistinct : kernel.Distinct) (hsource : source < kernel.activeSources) :
    Leads kernel.inputPlaces (kernel.rowPlaces row) (kernel.emitSource rsqrt row source)
      (kernel.Scored rsqrt x row source) (kernel.Scored rsqrt x row (source + 1)) := by
  have hsquares : ∀ m l, kernel.Scored rsqrt x row source m l → ∀ col < kernel.width,
      (kernel.emitTerm row source false col).Gives m
        (.finite (kernel.sourceAt x (kernel.bIdx row) (kernel.tIdx row) source col ^ 2)) := by
    intro m l h col _
    refine (emitSourceLoadByConst_gives hdistinct.sources hsource h).bind ?_
    rw [pow_two]
    exact Code.gives_ret _ m
  have hproducts : ∀ m l, kernel.Normed rsqrt x row source m l → ∀ col < kernel.width,
      (kernel.emitTerm row source true col).Gives m (.finite (x kernel.queryArg [col] *
        (kernel.sourceAt x (kernel.bIdx row) (kernel.tIdx row) source col *
          kernel.normOf rsqrt x (kernel.bIdx row) (kernel.tIdx row) source))) := by
    rintro m l ⟨h, hnorm⟩ col _
    refine (emitSourceLoadByConst_gives hdistinct.sources hsource h).bind ?_
    refine (gives_load hnorm).bind ((gives_load (h.inputs _ _ hdistinct.query)).bind ?_)
    rw [mul_comm (x kernel.queryArg [col])]
    exact Code.gives_ret _ m
  have hscratch : ∀ lane, .scratch row lane ∈ kernel.rowPlaces row := scratch_mem
  have hnorm := ((storeThreadSum_leads hdistinct (Scored.steady source) hsquares).append
    (reduction_leads hscratch (Scored.steady source))).append storeInvRms_leads
  have hscore := ((storeThreadSum_leads hdistinct (Normed.steady source) hproducts).append
    (reduction_leads hscratch (Normed.steady source))).append storeScore_leads
  have hboth := hnorm.append hscore
  simpa only [emitSource, List.append_assoc, List.cons_append, List.nil_append] using hboth

section columns
variable [LinearOrder F]

/-- What is stored in a column. -/
def columnValue (kernel : Kernel F) (exp : F → F) (row col : ℕ) : ThreadCode F (Number F) :=
  if kernel.activeSources = 0 then .ret (.finite 0)
  else (kernel.emitMax row).bind fun max => (kernel.emitDenom exp row max).bind fun denom =>
    kernel.emitAccum exp row max denom col

theorem emitColumn_eq (col : ℕ) : kernel.emitColumn exp row col =
    (kernel.columnValue exp row col).bind (store (kernel.outPlace row col)) := by
  unfold emitColumn columnValue
  split
  · rfl
  · simp only [Code.bind_assoc]
    rfl

/-- What the columns are made from. -/
def columnPlaces (kernel : Kernel F) (row : ℕ) : Set Place :=
  { a | a ∈ kernel.inputPlaces ∨ ∃ slot, a = .score row slot }

theorem columnValue_within {W : Set Place} (hdistinct : kernel.Distinct) :
    (kernel.columnValue exp row col).Within (kernel.columnPlaces row) W := by
  have hscore : ∀ (f : Number F → Number F) (slot : ℕ),
      ((load (.score row slot)).bind fun score => .ret (f score) :
        ThreadCode F (Number F)).Within (kernel.columnPlaces row) W :=
    fun f slot => (within_load (.inl (.inr ⟨slot, rfl⟩))).bind fun _ => trivial
  have hinput : ∀ a ∈ kernel.inputPlaces, a ∈ kernel.columnPlaces row := fun a ha => .inl ha
  unfold columnValue
  split
  · trivial
  · refine (within_fold (fun current s _ => hscore (current.maximum ·) s) _).bind fun max => ?_
    refine (within_fold (fun denom s _ =>
      hscore (fun score => denom.add ((score.sub max).exp exp)) s) _).bind fun denom => ?_
    refine within_fold (fun _ s _ => ?_) _
    refine (within_load (.inl (.inr ⟨s, rfl⟩))).bind fun score => ?_
    rw [emitSourceLoadByIndex_eq]
    exact (emitSourceLoadByConst_within hdistinct.sources hinput).bind fun _ => trivial

variable [IsStrictOrderedRing F] {m : Place → Number F}

/-- **The value of a column** behind all sources. -/
theorem columnValue_gives {l : List (Fin blockDim × Access Place)} (hdistinct : kernel.Distinct)
    (hexp : IsExponential exp) (h : kernel.Scored rsqrt x row kernel.activeSources m l) :
    (kernel.columnValue exp row col).Gives m
      (.finite (kernel.attention rsqrt exp x (kernel.bIdx row) (kernel.tIdx row) col)) := by
  let score := kernel.scoreOf rsqrt x (kernel.bIdx row) (kernel.tIdx row)
  let val := fun s => kernel.sourceAt x (kernel.bIdx row) (kernel.tIdx row) s col
  have hscore : ∀ s ∈ kernel.sources, (load (.score row s)).Gives m (.finite (score s)) :=
    fun s hs => gives_load (h.scores s (mem_range.1 hs))
  unfold columnValue
  split
  case isTrue hnone =>
    unfold attention
    rw [hnone, Finset.sum_range_zero]
    exact Code.gives_ret _ m
  case isFalse hsome =>
    have hne : kernel.sources ≠ [] := fun hnil => hsome (List.range_eq_nil.1 hnil)
    obtain ⟨top, htop⟩ := foldl_maximum_masked (fun _ => True) score
      ((List.exists_mem_of_ne_nil _ hne).imp fun _ hs => ⟨hs, trivial⟩)
    have hmax : (kernel.emitMax row).Gives m (.finite top) := by
      have hbody : ∀ (acc : Number F), ∀ s ∈ kernel.sources, ((load (.score row s)).bind
          fun score => .ret (acc.maximum score)).Gives m (acc.maximum (.finite (score s))) :=
        fun acc s hs => (hscore s hs).bind (Code.gives_ret _ m)
      rw [← htop]
      exact gives_fold id hbody Number.negInf
    have hdenom : (kernel.emitDenom exp row (.finite top)).Gives m
        (.finite ((kernel.sources.map fun s => exp (score s - top)).sum)) := by
      have hterm : ∀ s ∈ kernel.sources, ((load (.score row s)).bind fun score =>
          .ret ((score.sub (.finite top)).exp exp)).Gives m (.finite (exp (score s - top))) :=
        fun s hs => (hscore s hs).bind (Code.gives_ret _ m)
      exact gives_sum hterm
    let denom := ∑ s ∈ Finset.range kernel.activeSources, exp (score s - top)
    have hdenom_ne : denom ≠ 0 :=
      hexp.sum_ne_zero (fun s => score s - top) (Finset.nonempty_range_iff.2 hsome)
    have haccum : (kernel.emitAccum exp row (.finite top) (.finite denom) col).Gives m
        (.finite (kernel.sources.map fun s => exp (score s - top) / denom * val s).sum) := by
      have hterm : ∀ s ∈ kernel.sources, ((load (.score row s)).bind fun score =>
          (kernel.emitSourceLoadByIndex row s col).bind fun val =>
            .ret ((((score.sub (.finite top)).exp exp).div (.finite denom)).mul val)).Gives m
          (.finite (exp (score s - top) / denom * val s)) := by
        intro s hs
        refine (hscore s hs).bind ?_
        rw [emitSourceLoadByIndex_eq]
        refine (emitSourceLoadByConst_gives hdistinct.sources (mem_range.1 hs) h).bind ?_
        rw [Number.sub_finite, Number.exp_finite, Number.div_finite _ hdenom_ne]
        exact Code.gives_ret _ m
      have hsum := gives_sum hterm
      simp only [Code.bind_assoc] at hsum
      exact hsum
    -- the maximum cancels in the weights
    have hshift : ∀ s, exp (score s - top) / denom =
        exp (score s) / ∑ s' ∈ Finset.range kernel.activeSources, exp (score s') :=
      share_shift hexp (Finset.range kernel.activeSources) score top
    simp only [hshift] at haccum
    exact hmax.bind (hdenom.bind haccum)

/-- What holds of a row that is finished. -/
structure Finished (kernel : Kernel F) (rsqrt exp : F → F) (x : ℕ → List ℕ → F) (row : ℕ)
    (m : Place → Number F) (l : List (Fin blockDim × Access Place)) : Prop where
  values : ∀ col < kernel.width, m (kernel.outPlace row col) =
    .finite (kernel.attention rsqrt exp x (kernel.bIdx row) (kernel.tIdx row) col)
  once : ((written l).filter Place.isArgument).Perm
    ((range kernel.width).map (kernel.outPlace row))

theorem columns_lead (hdistinct : kernel.Distinct) (hexp : IsExponential exp) :
    Leads kernel.inputPlaces (kernel.rowPlaces row)
      [fun tid => each (kernel.emitColumn exp row) (share kernel.width tid)]
      (kernel.Scored rsqrt x row kernel.activeSources) (kernel.Finished rsqrt exp x row) := by
  have hphase : kernel.emitColumn exp row = fun col =>
      (kernel.columnValue exp row col).bind (store (kernel.outPlace row col)) :=
    funext emitColumn_eq
  rw [hphase]
  refine .stores (fun _ => kernel.columnPlaces row) nodup_range
    (share_perm (by decide) kernel.width) (fun col _ => columnValue_within hdistinct) ?_ ?_
    (fun col hcol => outPlace_mem (mem_range.1 hcol)) fun m l h => ?_
  · intro col _ col' _ hcol
    refine ⟨?_, fun heq => hcol (outPlace_eq heq).2⟩
    rintro (⟨index, element, hindex, heq⟩ | ⟨slot, heq⟩)
    · exact hindex (Place.argument.inj heq).1.symm
    · cases heq
  · rintro col _ a (ha | ⟨slot, rfl⟩)
    · exact .inl ha
    · exact .inr (score_mem slot)
  · refine ⟨_, fun col _ => columnValue_gives hdistinct hexp h, ?_⟩
    intro m' l' hown _ hwritten
    refine ⟨fun col hcol => hown col (mem_range.2 hcol), ?_⟩
    have hbefore : (written l).filter Place.isArgument = [] := by
      refine List.filter_eq_nil_iff.2 fun a ha hargument => ?_
      cases a with
      | argument index element => exact h.clean _ ha index element rfl
      | score | invRms | scratch => cases hargument
    have hall : ∀ a ∈ (range kernel.width).map (kernel.outPlace row),
        Place.isArgument a = true := by
      intro a ha
      obtain ⟨col, -, rfl⟩ := mem_map.1 ha
      rfl
    have houtputs := hwritten.filter Place.isArgument
    rw [List.filter_eq_self.2 hall] at houtputs
    rw [written_append, List.filter_append, hbefore, List.append_nil]
    exact houtputs

/-- What a block leads to. -/
theorem phases_lead (hdistinct : kernel.Distinct) (hexp : IsExponential exp) :
    Leads kernel.inputPlaces (kernel.rowPlaces row) (kernel.phases rsqrt exp row)
      (kernel.Scored rsqrt x row 0) (kernel.Finished rsqrt exp x row) := by
  have hsources : Leads kernel.inputPlaces (kernel.rowPlaces row)
      (kernel.sources.flatMap (kernel.emitSource rsqrt row)) (kernel.Scored rsqrt x row 0)
      (kernel.Scored rsqrt x row kernel.sources.length) := by
    refine .flatMap _ (kernel.Scored rsqrt x row) _ fun k source hk => ?_
    obtain ⟨hlt, rfl⟩ : k < kernel.activeSources ∧ k = source := by
      simpa [sources, List.getElem?_eq_some_iff] using hk
    exact emitSource_leads hdistinct hlt
  have hlength : kernel.sources.length = kernel.activeSources := List.length_range
  rw [hlength] at hsources
  exact (hsources.append .skip).append (columns_lead hdistinct hexp)

/-- **The grid** leaves in each element of the output what it should be, and writes it once. -/
theorem launch_computes (hdistinct : kernel.Distinct) (hexp : IsExponential exp)
    (hm : ∀ index element, index ≠ kernel.outArg →
      m (.argument index element) = .finite (x index element)) :
    GridEndsIn (fun s =>
      (∀ b < kernel.batch, ∀ t < kernel.tokens, ∀ d < kernel.width,
        s.2 (.argument kernel.outArg [b, t, d]) = .finite (kernel.attention rsqrt exp x b t d)) ∧
      ((gridWritten s.1).filter Place.isArgument).Perm kernel.elements ∧
      ∀ index element, .argument index element ∉ kernel.elements →
        s.2 (.argument index element) = m (.argument index element))
      (kernel.launch rsqrt exp, m) := by
  have hstart : ∀ row : Fin kernel.rows, kernel.Scored rsqrt x row 0 m [] := fun row =>
    ⟨hm, fun s hs => absurd hs (Nat.not_lt_zero s), fun a ha => absurd ha List.not_mem_nil⟩
  have hapart : ∀ i j : Fin kernel.rows, i ≠ j → ∀ a ∈ kernel.rowPlaces i,
      a ∉ kernel.inputPlaces ∧ a ∉ kernel.rowPlaces j :=
    fun i j hij a => rowPlaces_apart fun heq => hij (Fin.ext heq)
  have hleads : ∀ row : Fin kernel.rows, Leads kernel.inputPlaces (kernel.rowPlaces row)
      (kernel.phases rsqrt exp row) (kernel.Scored rsqrt x row 0)
      (kernel.Finished rsqrt exp x row) := fun row => phases_lead hdistinct hexp
  refine Ends.mono (grid_leads hleads hapart hstart) ?_
  rintro ⟨blocks, m'⟩ ⟨mem, hfinished, hagree, hframe⟩
  refine ⟨fun b hb t ht d hd => ?_, ?_, fun index element houtside => ?_⟩
  · have hvalue := (hfinished ⟨_, row_lt hb ht⟩).values d hd
    have hsame := hagree ⟨_, row_lt hb ht⟩ _ (.inr (outPlace_mem hd))
    rw [hvalue, bIdx_row ht, tIdx_row ht, outPlace_row ht] at hsame
    exact hsame
  · have hrows : ((gridWritten blocks).filter Place.isArgument).Perm
        ((List.finRange kernel.rows).flatMap fun row : Fin kernel.rows =>
          (range kernel.width).map (kernel.outPlace row)) := by
      unfold gridWritten
      rw [List.filter_flatMap]
      exact List.Perm.flatMap_left _ fun row _ => (hfinished row).once
    refine hrows.trans (flatMap_perm_of_owner (List.nodup_finRange _) (fun row _ => ?_)
      nodup_elements ?_ fun a => ?_)
    · exact nodup_range.map fun d d' hd => (outPlace_eq hd).2
    · intro row _ row' _ a ha ha'
      obtain ⟨d, -, rfl⟩ := mem_map.1 ha
      obtain ⟨d', -, heq⟩ := mem_map.1 ha'
      exact Fin.ext (outPlace_eq heq).1.symm
    · rw [mem_elements]
      constructor
      · rintro ⟨row, hrow, d, hd, rfl⟩
        exact ⟨⟨row, hrow⟩, List.mem_finRange _, mem_map.2 ⟨d, mem_range.2 hd, rfl⟩⟩
      · rintro ⟨row, -, ha⟩
        obtain ⟨d, hd, rfl⟩ := mem_map.1 ha
        exact ⟨row, row.isLt, d, mem_range.1 hd, rfl⟩
  · refine hframe _ fun row hmem => houtside ?_
    rcases hmem with ⟨_, heq⟩ | ⟨_, heq⟩ | ⟨_, heq⟩ | ⟨d, hd, heq⟩
    · cases heq
    · cases heq
    · cases heq
    · exact mem_elements.2 ⟨row, row.isLt, d, hd, heq⟩

end columns

end Kernel

theorem findInputArgIndex_lt {region : RegionIR} {id index : ℕ}
    (h : findInputArgIndex region id = some index) : index < region.inputValues.length :=
  (List.findIdx?_eq_some_iff_findIdx_eq.1 h).1

theorem distinct_of_emit [Field F] [LinearOrder F] {target : TargetKind} {region : Option RegionIR}
    {attrs : BlockAttnResAttrs F} {outputs : List ℕ} {tensorCount : ℕ} {kernel : Kernel F}
    (h : emitBlockAttnRes target region attrs outputs tensorCount = .ok kernel) :
    kernel.Distinct := by
  unfold emitBlockAttnRes failBlockAttnRes at h
  rw [error_ite_eq_ok] at h
  obtain ⟨-, h⟩ := h
  split at h
  · cases h
  rw [error_ite_eq_ok] at h
  obtain ⟨-, h⟩ := h
  obtain ⟨blocks, -, h⟩ := bind_eq_ok h
  obtain ⟨partialDesc, -, h⟩ := bind_eq_ok h
  obtain ⟨query, -, h⟩ := bind_eq_ok h
  split at h
  · cases h
  obtain ⟨out, -, h⟩ := bind_eq_ok h
  -- the data types
  iterate 4 obtain ⟨-, h⟩ := check_eq_ok.1 h
  split at h
  · -- the ranks, the shapes, and the attributes
    iterate 5
      rw [error_ite_eq_ok] at h
      obtain ⟨-, h⟩ := h
    split at h
    · rename_i blocksArg partialArg queryArg hblocks hlast hquery
      obtain ⟨-, h⟩ := check_eq_ok.1 h
      cases h
      exact ⟨⟨(findInputArgIndex_lt hblocks).ne, (findInputArgIndex_lt hlast).ne⟩,
        (findInputArgIndex_lt hquery).ne⟩
    · cases h
  · cases h

/-- The reciprocal of a square root. -/
noncomputable def rsqrt (x : ℝ) : ℝ := 1 / Real.sqrt x

/-- **Every kernel that is built computes the block attention residual**, over the reals, whatever
the order of its threads, without a race, and writes each element of its output once. -/
theorem emitBlockAttnRes_computes {target : TargetKind} {region : Option RegionIR}
    {attrs : BlockAttnResAttrs ℝ} {outputs : List ℕ} {tensorCount : ℕ} {kernel : Kernel ℝ}
    (hkernel : emitBlockAttnRes target region attrs outputs tensorCount = .ok kernel)
    {x : ℕ → List ℕ → ℝ} {m : Place → Number ℝ}
    (hm : ∀ index element, index ≠ kernel.outArg →
      m (.argument index element) = .finite (x index element)) :
    GridEndsIn (fun s =>
      (∀ b < kernel.batch, ∀ t < kernel.tokens, ∀ d < kernel.width,
        s.2 (.argument kernel.outArg [b, t, d]) =
          .finite (kernel.attention rsqrt Real.exp x b t d)) ∧
      ((gridWritten s.1).filter Place.isArgument).Perm kernel.elements ∧
      ∀ index element, .argument index element ∉ kernel.elements →
        s.2 (.argument index element) = m (.argument index element))
      (kernel.launch rsqrt Real.exp, m) :=
  kernel.launch_computes (distinct_of_emit hkernel) isExponential_exp hm

/-- Room for four blocks and a partial value, of six rows that are wider than the threads. -/
def packed : RegionIR :=
  { values := [⟨.float32, [4, 2, 3, 200], .input, none, []⟩,
      ⟨.float32, [2, 3, 200], .input, none, []⟩, ⟨.float32, [200], .input, none, []⟩,
      ⟨.float32, [2, 3, 200], .output, none, []⟩]
    inputValues := [0, 1, 2] }

/-- Two of the blocks are read, and the partial value. -/
noncomputable def packedKernel : Kernel ℝ := ⟨0, 1, 2, 3, 4, 2, 3, 200, 2, true, 1⟩

theorem emit_packed : emitBlockAttnRes .nvidiaDGPU (some packed) ⟨0, 1, 2, 2, true, 1⟩ [3] 4 =
    .ok packedKernel := by
  have heps : ¬ (1 : ℝ) ≤ 0 := not_le.2 one_pos
  unfold emitBlockAttnRes
  rw [if_neg (by decide)]
  show (if (1 : ℝ) ≤ 0 then _ else _) = _
  rw [if_neg heps]
  rfl

/-- Elements that differ along every dimension. -/
def ramp (index : ℕ) (element : List ℕ) : ℝ := index + element.sum

def rampMemory : Place → Number ℝ
  | .argument index element => .finite (ramp index element)
  | _ => .finite 1

theorem packed_computes : GridEndsIn (fun s =>
    (∀ b < 2, ∀ t < 3, ∀ d < 200, s.2 (.argument 3 [b, t, d]) =
      .finite (packedKernel.attention rsqrt Real.exp ramp b t d)) ∧
    ((gridWritten s.1).filter Place.isArgument).Perm packedKernel.elements ∧
    ∀ index element, .argument index element ∉ packedKernel.elements →
      s.2 (.argument index element) = rampMemory (.argument index element))
    (packedKernel.launch rsqrt Real.exp, rampMemory) :=
  emitBlockAttnRes_computes emit_packed fun _ _ _ => rfl

end Matcore.Engine.BlockAttnRes
