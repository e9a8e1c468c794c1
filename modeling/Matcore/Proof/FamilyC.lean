import Mathlib.Algebra.BigOperators.Field
import Matcore.Engine.FamilyC
import Matcore.Lib.Except

/-!
# The fused attention kernel computes attention, where there is a key

The kernel goes through the keys in chunks, with a running maximum and a running sum for each row.
What it leaves in each element of its output is the sum of the values, weighted with the softmax of
the scores. Without a key it divides zero by zero.
-/

namespace Matcore.Engine.FamilyC

open List (mem_append range nodup_range mem_map finRange mem_range)
open Barriers MinusInfinity Tiles
open Finset (mul_sum sum_congr)

namespace Kernel

variable {F : Type}

section definition
variable [Field F] (kernel : Kernel) (e : F → F) (x : ℕ → List ℕ → F)

def scoreOf (i key : ℕ) : F :=
  ∑ kk ∈ Finset.range kernel.dh,
    x kernel.qArg (kernel.q.element i kk) * x kernel.kArg (kernel.k.element kk key)

def valueOf (key d : ℕ) : F := x kernel.vArg (kernel.v.element key d)

/-- The values, weighted with the softmax of the scores. -/
def attention (i d : ℕ) : F :=
  ∑ key ∈ Finset.range kernel.n, e (kernel.scoreOf x i key) /
    (∑ key' ∈ Finset.range kernel.n, e (kernel.scoreOf x i key')) * kernel.valueOf x key d

/-- What a key weighs against a maximum. -/
def weight (top : F) (i key : ℕ) : F :=
  if key < kernel.n then e (kernel.scoreOf x i key - top) else 0

/-- What the keys up to a number weigh. -/
def weights (top : F) (i count : ℕ) : F := ∑ key ∈ Finset.range count, kernel.weight e x top i key

def weighted (top : F) (i d count : ℕ) : F :=
  ∑ key ∈ Finset.range count, kernel.weight e x top i key * kernel.valueOf x key d

end definition

section sums
variable [Field F] {kernel : Kernel} {e : F → F} {x : ℕ → List ℕ → F} {i d count : ℕ}

theorem weight_shift (he : IsExponential e) (top top' : F) (key : ℕ) :
    e (top - top') * kernel.weight e x top i key = kernel.weight e x top' i key := by
  unfold weight
  split
  · rw [← he.add, add_comm, sub_add_sub_cancel]
  · exact mul_zero _

theorem weights_shift (he : IsExponential e) (top top' : F) :
    e (top - top') * kernel.weights e x top i count = kernel.weights e x top' i count := by
  unfold weights
  rw [mul_sum]
  exact sum_congr rfl fun key _ => weight_shift he top top' key

theorem weighted_shift (he : IsExponential e) (top top' : F) :
    e (top - top') * kernel.weighted e x top i d count = kernel.weighted e x top' i d count := by
  unfold weighted
  rw [mul_sum]
  refine sum_congr rfl fun key _ => ?_
  rw [← mul_assoc, weight_shift he]

theorem weights_add (top : F) (more : ℕ) : kernel.weights e x top i (count + more) =
    kernel.weights e x top i count +
      ∑ offset ∈ Finset.range more, kernel.weight e x top i (count + offset) :=
  Finset.sum_range_add _ count more

theorem weighted_add (top : F) (more : ℕ) : kernel.weighted e x top i d (count + more) =
    kernel.weighted e x top i d count + ∑ offset ∈ Finset.range more,
      kernel.weight e x top i (count + offset) * kernel.valueOf x (count + offset) d :=
  Finset.sum_range_add _ count more

theorem sum_weight (hcount : kernel.n ≤ count) (top : F) (f : ℕ → F) :
    ∑ key ∈ Finset.range count, kernel.weight e x top i key * f key =
      ∑ key ∈ Finset.range kernel.n, e (kernel.scoreOf x i key - top) * f key := by
  have hsubset : Finset.range kernel.n ⊆ Finset.range count :=
    Finset.range_subset_range.2 hcount
  rw [← Finset.sum_subset hsubset]
  · refine sum_congr rfl fun key hkey => ?_
    rw [weight, if_pos (Finset.mem_range.1 hkey)]
  · intro key _ hkey
    rw [weight, if_neg (by simpa using hkey), zero_mul]

theorem weights_all (hcount : kernel.n ≤ count) (top : F) : kernel.weights e x top i count =
    ∑ key ∈ Finset.range kernel.n, e (kernel.scoreOf x i key - top) := by
  have hsum := sum_weight (e := e) (x := x) (i := i) hcount top fun _ => 1
  simp only [mul_one] at hsum
  exact hsum

/-- **The quotient of the running sums is attention.** -/
theorem weighted_div_weights (he : IsExponential e) (hcount : kernel.n ≤ count) (top : F) :
    kernel.weighted e x top i d count / kernel.weights e x top i count =
      kernel.attention e x i d := by
  unfold weighted attention
  rw [sum_weight hcount top fun key => kernel.valueOf x key d, weights_all hcount, Finset.sum_div]
  refine sum_congr rfl fun key _ => ?_
  rw [← share_shift he (Finset.range kernel.n) (kernel.scoreOf x i) top key, mul_div_right_comm]

end sums

section places
variable {kernel : Kernel} {block : ℕ}

theorem orDefault_pos {size : ℤ} {default : ℕ} (h : 0 < default) : 0 < orDefault size default := by
  unfold orDefault
  split
  · omega
  · exact h

theorem br_pos : 0 < kernel.br := orDefault_pos (by decide)

theorem bc_pos : 0 < kernel.bc := orDefault_pos (by decide)

theorem dtile_pos : 0 < kernel.dtile := lt_of_lt_of_le one_pos (le_max_left _ _)

theorem blockDim_pos : 0 < kernel.blockDim := orDefault_pos (by decide)

/-- The elements of the arguments that hold the inputs. -/
def inputPlaces (kernel : Kernel) : Set Place :=
  { a | ∃ index element, index ≠ kernel.outArg ∧ a = .argument index element }

/-- The workgroup memory of a block. -/
def sharedPlaces (block : ℕ) : Set Place :=
  { a | (∃ row col, a = .accum block row col) ∨ (∃ row offset, a = .score block row offset) ∨
    (∃ row, a = .rowM block row) ∨ (∃ row, a = .rowL block row) ∨ ∃ row, a = .rowScale block row }

/-- What a block may write. -/
def blockPlaces (kernel : Kernel) (block : ℕ) : Set Place :=
  { a | a ∈ sharedPlaces block ∨ ∃ elemIdx < kernel.totalAccum,
    kernel.ElemValid block elemIdx ∧ a = kernel.outPlace block elemIdx }

theorem accum_mem (row col : ℕ) : .accum block row col ∈ kernel.blockPlaces block :=
  .inl (.inl ⟨row, col, rfl⟩)

theorem score_mem (row offset : ℕ) : .score block row offset ∈ kernel.blockPlaces block :=
  .inl (.inr (.inl ⟨row, offset, rfl⟩))

theorem rowM_mem (row : ℕ) : .rowM block row ∈ kernel.blockPlaces block :=
  .inl (.inr (.inr (.inl ⟨row, rfl⟩)))

theorem rowL_mem (row : ℕ) : .rowL block row ∈ kernel.blockPlaces block :=
  .inl (.inr (.inr (.inr (.inl ⟨row, rfl⟩))))

theorem rowScale_mem (row : ℕ) : .rowScale block row ∈ kernel.blockPlaces block :=
  .inl (.inr (.inr (.inr (.inr ⟨row, rfl⟩))))

variable {elemIdx : ℕ}

theorem div_lt_br (h : elemIdx < kernel.totalAccum) : elemIdx / kernel.dtile < kernel.br :=
  Nat.div_lt_of_lt_mul (by rwa [Nat.mul_comm])

theorem mod_lt_dtile : elemIdx % kernel.dtile < kernel.dtile :=
  Nat.mod_lt _ dtile_pos

/-- The output, in tiles. -/
def tiling (kernel : Kernel) : Tiling :=
  ⟨kernel.m, kernel.d, kernel.br, kernel.dtile, br_pos, dtile_pos⟩

end places

section assertions

/-- The arguments are what they were. -/
structure Known (kernel : Kernel) (x : ℕ → List ℕ → F) (m : Place → Number F)
    (l : List (Fin kernel.blockDim × Access Place)) : Prop where
  inputs : ∀ index element, index ≠ kernel.outArg →
    m (.argument index element) = .finite (x index element)
  clean : ∀ a ∈ written l, a.isArgument = false

theorem Known.write {kernel : Kernel} {x : ℕ → List ℕ → F} {m m' : Place → Number F}
    {l l' : List (Fin kernel.blockDim × Access Place)} (h : kernel.Known x m l)
    (hframe : ∀ index element, m' (.argument index element) = m (.argument index element))
    (hwritten : ∀ a ∈ written l', a.isArgument = false) : kernel.Known x m' (l' ++ l) where
  inputs := fun index element hindex =>
    (hframe index element).trans (h.inputs index element hindex)
  clean := by
    intro a ha
    rw [written_append, mem_append] at ha
    exact ha.elim (hwritten a) (h.clean a)

variable [Field F]

/-- The running values of a row, and of its elements, behind some keys. -/
structure Row (kernel : Kernel) (e : F → F) (x : ℕ → List ℕ → F) (block count row : ℕ)
    (m : Place → Number F) (top : F) : Prop where
  max : m (.rowM block row) = .finite top ∨ m (.rowM block row) = .negInf ∧ count = 0
  sum : m (.rowL block row) =
    .finite (kernel.weights e x top (kernel.rowBase block + row) count)
  accum : ∀ col < kernel.dtile, kernel.colBase block + col < kernel.d →
    m (.accum block row col) = .finite (kernel.weighted e x top (kernel.rowBase block + row)
      (kernel.colBase block + col) count)

/-- **The loop invariant**: what holds of a block behind some keys. -/
structure Running (kernel : Kernel) (e : F → F) (x : ℕ → List ℕ → F) (block count : ℕ)
    (m : Place → Number F) (l : List (Fin kernel.blockDim × Access Place)) : Prop where
  known : kernel.Known x m l
  rows : ∀ row < kernel.br, kernel.rowBase block + row < kernel.m →
    ∃ top, kernel.Row e x block count row m top

/-- The same, with the scores of the next keys. -/
structure Scored (kernel : Kernel) (e : F → F) (x : ℕ → List ℕ → F) (block count : ℕ)
    (m : Place → Number F) (l : List (Fin kernel.blockDim × Access Place)) : Prop where
  running : kernel.Running e x block count m l
  scores : ∀ row < kernel.br, kernel.rowBase block + row < kernel.m → ∀ offset < kernel.bc,
    m (.score block row offset) = if count + offset < kernel.n then
      .finite (kernel.scoreOf x (kernel.rowBase block + row) (count + offset)) else .negInf

/-- A row whose maximum and sum are those behind the next keys, and whose elements are not. -/
structure ReducedRow (kernel : Kernel) (e : F → F) (x : ℕ → List ℕ → F) (block count row : ℕ)
    (m : Place → Number F) (top correction : F) : Prop where
  max : m (.rowM block row) = .finite top
  sum : m (.rowL block row) =
    .finite (kernel.weights e x top (kernel.rowBase block + row) (count + kernel.bc))
  scale : m (.rowScale block row) = .finite correction
  weights : ∀ offset < kernel.bc, m (.score block row offset) =
    .finite (kernel.weight e x top (kernel.rowBase block + row) (count + offset))
  accum : ∀ col < kernel.dtile, kernel.colBase block + col < kernel.d →
    ∃ prev, m (.accum block row col) = .finite prev ∧ correction * prev = kernel.weighted e x top
      (kernel.rowBase block + row) (kernel.colBase block + col) count

structure Reduced (kernel : Kernel) (e : F → F) (x : ℕ → List ℕ → F) (block count : ℕ)
    (m : Place → Number F) (l : List (Fin kernel.blockDim × Access Place)) : Prop where
  known : kernel.Known x m l
  rows : ∀ row < kernel.br, kernel.rowBase block + row < kernel.m →
    ∃ top correction, kernel.ReducedRow e x block count row m top correction

end assertions

section start
variable [Field F] {kernel : Kernel} {e : F → F} {x : ℕ → List ℕ → F} {block : ℕ}

/-- An element or a row of the tile. -/
def initItem (kernel : Kernel) (block : ℕ) : ℕ ⊕ ℕ → ThreadCode F Unit :=
  Sum.elim (kernel.initAccum block) (initRow block)

def initOwn (kernel : Kernel) (block : ℕ) : ℕ ⊕ ℕ → Set Place
  | .inl elemIdx => {.accum block (elemIdx / kernel.dtile) (elemIdx % kernel.dtile)}
  | .inr row => {.rowM block row, .rowL block row, .rowScale block row}

def initItems (kernel : Kernel) : List (ℕ ⊕ ℕ) :=
  (range kernel.totalAccum).map .inl ++ (range kernel.br).map .inr

theorem initItems_items : Items (fun _ => ∅) (kernel.initOwn block)
    (kernel.initItem (F := F) block) kernel.initItems := by
  refine ⟨?_, ?_, ?_⟩
  · refine List.Nodup.append (nodup_range.map Sum.inl_injective)
      (nodup_range.map Sum.inr_injective) ?_
    intro y hl hr
    obtain ⟨_, -, rfl⟩ := mem_map.1 hl
    obtain ⟨_, -, heq⟩ := mem_map.1 hr
    cases heq
  · rintro (elemIdx | row) _
    · exact within_store _ rfl
    · exact (within_store _ (.inl rfl)).bind fun _ => (within_store _ (.inr (.inl rfl))).bind
        fun _ => within_store _ (.inr (.inr rfl))
  · rintro (y | y) _ (z | z) _ hyz a ha
    · refine ⟨fun h => h.elim, ?_⟩
      rw [initOwn, Set.mem_singleton_iff] at ha
      rw [initOwn, Set.mem_singleton_iff, ha]
      intro heq
      simp only [Place.accum.injEq, true_and] at heq
      exact hyz (congrArg Sum.inl (item_eq heq.1 heq.2))
    · refine ⟨fun h => h.elim, ?_⟩
      rw [initOwn, Set.mem_singleton_iff] at ha
      simp [initOwn, ha]
    · refine ⟨fun h => h.elim, ?_⟩
      rcases ha with rfl | rfl | rfl <;> simp [initOwn]
    · refine ⟨fun h => h.elim, ?_⟩
      have hne : y ≠ z := fun heq => hyz (congrArg Sum.inr heq)
      rcases ha with rfl | rfl | rfl <;> simp [initOwn, hne]

theorem init_leads : Leads kernel.inputPlaces (kernel.blockPlaces block) [kernel.init block]
    (kernel.Known x) (kernel.Running e x block 0) := by
  let tasks : Fin kernel.blockDim → List (ℕ ⊕ ℕ) := fun tid =>
    (share kernel.totalAccum tid).map .inl ++ (share kernel.br tid).map .inr
  have hphase : kernel.init block =
      fun tid => each (kernel.initItem (F := F) block) (tasks tid) := by
    funext tid
    have hboth := each_append (kernel.initItem (F := F) block)
      ((share kernel.totalAccum tid).map .inl) ((share kernel.br tid).map .inr)
    rw [each_map, each_map] at hboth
    exact hboth
  have htasks : ((finRange kernel.blockDim).flatMap tasks).Perm kernel.initItems := by
    refine (List.flatMap_append_perm _ _ _).symm.trans (List.Perm.append ?_ ?_)
    · rw [← List.map_flatMap]
      exact (share_perm blockDim_pos _).map _
    · rw [← List.map_flatMap]
      exact (share_perm blockDim_pos _).map _
  have hlocal : ∀ y, ∀ a ∈ kernel.initOwn block y, a ∈ kernel.blockPlaces block ∧
      a.isArgument = false := by
    rintro (elemIdx | row) a ha
    · obtain rfl : a = _ := ha
      exact ⟨accum_mem _ _, rfl⟩
    · rcases ha with rfl | rfl | rfl
      · exact ⟨rowM_mem row, rfl⟩
      · exact ⟨rowL_mem row, rfl⟩
      · exact ⟨rowScale_mem row, rfl⟩
  have hrowItem : ∀ row < kernel.br, .inr row ∈ kernel.initItems := fun row hrow =>
    mem_append.2 (.inr (List.mem_map_of_mem (mem_range.2 hrow)))
  have haccumItem : ∀ row < kernel.br, ∀ col < kernel.dtile,
      .inl (row * kernel.dtile + col) ∈ kernel.initItems := fun row hrow col hcol =>
    mem_append.2 (.inl (List.mem_map_of_mem (mem_range.2 (item_lt hrow hcol))))
  rw [hphase]
  refine .owned initItems_items htasks (fun _ _ _ h => h.elim)
    (fun y _ a ha => (hlocal y a ha).1) ?_
  intro m l h m' l' hown hframe hwritten
  refine ⟨h.write (fun index element => ?_) fun a ha => ?_, fun row hrow _ => ⟨0, ?_, ?_, ?_⟩⟩
  · refine hframe _ fun y _ ha => ?_
    cases (hlocal y _ ha).2
  · obtain ⟨y, -, hy⟩ := hwritten a ha
    exact (hlocal y a hy).2
  · have hmax := hown (.inr row) (hrowItem row hrow) (.rowM block row) (.inl rfl)
    exact .inr ⟨hmax.trans (by simp [initItem, initRow]), rfl⟩
  · have hsum := hown (.inr row) (hrowItem row hrow) (.rowL block row) (.inr (.inl rfl))
    exact hsum.trans (by simp [initItem, initRow, weights])
  · intro col hcol _
    have haccum := hown (.inl (row * kernel.dtile + col)) (haccumItem row hrow col hcol)
      (.accum block row col) (by simp [initOwn, item_div hcol, item_mod hcol])
    exact haccum.trans (by simp [initItem, initAccum, item_div hcol, item_mod hcol, weighted])

end start

/-- The operands of the kernel are not its output. -/
structure Distinct (kernel : Kernel) : Prop where
  q : kernel.qArg ≠ kernel.outArg
  k : kernel.kArg ≠ kernel.outArg
  v : kernel.vArg ≠ kernel.outArg

section scores
variable [Field F] {kernel : Kernel} {e : F → F} {x : ℕ → List ℕ → F} {block base : ℕ}

variable {m : Place → Number F} {l : List (Fin kernel.blockDim × Access Place)}

theorem emitScoreDot_gives (hdistinct : kernel.Distinct) (h : kernel.Known x m l) (i key : ℕ) :
    (kernel.emitScoreDot i key).Gives m (.finite (kernel.scoreOf x i key)) := by
  have hterm : ∀ kk ∈ range kernel.dh,
      ((load (.argument kernel.qArg (kernel.q.element i kk))).bind fun qVal =>
        (load (.argument kernel.kArg (kernel.k.element kk key))).bind fun kVal =>
          .ret (qVal.mul kVal)).Gives m (.finite (x kernel.qArg (kernel.q.element i kk) *
        x kernel.kArg (kernel.k.element kk key))) := fun kk _ =>
    (gives_load (h.inputs _ _ hdistinct.q)).bind
      ((gives_load (h.inputs _ _ hdistinct.k)).bind (Code.gives_ret _ m))
  have hsum := gives_sum hterm
  exact hsum

theorem emitScoreDot_within {W : Set Place} (hdistinct : kernel.Distinct) (i key : ℕ) :
    (kernel.emitScoreDot (F := F) i key).Within kernel.inputPlaces W := by
  have hq : ∀ element, .argument kernel.qArg element ∈ kernel.inputPlaces := fun element =>
    ⟨_, element, hdistinct.q, rfl⟩
  have hk : ∀ element, .argument kernel.kArg element ∈ kernel.inputPlaces := fun element =>
    ⟨_, element, hdistinct.k, rfl⟩
  refine within_fold (fun _ kk _ => ?_) _
  exact (within_load (.inl (hq _))).bind fun qVal => (within_load (.inl (hk _))).bind
    fun _ => trivial

/-- What is stored for a row and a key. -/
def scoreValue (kernel : Kernel) (block base scoreIdx : ℕ) : ThreadCode F (Number F) :=
  if kernel.rowBase block + scoreIdx / kernel.bc < kernel.m ∧
      base + scoreIdx % kernel.bc < kernel.n then
    kernel.emitScoreDot (kernel.rowBase block + scoreIdx / kernel.bc) (base + scoreIdx % kernel.bc)
  else .ret .negInf

/-- The same, in numbers. -/
def scoreResult (kernel : Kernel) (x : ℕ → List ℕ → F) (block base scoreIdx : ℕ) : Number F :=
  if kernel.rowBase block + scoreIdx / kernel.bc < kernel.m ∧
      base + scoreIdx % kernel.bc < kernel.n then
    .finite (kernel.scoreOf x (kernel.rowBase block + scoreIdx / kernel.bc)
      (base + scoreIdx % kernel.bc))
  else .negInf

theorem scoreValue_gives (hdistinct : kernel.Distinct) (h : kernel.Known x m l) (scoreIdx : ℕ) :
    (kernel.scoreValue block base scoreIdx).Gives m (kernel.scoreResult x block base scoreIdx) := by
  unfold scoreValue scoreResult
  split
  · exact emitScoreDot_gives hdistinct h _ _
  · exact Code.gives_ret _ m

theorem scoreBody_eq (scoreIdx : ℕ) : kernel.scoreBody (F := F) block base scoreIdx =
    (kernel.scoreValue block base scoreIdx).bind
      (store (.score block (scoreIdx / kernel.bc) (scoreIdx % kernel.bc))) := by
  unfold scoreBody scoreValue
  dsimp only
  split
  · rfl
  · rfl

theorem scores_lead (hdistinct : kernel.Distinct) :
    Leads kernel.inputPlaces (kernel.blockPlaces block)
      [fun tid => each (kernel.scoreBody block base) (share kernel.totalScore tid)]
      (kernel.Running e x block base) (kernel.Scored e x block base) := by
  have hphase : kernel.scoreBody (F := F) block base = fun scoreIdx =>
      (kernel.scoreValue block base scoreIdx).bind
        (store (.score block (scoreIdx / kernel.bc) (scoreIdx % kernel.bc))) :=
    funext scoreBody_eq
  rw [hphase]
  refine .stores (fun _ => kernel.inputPlaces) nodup_range (share_perm blockDim_pos _)
    (fun scoreIdx _ => ?_) (fun a _ b _ hab => ⟨?_, ?_⟩) (fun _ _ a ha => .inl ha)
    (fun _ _ => score_mem _ _) fun m l h => ?_
  · unfold scoreValue
    split
    · exact emitScoreDot_within hdistinct _ _
    · trivial
  · rintro ⟨_, _, _, heq⟩
    cases heq
  · intro heq
    simp only [Place.score.injEq, true_and] at heq
    exact hab (item_eq heq.1 heq.2)
  · refine ⟨_, fun scoreIdx _ => scoreValue_gives hdistinct h.known scoreIdx, ?_⟩
    intro m' l' hown hframe hwritten
    have hkept : ∀ a, (∀ row offset, a ≠ .score block row offset) → m' a = m a :=
      fun a ha => hframe a fun _ _ => ha _ _
    refine ⟨⟨h.known.write (fun _ _ => hkept _ (by simp)) fun a ha => ?_, ?_⟩, ?_⟩
    · obtain ⟨_, -, rfl⟩ := mem_map.1 (hwritten.subset ha)
      rfl
    · intro row hrow hvalid
      obtain ⟨top, hmax, hsum, haccum⟩ := h.rows row hrow hvalid
      refine ⟨top, ?_, ?_, fun col hcol hd => ?_⟩
      · rw [hkept _ (by simp)]
        exact hmax
      · rw [hkept _ (by simp)]
        exact hsum
      · rw [hkept _ (by simp)]
        exact haccum col hcol hd
    · intro row hrow hvalid offset hoffset
      have hscore := hown (row * kernel.bc + offset)
        (mem_range.2 (item_lt hrow hoffset))
      rw [scoreResult, item_div hoffset, item_mod hoffset] at hscore
      rw [hscore]
      simp only [hvalid, true_and]

end scores

section reduce
variable [Field F] [LinearOrder F] {kernel : Kernel} {e : F → F} {x : ℕ → List ℕ → F}
  {block base row : ℕ} {m : Place → Number F} {l : List (Fin kernel.blockDim × Access Place)}

theorem chunkMax_gives (hbase : base < kernel.n) (h : kernel.Scored e x block base m l)
    (hrow : row < kernel.br) (hvalid : kernel.rowBase block + row < kernel.m) :
    ∃ top, (kernel.chunkMax block row).Gives m (.finite top) := by
  let i := kernel.rowBase block + row
  have hscores := h.scores row hrow hvalid
  have hbody : ∀ (acc : Number F), ∀ offset ∈ range kernel.bc,
      ((load (.score block row offset)).bind fun score => .ret (acc.maximum score)).Gives m
        (acc.maximum (if base + offset < kernel.n then .finite (kernel.scoreOf x i (base + offset))
          else .negInf)) := fun acc offset hoffset =>
    (gives_load (hscores offset (mem_range.1 hoffset))).bind (Code.gives_ret _ m)
  obtain ⟨top, htop⟩ := foldl_maximum_masked (fun offset => base + offset < kernel.n)
    (fun offset => kernel.scoreOf x i (base + offset))
    (l := range kernel.bc) ⟨0, mem_range.2 bc_pos, hbase⟩
  refine ⟨top, ?_⟩
  rw [← htop]
  exact gives_fold id hbody Number.negInf

variable (kernel x) in
theorem correct (he : IsExponential e) {top₀ : F}
    (hmax : m (.rowM block row) = .finite top₀ ∨ m (.rowM block row) = .negInf ∧ base = 0)
    (chunkTop : F) (i : ℕ) : ∃ top correction,
      (m (.rowM block row)).maximum (.finite chunkTop) = .finite top ∧
      ((m (.rowM block row)).sub (.finite top)).exp e = .finite correction ∧
      correction * kernel.weights e x top₀ i base = kernel.weights e x top i base ∧
      ∀ d, correction * kernel.weighted e x top₀ i d base = kernel.weighted e x top i d base := by
  rcases hmax with hmax | ⟨hmax, rfl⟩
  · rw [hmax]
    exact ⟨max top₀ chunkTop, e (top₀ - max top₀ chunkTop), rfl, rfl, weights_shift he _ _,
      fun d => weighted_shift he _ _⟩
  · -- the first chunk: nothing has been summed up
    rw [hmax]
    exact ⟨chunkTop, 0, rfl, rfl, by simp [weights], fun d => by simp [weighted]⟩

theorem reduceRow_run (he : IsExponential e) (hbase : base < kernel.n)
    (h : kernel.Scored e x block base m l) (hrow : row < kernel.br)
    (hvalid : kernel.rowBase block + row < kernel.m) :
    ∃ top correction, kernel.ReducedRow e x block base row
      (((kernel.reduceRow e block row).run m).2) top correction := by
  let i := kernel.rowBase block + row
  obtain ⟨top₀, hmax₀, hsum₀, haccum₀⟩ := h.running.rows row hrow hvalid
  obtain ⟨chunkTop, hchunk⟩ := chunkMax_gives hbase h hrow hvalid
  obtain ⟨top, correction, hmax, hcorrection, hweights, hweighted⟩ :=
    correct kernel x he hmax₀ chunkTop i
  have hscores : ∀ offset < kernel.bc, ((m (.score block row offset)).sub (.finite top)).exp e =
      .finite (kernel.weight e x top i (base + offset)) := by
    intro offset hoffset
    rw [h.scores row hrow hvalid offset hoffset, weight]
    split
    · rfl
    · rfl
  have hnodup : ((range kernel.bc).map fun offset => Place.score block row offset).Nodup :=
    nodup_range.map fun a b hab => by simpa using hab
  obtain ⟨hvalue, hreplaced⟩ := run_fold_replace (w := fun v => (v.sub (.finite top)).exp e)
    (f := Number.add) hnodup (.finite (correction * kernel.weights e x top₀ i base)) m
  -- the running sum is rescaled to the new top before the weights of the chunk are added
  let sumRun := (kernel.weightSum e block row (.finite top)
    (.finite (correction * kernel.weights e x top₀ i base))).run m
  have htotal : sumRun.1 = .finite (kernel.weights e x top i (base + kernel.bc)) := by
    refine hvalue.trans ?_
    have hsame := List.foldl_ext _ _ (Number.finite (correction * kernel.weights e x top₀ i base))
      fun acc offset hoffset => congrArg (Number.add acc)
        (hscores offset (mem_range.1 hoffset))
    rw [hsame, foldl_add_finite, hweights, weights_add]
    rfl
  have hshared : ∀ a, (∀ offset, a ≠ .score block row offset) → sumRun.2 a = m a := by
    have hwithin : (kernel.weightSum e block row (.finite top) (.finite (correction *
        kernel.weights e x top₀ i base))).Within ∅
        { a | ∃ offset, a = .score block row offset } := by
      have hplace : ∀ offset, Place.score block row offset ∈
          { a | ∃ offset, a = Place.score block row offset } := fun offset => ⟨offset, rfl⟩
      refine within_fold (fun _ offset _ => ?_) _
      exact (within_load (.inr (hplace offset))).bind fun v =>
        (within_store _ (hplace offset)).bind fun _ => trivial
    intro a ha
    refine hwithin.frame m ?_
    rintro ⟨offset, heq⟩
    exact ha offset heq
  have hrun : ((kernel.reduceRow e block row).run m).2 =
      Function.update (Function.update (Function.update sumRun.2 (.rowM block row) (.finite top))
        (.rowL block row) sumRun.1) (.rowScale block row) (.finite correction) := by
    unfold reduceRow
    simp only [Code.bind_eq, Code.run_bind, hchunk.run, Code.run_load, Code.run_store, hsum₀, hmax,
      hcorrection, Number.mul_finite]
    rfl
  rw [hrun]
  refine ⟨top, correction, by simp, by simp [htotal, i], by simp, fun offset hoffset => ?_,
    fun col hcol hd => ⟨_, ?_, hweighted _⟩⟩
  · have hweight : sumRun.2 (.score block row offset) = _ :=
      (hreplaced offset (mem_range.2 hoffset)).trans (hscores offset hoffset)
    simpa using hweight
  · simpa [hshared (.accum block row col) (by simp)] using haccum₀ col hcol hd

/-- What the reduction of a row reads and writes. -/
def rowOwn (block row : ℕ) : Set Place :=
  { a | (∃ offset, a = .score block row offset) ∨ a = .rowM block row ∨ a = .rowL block row ∨
    a = .rowScale block row }

theorem reduceRow_within : (kernel.reduceRow e block row).Within ∅ (rowOwn block row) := by
  have hscore : ∀ offset, .score block row offset ∈ rowOwn block row := fun offset =>
    .inl ⟨offset, rfl⟩
  have hmax : .rowM block row ∈ rowOwn block row := .inr (.inl rfl)
  have hsum : .rowL block row ∈ rowOwn block row := .inr (.inr (.inl rfl))
  have hscale : .rowScale block row ∈ rowOwn block row := .inr (.inr (.inr rfl))
  refine Code.Within.bind (within_fold (fun _ offset _ => ?_) _) fun chunkMax => ?_
  · exact (within_load (.inr (hscore offset))).bind fun _ => trivial
  refine (within_load (.inr hmax)).bind fun mPrev => ?_
  refine (within_load (.inr hsum)).bind fun lPrev => ?_
  refine Code.Within.bind (within_fold (fun _ offset _ => ?_) _) fun lNew => ?_
  · exact (within_load (.inr (hscore offset))).bind fun _ =>
      (within_store _ (hscore offset)).bind fun _ => trivial
  exact (within_store _ hmax).bind fun _ => (within_store _ hsum).bind fun _ =>
    within_store _ hscale

variable {a : Place}

theorem rowOwn_block (ha : a ∈ rowOwn block row) :
    a ∈ kernel.blockPlaces block ∧ a.isArgument = false := by
  rcases ha with ⟨offset, rfl⟩ | rfl | rfl | rfl
  · exact ⟨score_mem row offset, rfl⟩
  · exact ⟨rowM_mem row, rfl⟩
  · exact ⟨rowL_mem row, rfl⟩
  · exact ⟨rowScale_mem row, rfl⟩

theorem rowOwn_apart {row' : ℕ} (hrow : row ≠ row') (ha : a ∈ rowOwn block row) :
    a ∉ rowOwn block row' := by
  rcases ha with ⟨offset, rfl⟩ | rfl | rfl | rfl
  · simp [rowOwn, hrow]
  · simp [rowOwn, hrow]
  · simp [rowOwn, hrow]
  · simp [rowOwn, hrow]

theorem reduce_leads (he : IsExponential e) (hbase : base < kernel.n) :
    Leads kernel.inputPlaces (kernel.blockPlaces block)
      [fun tid => each (kernel.reduceBody e block) (share kernel.br tid)]
      (kernel.Scored e x block base) (kernel.Reduced e x block base) := by
  let valid : ℕ → Prop := fun row => kernel.rowBase block + row < kernel.m
  have hphase : (fun tid : Fin kernel.blockDim =>
      each (kernel.reduceBody e block) (share kernel.br tid)) =
      fun tid => each (kernel.reduceRow e block) ((share kernel.br tid).filter valid) :=
    funext fun tid => each_filter (kernel.reduceRow e block) valid (share kernel.br tid)
  have hitems : Items (fun _ => ∅) (rowOwn block) (kernel.reduceRow e block)
      ((range kernel.br).filter valid) :=
    ⟨nodup_range.filter _, fun _ _ => reduceRow_within, fun _ _ _ _ hne _ ha =>
      ⟨fun h => h.elim, rowOwn_apart hne ha⟩⟩
  have htasks : ((finRange kernel.blockDim).flatMap fun tid =>
      (share kernel.br tid).filter valid).Perm ((range kernel.br).filter valid) := by
    rw [← List.filter_flatMap]
    exact (share_perm blockDim_pos _).filter _
  rw [hphase]
  have hblock : ∀ a {row}, a ∈ rowOwn block row →
      a ∈ kernel.blockPlaces block ∧ a.isArgument = false := fun _ _ ha => rowOwn_block ha
  refine .owned hitems htasks (fun _ _ _ h => h.elim) (fun _ _ a ha => (hblock a ha).1) ?_
  intro m l h m' l' hown hframe hwritten
  refine ⟨h.running.known.write (fun index element => ?_) fun a ha => ?_, ?_⟩
  · refine hframe _ fun row _ ha => ?_
    cases (hblock _ ha).2
  · obtain ⟨row, -, hrow⟩ := hwritten a ha
    exact (hblock a hrow).2
  · intro row hrow hvalid
    obtain ⟨top, correction, hmax, hsum, hscale, hweights, haccum⟩ :=
      reduceRow_run he hbase h hrow hvalid
    have hmem : row ∈ (range kernel.br).filter valid := by simp [hrow, valid, hvalid]
    have hkept : ∀ col, m' (.accum block row col) =
        ((kernel.reduceRow e block row).run m).2 (.accum block row col) := by
      intro col
      have hfree : ∀ row', .accum block row col ∉ rowOwn block row' := fun row' => by
        simp [rowOwn]
      rw [hframe _ fun row' _ => hfree row', reduceRow_within.frame m (hfree row)]
    refine ⟨top, correction, ?_, ?_, ?_, fun offset hoffset => ?_, fun col hcol hd => ?_⟩
    · exact (hown row hmem _ (.inr (.inl rfl))).trans hmax
    · exact (hown row hmem _ (.inr (.inr (.inl rfl)))).trans hsum
    · exact (hown row hmem _ (.inr (.inr (.inr rfl)))).trans hscale
    · exact (hown row hmem _ (.inl ⟨offset, rfl⟩)).trans (hweights offset hoffset)
    · rw [hkept col]
      exact haccum col hcol hd

end reduce

section accum
variable [Field F] {kernel : Kernel} {e : F → F} {x : ℕ → List ℕ → F} {block base : ℕ}

/-- What the sum of an element is made from. -/
def accumPlaces (kernel : Kernel) (block : ℕ) : Set Place :=
  { a | a ∈ kernel.inputPlaces ∨ (∃ row offset, a = .score block row offset) ∨
    ∃ row, a = .rowScale block row }

theorem accumElement_within (hdistinct : kernel.Distinct) (elemIdx : ℕ) :
    (kernel.accumElement (F := F) block base elemIdx).Within (kernel.accumPlaces block)
      {.accum block (elemIdx / kernel.dtile) (elemIdx % kernel.dtile)} := by
  have hv : ∀ element, .argument kernel.vArg element ∈ kernel.accumPlaces block := fun element =>
    .inl ⟨_, element, hdistinct.v, rfl⟩
  have hscore : ∀ row offset, .score block row offset ∈ kernel.accumPlaces block :=
    fun row offset => .inr (.inl ⟨row, offset, rfl⟩)
  have hscale : ∀ row, .rowScale block row ∈ kernel.accumPlaces block := fun row =>
    .inr (.inr ⟨row, rfl⟩)
  refine (within_load (.inr (Set.mem_singleton _))).bind fun prev => ?_
  refine (within_load (.inl (hscale _))).bind fun correction => ?_
  refine within_fold (fun acc offset _ => ?_) _
  dsimp only
  split
  · exact (within_load (.inl (hscore _ _))).bind fun weight =>
      (within_load (.inl (hv _))).bind fun _ => trivial
  · trivial

theorem accumElement_gives {m : Place → Number F} {l : List (Fin kernel.blockDim × Access Place)}
    (hdistinct : kernel.Distinct) (hknown : kernel.Known x m l) {elemIdx : ℕ} {top correction : F}
    (hvalid : kernel.ElemValid block elemIdx)
    (h : kernel.ReducedRow e x block base (elemIdx / kernel.dtile) m top correction) :
    (kernel.accumElement block base elemIdx).Gives m
      (.finite (kernel.weighted e x top (kernel.rowBase block + elemIdx / kernel.dtile)
        (kernel.colBase block + elemIdx % kernel.dtile) (base + kernel.bc))) := by
  let i := kernel.rowBase block + elemIdx / kernel.dtile
  let d := kernel.colBase block + elemIdx % kernel.dtile
  obtain ⟨prev, hprev, hscaled⟩ := h.accum _ mod_lt_dtile hvalid.2
  have hbody : ∀ (acc : F), ∀ offset ∈ range kernel.bc,
      (if base + offset < kernel.n then
        (load (.score block (elemIdx / kernel.dtile) offset)).bind fun weight =>
          (load (.argument kernel.vArg (kernel.v.element (base + offset) d))).bind fun vVal =>
            .ret ((Number.finite acc).add (weight.mul vVal))
      else .ret (.finite acc) : ThreadCode F (Number F)).Gives m (.finite
        (acc + kernel.weight e x top i (base + offset) * kernel.valueOf x (base + offset) d)) := by
    intro acc offset hoffset
    have hweight := h.weights offset (mem_range.1 hoffset)
    split
    · exact (gives_load hweight).bind ((gives_load (hknown.inputs _ _ hdistinct.v)).bind
        (Code.gives_ret _ m))
    · rename_i hkey
      rw [weight, if_neg hkey, zero_mul, add_zero]
      exact Code.gives_ret _ m
  have hsum : (range kernel.bc).foldl (fun acc offset =>
      acc + kernel.weight e x top i (base + offset) * kernel.valueOf x (base + offset) d)
      (correction * prev) = kernel.weighted e x top i d (base + kernel.bc) := by
    rw [foldl_add, hscaled, weighted_add]
    rfl
  refine (gives_load hprev).bind ((gives_load h.scale).bind ?_)
  rw [← hsum]
  exact gives_fold Number.finite hbody (correction * prev)

theorem accum_leads (hdistinct : kernel.Distinct) :
    Leads kernel.inputPlaces (kernel.blockPlaces block)
      [fun tid => each (kernel.accumBody block base) (share kernel.totalAccum tid)]
      (kernel.Reduced e x block base) (kernel.Running e x block (base + kernel.bc)) := by
  have hgives : ∀ m l, kernel.Reduced e x block base m l → ∀ elemIdx ∈ range kernel.totalAccum,
      kernel.ElemValid block elemIdx → ∃ top correction,
      kernel.ReducedRow e x block base (elemIdx / kernel.dtile) m top correction := by
    intro m l h elemIdx helem hvalid
    exact h.rows _ (div_lt_br (mem_range.1 helem)) hvalid.1
  refine .storesWhere (fun _ => kernel.accumPlaces block) nodup_range
    (share_perm blockDim_pos _) (fun elemIdx _ _ => accumElement_within hdistinct elemIdx)
    (fun a _ _ b _ _ hab => ⟨?_, ?_⟩) ?_ (fun _ _ _ => accum_mem _ _) fun m l h => ?_
  · rintro (⟨_, _, _, heq⟩ | ⟨_, _, heq⟩ | ⟨_, heq⟩)
    · cases heq
    · cases heq
    · cases heq
  · intro heq
    simp only [Place.accum.injEq, true_and] at heq
    exact hab (item_eq heq.1 heq.2)
  · rintro _ _ _ a (ha | ⟨row, offset, rfl⟩ | ⟨row, rfl⟩)
    · exact .inl ha
    · exact .inr (score_mem row offset)
    · exact .inr (rowScale_mem row)
  · refine ⟨fun elemIdx => ((kernel.accumElement block base elemIdx).run m).1, ?_, ?_⟩
    · intro elemIdx helem hvalid
      obtain ⟨top, correction, hrow⟩ := hgives m l h elemIdx helem hvalid
      exact (accumElement_gives hdistinct h.known hvalid hrow).self
    · intro m' l' hown hframe hwritten
      have hkept : ∀ a, (∀ row col, a ≠ .accum block row col) → m' a = m a :=
        fun a ha => hframe a fun _ _ _ => ha _ _
      refine ⟨h.known.write (fun _ _ => hkept _ (by simp)) fun a ha => ?_, ?_⟩
      · obtain ⟨_, -, rfl⟩ := mem_map.1 (hwritten.subset ha)
        rfl
      · intro row hrow hvalid
        obtain ⟨top, correction, hreduced⟩ := h.rows row hrow hvalid
        refine ⟨top, .inl ?_, ?_, fun col hcol hd => ?_⟩
        · rw [hkept _ (by simp)]
          exact hreduced.max
        · rw [hkept _ (by simp)]
          exact hreduced.sum
        · have hdiv : (row * kernel.dtile + col) / kernel.dtile = row := item_div hcol
          have hmod : (row * kernel.dtile + col) % kernel.dtile = col := item_mod hcol
          have helem : kernel.ElemValid block (row * kernel.dtile + col) := by
            unfold ElemValid
            rw [hdiv, hmod]
            exact ⟨hvalid, hd⟩
          have hrowOf : kernel.ReducedRow e x block base
              ((row * kernel.dtile + col) / kernel.dtile) m top correction := by
            rw [hdiv]
            exact hreduced
          have hvalue := (hown _ (mem_range.2 (item_lt hrow hcol)) helem).trans
            (congrArg Prod.fst (accumElement_gives hdistinct h.known helem hrowOf).run)
          rw [hdiv, hmod] at hvalue
          exact hvalue

end accum

section block
variable [Field F] [LinearOrder F] {kernel : Kernel} {e : F → F} {x : ℕ → List ℕ → F}
  {block base count : ℕ}

/-- What a chunk of keys leads to. -/
theorem chunk_leads (hdistinct : kernel.Distinct) (he : IsExponential e) (hbase : base < kernel.n) :
    Leads kernel.inputPlaces (kernel.blockPlaces block) (kernel.chunk e block base)
      (kernel.Running e x block base) (kernel.Running e x block (base + kernel.bc)) :=
  .cons (scores_lead hdistinct) (.cons (reduce_leads he hbase) (accum_leads hdistinct))

/-- **The loop over the keys** goes through all of them. -/
theorem chunks_lead (hdistinct : kernel.Distinct) (he : IsExponential e) :
    ∃ count, kernel.n ≤ count ∧ Leads kernel.inputPlaces (kernel.blockPlaces block)
      ((Loop.strides kernel.n kernel.bc).flatMap (kernel.chunk e block))
      (kernel.Running e x block 0) (kernel.Running e x block count) := by
  let rounds := (kernel.n + kernel.bc - 1) / kernel.bc
  have hlength : (Loop.strides kernel.n kernel.bc).length = rounds := by
    simp [Loop.strides, rounds]
  refine ⟨rounds * kernel.bc, ?_, ?_⟩
  · show kernel.n ≤ (kernel.n + kernel.bc - 1) / kernel.bc * kernel.bc
    have hdiv := Nat.div_add_mod (kernel.n + kernel.bc - 1) kernel.bc
    rw [Nat.mul_comm] at hdiv
    have hpos : 0 < kernel.bc := bc_pos
    have hmod := Nat.mod_lt (kernel.n + kernel.bc - 1) hpos
    omega
  · have hloop := Leads.flatMap (R := kernel.inputPlaces) (W := kernel.blockPlaces block)
      (kernel.chunk e block) (fun k => kernel.Running e x block (k * kernel.bc))
      (Loop.strides kernel.n kernel.bc) ?_
    · rw [hlength, Nat.zero_mul] at hloop
      exact hloop
    · intro k base hk
      have hmem : base ∈ Loop.strides kernel.n kernel.bc := List.mem_of_getElem? hk
      have hbase : base < kernel.n := ((Loop.mem_strides bc_pos).1 hmem).2
      obtain rfl : k * kernel.bc = base := by
        unfold Loop.strides at hk
        rw [List.getElem?_map, Option.map_eq_some_iff] at hk
        obtain ⟨k', hk', rfl⟩ := hk
        rw [List.getElem?_eq_some_iff] at hk'
        obtain ⟨hlt, heq⟩ := hk'
        rw [← heq, List.getElem_range]
      rw [Nat.add_mul, Nat.one_mul]
      exact chunk_leads hdistinct he hbase

variable [IsStrictOrderedRing F]

/-- What the kernel leaves in an element of its output: attention, where there is a key. -/
def valueAt (kernel : Kernel) (e : F → F) (x : ℕ → List ℕ → F) (i d : ℕ) : Number F :=
  if kernel.n = 0 then .undefined else .finite (kernel.attention e x i d)

theorem normalized_gives {m : Place → Number F} {l : List (Fin kernel.blockDim × Access Place)}
    (he : IsExponential e) (hcount : kernel.n ≤ count) (h : kernel.Running e x block count m l)
    {elemIdx : ℕ} (helem : elemIdx < kernel.totalAccum) (hvalid : kernel.ElemValid block elemIdx) :
    (kernel.normalized block elemIdx).Gives m
      (kernel.valueAt e x (kernel.rowBase block + elemIdx / kernel.dtile)
        (kernel.colBase block + elemIdx % kernel.dtile)) := by
  set row := kernel.rowBase block + elemIdx / kernel.dtile
  set column := kernel.colBase block + elemIdx % kernel.dtile
  obtain ⟨top, -, hsum, haccum⟩ := h.rows _ (div_lt_br helem) hvalid.1
  have hvalue : (Number.finite (kernel.weighted e x top row column count)).div
      (.finite (kernel.weights e x top row count)) = kernel.valueAt e x row column := by
    unfold valueAt
    split
    · rename_i hn
      rw [weights_all hcount, hn, Finset.sum_range_zero, Number.div_zero]
    · rename_i hn
      have hne : kernel.weights e x top row count ≠ 0 := by
        rw [weights_all hcount]
        exact he.sum_ne_zero _ (Finset.nonempty_range_iff.2 hn)
      rw [Number.div_finite _ hne, weighted_div_weights he hcount]
  rw [← hvalue]
  exact (gives_load (haccum _ mod_lt_dtile hvalid.2)).bind ((gives_load hsum).bind
    (Code.gives_ret _ m))

/-- The elements of the tile that are elements of the output. -/
def validElems (kernel : Kernel) (block : ℕ) : List ℕ :=
  (range kernel.totalAccum).filter (kernel.ElemValid block)

/-- What holds of a block that is finished. -/
structure Finished (kernel : Kernel) (e : F → F) (x : ℕ → List ℕ → F) (block : ℕ)
    (m : Place → Number F) (l : List (Fin kernel.blockDim × Access Place)) : Prop where
  values : ∀ elemIdx < kernel.totalAccum, kernel.ElemValid block elemIdx →
    m (kernel.outPlace block elemIdx) =
      kernel.valueAt e x (kernel.rowBase block + elemIdx / kernel.dtile)
        (kernel.colBase block + elemIdx % kernel.dtile)
  once : ((written l).filter Place.isArgument).Perm
    ((kernel.validElems block).map (kernel.outPlace block))

theorem argument_inj {index i d i' d' : ℕ}
    (h : Place.argument index [i, d] = .argument index [i', d']) : i = i' ∧ d = d' := by
  simpa using h

theorem outPlace_inj {a b : ℕ} (h : kernel.outPlace block a = kernel.outPlace block b) : a = b := by
  obtain ⟨hrow, hcol⟩ := argument_inj h
  exact Tiling.elem_eq (t := kernel.tiling) hrow hcol

theorem store_leads (he : IsExponential e) (hcount : kernel.n ≤ count) :
    Leads kernel.inputPlaces (kernel.blockPlaces block)
      [fun tid => each (kernel.storeBody block) (share kernel.totalAccum tid)]
      (kernel.Running e x block count) (kernel.Finished e x block) := by
  refine .storesWhere (fun _ => sharedPlaces block) nodup_range
    (share_perm blockDim_pos _) (fun elemIdx _ _ => ?_) (fun a _ _ b _ _ hab => ⟨?_, ?_⟩)
    (fun _ _ _ a ha => .inr (.inl ha)) (fun elemIdx helem hvalid =>
      .inr ⟨elemIdx, mem_range.1 helem, hvalid, rfl⟩) fun m l h => ?_
  · refine (within_load (.inl (.inl ⟨_, _, rfl⟩))).bind fun acc => ?_
    exact (within_load (.inl (.inr (.inr (.inr (.inl ⟨_, rfl⟩)))))).bind fun _ => trivial
  · simp [sharedPlaces, outPlace]
  · exact fun heq => hab (outPlace_inj heq)
  · refine ⟨_, fun elemIdx helem hvalid =>
      normalized_gives he hcount h (mem_range.1 helem) hvalid, ?_⟩
    intro m' l' hown _ hwritten
    refine ⟨fun elemIdx helem hvalid => hown _ (mem_range.2 helem) hvalid, ?_⟩
    have hbefore : (written l).filter Place.isArgument = [] :=
      List.filter_eq_nil_iff.2 fun a ha hargument => by
        rw [h.known.clean a ha] at hargument
        cases hargument
    have hall : ∀ a ∈ (kernel.validElems block).map (kernel.outPlace block),
        Place.isArgument a = true := by
      intro a ha
      obtain ⟨_, -, rfl⟩ := mem_map.1 ha
      rfl
    have houtputs := hwritten.filter Place.isArgument
    rw [written_append, List.filter_append, hbefore, List.append_nil]
    refine houtputs.trans ?_
    exact List.Perm.of_eq (List.filter_eq_self.2 hall)

/-- What a block leads to. -/
theorem phases_lead (hdistinct : kernel.Distinct) (he : IsExponential e) :
    Leads kernel.inputPlaces (kernel.blockPlaces block) (kernel.phases e block)
      (kernel.Known x) (kernel.Finished e x block) := by
  obtain ⟨count, hcount, hchunks⟩ := chunks_lead hdistinct he
  exact (init_leads.append hchunks).append (store_leads he hcount)

end block

section grid
variable {kernel : Kernel}

/-- The block of an element, and what it is in the tile. -/
def blockOf (kernel : Kernel) (i d : ℕ) : ℕ := d / kernel.dtile * kernel.gridM + i / kernel.br

def elemOf (kernel : Kernel) (i d : ℕ) : ℕ := i % kernel.br * kernel.dtile + d % kernel.dtile

variable {i d : ℕ}

theorem blockOf_lt (hi : i < kernel.m) (hd : d < kernel.d) :
    kernel.blockOf i d < kernel.gridM * kernel.gridD :=
  Tiling.blockOf_lt (t := kernel.tiling) hi hd

theorem elemOf_lt (i d : ℕ) : kernel.elemOf i d < kernel.totalAccum :=
  Tiling.elemOf_lt (t := kernel.tiling) i d

theorem row_elemOf (hi : i < kernel.m) (d : ℕ) :
    kernel.rowBase (kernel.blockOf i d) + kernel.elemOf i d / kernel.dtile = i :=
  Tiling.row_elemOf (t := kernel.tiling) hi d

theorem col_elemOf (hi : i < kernel.m) (d : ℕ) :
    kernel.colBase (kernel.blockOf i d) + kernel.elemOf i d % kernel.dtile = d :=
  Tiling.col_elemOf (t := kernel.tiling) hi d

theorem valid_elemOf (hi : i < kernel.m) (hd : d < kernel.d) :
    kernel.ElemValid (kernel.blockOf i d) (kernel.elemOf i d) :=
  Tiling.valid_elemOf (t := kernel.tiling) hi hd

theorem outPlace_elemOf (hi : i < kernel.m) (d : ℕ) :
    kernel.outPlace (kernel.blockOf i d) (kernel.elemOf i d) = .argument kernel.outArg [i, d] := by
  rw [outPlace, row_elemOf hi, col_elemOf hi]

variable {block block' : ℕ}

theorem block_eq {a b : ℕ} (ha : a < kernel.totalAccum) (hb : b < kernel.totalAccum)
    (h : kernel.outPlace block a = kernel.outPlace block' b) : block = block' := by
  obtain ⟨hrow, hcol⟩ := argument_inj h
  exact Tiling.block_eq (t := kernel.tiling) ha hb hrow hcol

variable {a : Place}

theorem blockPlaces_apart (hne : block ≠ block') (ha : a ∈ kernel.blockPlaces block) :
    a ∉ kernel.inputPlaces ∧ a ∉ kernel.blockPlaces block' := by
  rcases ha with ha | ⟨elemIdx, helem, -, rfl⟩
  · rcases ha with ⟨_, _, rfl⟩ | ⟨_, _, rfl⟩ | ⟨_, rfl⟩ | ⟨_, rfl⟩ | ⟨_, rfl⟩
    all_goals simp [inputPlaces, blockPlaces, sharedPlaces, outPlace, hne]
  · constructor
    · rintro ⟨index, element, hindex, heq⟩
      exact hindex (Place.argument.inj heq).1.symm
    · rintro (hshared | ⟨elemIdx', helem', -, heq⟩)
      · simp [sharedPlaces, outPlace] at hshared
      · exact hne (block_eq helem helem' heq)

theorem mem_elements : a ∈ kernel.elements ↔
    ∃ i < kernel.m, ∃ d < kernel.d, a = .argument kernel.outArg [i, d] :=
  Tiling.mem_places (t := kernel.tiling)

/-- What a run of the grid should leave: each element of the output has its value and is written
once, and nothing else of the arguments changes. -/
structure Leaves (kernel : Kernel) (value : ℕ → ℕ → Number F) (m : Place → Number F)
    (blocks : Fin (kernel.gridM * kernel.gridD) → Block kernel.blockDim Place (Number F))
    (m' : Place → Number F) : Prop where
  values : ∀ i < kernel.m, ∀ d < kernel.d, m' (.argument kernel.outArg [i, d]) = value i d
  once : ((gridWritten blocks).filter Place.isArgument).Perm kernel.elements
  frame : ∀ index element, .argument index element ∉ kernel.elements →
    m' (.argument index element) = m (.argument index element)

/-- What the grid leads to. -/
theorem launch_leads [Field F] [LinearOrder F] [IsStrictOrderedRing F] {e : F → F}
    {x : ℕ → List ℕ → F} {m : Place → Number F} (hdistinct : kernel.Distinct)
    (he : IsExponential e) (hm : ∀ index element, index ≠ kernel.outArg →
      m (.argument index element) = .finite (x index element)) :
    GridEndsIn (fun s => kernel.Leaves (kernel.valueAt e x) m s.1 s.2) (kernel.launch e, m) := by
  have hleads : ∀ block : Fin (kernel.gridM * kernel.gridD),
      Leads kernel.inputPlaces (kernel.blockPlaces block) (kernel.phases e block)
        (kernel.Known x) (kernel.Finished e x block) := fun block => phases_lead hdistinct he
  have hapart : ∀ i j : Fin (kernel.gridM * kernel.gridD), i ≠ j →
      ∀ a ∈ kernel.blockPlaces i, a ∉ kernel.inputPlaces ∧ a ∉ kernel.blockPlaces j :=
    fun i j hij a => blockPlaces_apart fun heq => hij (Fin.ext heq)
  have hstart : kernel.Known x m [] := ⟨hm, fun a ha => absurd ha List.not_mem_nil⟩
  refine Ends.mono (grid_leads hleads hapart fun _ => hstart) ?_
  rintro ⟨blocks, m'⟩ ⟨mem, hfinished, hagree, hframe⟩
  refine ⟨fun i hi d hd => ?_, ?_, fun index element houtside => ?_⟩
  · have hvalue := (hfinished ⟨_, blockOf_lt hi hd⟩).values _ (elemOf_lt i d) (valid_elemOf hi hd)
    have hsame := hagree ⟨_, blockOf_lt hi hd⟩ _
      (.inr (.inr ⟨_, elemOf_lt i d, valid_elemOf hi hd, rfl⟩))
    rw [hvalue, row_elemOf hi, col_elemOf hi, outPlace_elemOf hi] at hsame
    exact hsame
  · have hblocks : ((gridWritten blocks).filter Place.isArgument).Perm
        ((finRange (kernel.gridM * kernel.gridD)).flatMap
          fun block : Fin (kernel.gridM * kernel.gridD) =>
            (kernel.validElems block).map (kernel.outPlace block)) := by
      unfold gridWritten
      rw [List.filter_flatMap]
      exact List.Perm.flatMap_left _ fun block _ => (hfinished block).once
    exact hblocks.trans (Tiling.places_perm (t := kernel.tiling) fun _ _ _ _ => argument_inj)
  · refine hframe _ fun block hmem => houtside ?_
    rcases hmem with hshared | ⟨p, _, ⟨hrow, hcol⟩, heq⟩
    · simp [sharedPlaces] at hshared
    · rw [heq]
      exact mem_elements.2 ⟨_, hrow, _, hcol, rfl⟩

end grid

end Kernel

theorem distinct_of_emit {graph : Option FusionGraph} {plan : FusedKernelPlan} {tensorCount : ℕ}
    {kernel : Kernel} (h : emitFamilyC graph plan tensorCount = .ok kernel) : kernel.Distinct := by
  unfold emitFamilyC at h
  split at h
  · cases h
  obtain ⟨-, h⟩ := Except.check_eq_ok.1 h
  obtain ⟨found, -, h⟩ := Except.bind_eq_ok h
  split at h
  · -- the nodes, their attributes, the values and their ranks
    iterate 17 obtain ⟨_, -, h⟩ := Except.bind_eq_ok h
    -- the checks of their shapes
    iterate 15 obtain ⟨_, -, h⟩ := Except.bind_eq_ok h
    split at h
    · rename_i hq hk hv
      cases h
      exact ⟨(findInputArgIndex_lt hq).ne, (findInputArgIndex_lt hk).ne,
        (findInputArgIndex_lt hv).ne⟩
    · cases h
  · cases h

section computes
variable {F : Type} [Field F] [LinearOrder F] [IsStrictOrderedRing F] {kernel : Kernel}
  {e : F → F} {x : ℕ → List ℕ → F} {m : Place → Number F}

theorem not_leaves (hdistinct : kernel.Distinct) (he : IsExponential e)
    (hm : ∀ index element, index ≠ kernel.outArg →
      m (.argument index element) = .finite (x index element))
    (hkeys : kernel.n = 0) (hrows : 0 < kernel.m) (hcols : 0 < kernel.d) :
    ¬ GridEndsIn (fun s => kernel.Leaves (fun i d => .finite (kernel.attention e x i d)) m s.1 s.2)
      (kernel.launch e, m) := by
  intro h
  obtain ⟨s, hleaves, hvalues⟩ := h.agree (Kernel.launch_leads hdistinct he hm)
    fun s s' hdone hstep => hstep.not_done hdone
  have hfinite := hleaves.values 0 hrows 0 hcols
  have hundefined := hvalues.values 0 hrows 0 hcols
  rw [hfinite, Kernel.valueAt, if_pos hkeys] at hundefined
  cases hundefined

/-- **The kernel computes attention if and only if there is a key** or nothing to compute, whatever
the order of its threads. -/
theorem emitFamilyC_computes_iff {graph : Option FusionGraph} {plan : FusedKernelPlan}
    {tensorCount : ℕ} (hkernel : emitFamilyC graph plan tensorCount = .ok kernel)
    (he : IsExponential e) (hm : ∀ index element, index ≠ kernel.outArg →
      m (.argument index element) = .finite (x index element)) :
    GridEndsIn (fun s => kernel.Leaves (fun i d => .finite (kernel.attention e x i d)) m s.1 s.2)
      (kernel.launch e, m) ↔ 0 < kernel.n ∨ kernel.m = 0 ∨ kernel.d = 0 := by
  have hdistinct := distinct_of_emit hkernel
  constructor
  · intro h
    by_contra hnone
    exact not_leaves hdistinct he hm (by omega) (by omega) (by omega) h
  · intro hsome
    refine Ends.mono (Kernel.launch_leads hdistinct he hm) fun s h => ⟨?_, h.once, h.frame⟩
    intro i hi d hd
    rw [h.values i hi d hd, Kernel.valueAt, if_neg (by omega)]

end computes

/-- Attention of some rows over some keys, none of them transposed. -/
def attending (rows keys width columns : ℕ) : FusionGraph where
  values := [⟨.float32, [rows, width], .input, none, [0]⟩,
    ⟨.float32, [width, keys], .input, none, [0]⟩, ⟨.float32, [keys, columns], .input, none, [2]⟩,
    ⟨.float32, [rows, keys], .intermediate, some 0, [1]⟩,
    ⟨.float32, [rows, keys], .intermediate, some 1, [2]⟩,
    ⟨.float32, [rows, columns], .output, some 2, []⟩]
  nodes := [⟨0, .matmul, [0, 1], [3], .matmul ⟨0, false⟩ ⟨1, false⟩⟩,
    ⟨1, .softmax, [3], [4], .softmax 3 (-1)⟩,
    ⟨2, .matmul, [4, 2], [5], .matmul ⟨4, false⟩ ⟨2, false⟩⟩]
  inputValues := [0, 1, 2]
  outputValues := [5]
  topoOrder := [0, 1, 2]
  causal := []

def attendingPlan : FusedKernelPlan := ⟨[0, 1, 2], [5], ⟨32, 32, 64, 64⟩⟩

def attendingKernel (rows keys width columns : ℕ) : Kernel :=
  ⟨0, 1, 2, 3, ⟨0, false⟩, ⟨1, false⟩, ⟨2, false⟩, rows, keys, width, columns, ⟨32, 32, 64, 64⟩⟩

/-- Elements that differ along both dimensions. -/
def ramp (_ : ℕ) (element : List ℕ) : ℝ := element.sum

def rampMemory : Place → Number ℝ
  | .argument index element => .finite (ramp index element)
  | _ => .finite 1

theorem emit_chunked : emitFamilyC (some (attending 33 70 3 70)) attendingPlan 4 =
    .ok (attendingKernel 33 70 3 70) := rfl

theorem emit_keyless : emitFamilyC (some (attending 1 0 1 1)) attendingPlan 4 =
    .ok (attendingKernel 1 0 1 1) := rfl

/-- There are three chunks; the last has six keys, and the last tiles one row and six columns. -/
theorem chunked_computes : GridEndsIn (fun s => (attendingKernel 33 70 3 70).Leaves
    (fun i d => .finite ((attendingKernel 33 70 3 70).attention Real.exp ramp i d))
    rampMemory s.1 s.2) ((attendingKernel 33 70 3 70).launch Real.exp, rampMemory) :=
  (emitFamilyC_computes_iff emit_chunked isExponential_exp fun _ _ _ => rfl).2
    (.inl (by decide))

/-- A row without a key is accepted, and its element is not the empty sum. -/
theorem keyless_fails : emitFamilyC (some (attending 1 0 1 1)) attendingPlan 4 =
      .ok (attendingKernel 1 0 1 1) ∧
    ¬ GridEndsIn (fun s => (attendingKernel 1 0 1 1).Leaves
      (fun i d => .finite ((attendingKernel 1 0 1 1).attention Real.exp ramp i d))
      rampMemory s.1 s.2) ((attendingKernel 1 0 1 1).launch Real.exp, rampMemory) :=
  ⟨rfl, not_leaves (distinct_of_emit emit_keyless) isExponential_exp (fun _ _ _ => rfl) rfl
    one_pos one_pos⟩

end Matcore.Engine.FamilyC
