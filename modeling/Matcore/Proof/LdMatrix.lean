import Matcore.Gpu.LdMatrix

/-!
# What the rewriting to `nvgpu.ldmatrix` keeps

An operand is replaced whatever its loads are: the pass looks at the load that feeds the splat only.
The registers are the same exactly if each of them was filled by a load of the lane's own element of
the standard fragment, the rows of the view lie as the cooperative load reads them, and nothing wrote
there in between.
-/

namespace Matcore.Gpu.LdMatrix

/-- A use of an operand: the operand, whether it is the left one, and the thread id that is found. -/
structure Use where
  operand : ℕ
  isA : Bool
  threadIdX : Option ℕ

def uses (module : Module) : List Use :=
  module.mmas.flatMap fun mma =>
    [⟨mma.matrixA, true, mma.threadIdX⟩, ⟨mma.matrixB, false, mma.threadIdX⟩]

/-- The first use of an operand for which a thread id is found. -/
def firstUse (us : List Use) (operand : ℕ) : Option (Bool × ℕ) :=
  us.findSome? fun use => if use.operand = operand then use.threadIdX.map (use.isA, ·) else none

/-- What an operand is replaced by. -/
def made (module : Module) (us : List Use) (operand : ℕ) : Option LdMatrixOp := do
  let use ← firstUse us operand
  let splat ← traceSplat (module.operands operand).value
  let load ← getWorkgroupLoad splat.2
  return ⟨use.1, use.2, splat.1, load.view⟩

section walk
variable {module : Module} {us : List Use} {s : State}

theorem runOnOperation_eq (h : module.smemPadded = true) : runOnOperation module =
    ((uses module).foldl (fun (s : State) use =>
      s.rewrite module use.operand use.isA use.threadIdX) {}).replaced := by
  rw [runOnOperation, if_pos h, uses, List.foldl_flatMap]
  rfl

/-- **The invariant of the walk**: the cache has the operands of the uses so far. -/
structure Cached (module : Module) (us : List Use) (s : State) : Prop where
  cache : ∀ operand, s.cache.lookup operand = made module us operand
  replaced : ∀ x ∈ s.replaced, made module us x.1 = some x.2

theorem firstUse_append (us : List Use) (use : Use) (operand : ℕ) :
    firstUse (us ++ [use]) operand = (firstUse us operand).or
      (if use.operand = operand then use.threadIdX.map (use.isA, ·) else none) := by
  simp [firstUse, List.findSome?_append]

variable {use : Use} {operand : ℕ} {new : LdMatrixOp}

theorem made_append_of_some (h : made module us operand = some new) :
    made module (us ++ [use]) operand = some new := by
  unfold made at h ⊢
  rw [firstUse_append]
  cases hfirst : firstUse us operand with
  | none =>
    rw [hfirst] at h
    cases h
  | some found =>
    rw [hfirst] at h
    exact h

theorem made_append_of_ne (h : use.operand ≠ operand) :
    made module (us ++ [use]) operand = made module us operand := by
  unfold made
  rw [firstUse_append, if_neg h, Option.or_none]

theorem made_append_of_none (h : use.threadIdX = none) (operand : ℕ) :
    made module (us ++ [use]) operand = made module us operand := by
  unfold made
  rw [firstUse_append, h]
  simp

theorem made_eq_none (h : ((traceSplat (module.operands operand).value).bind
    fun splat => getWorkgroupLoad splat.2) = none) : made module us operand = none := by
  unfold made
  cases hsplat : traceSplat (module.operands operand).value with
  | none => cases firstUse us operand <;> rfl
  | some splat =>
    have hload : getWorkgroupLoad splat.2 = none := by simpa [hsplat] using h
    cases firstUse us operand with
    | none => rfl
    | some found => simp [hload]

variable {input : Scalar} {load : Load} {splat : ℕ}

theorem firstUse_eq_none (hmade : made module us operand = none)
    (hsplat : traceSplat (module.operands operand).value = some (splat, input))
    (hload : getWorkgroupLoad input = some load) : firstUse us operand = none := by
  cases hfirst : firstUse us operand with
  | none => rfl
  | some found => simp [made, hfirst, hsplat, hload] at hmade

theorem rewrite_hit {result : LdMatrixOp} (hcache : s.cache.lookup use.operand = some result) :
    s.rewrite module use.operand use.isA use.threadIdX =
      ⟨s.replaced ++ [(use.operand, result)], s.cache⟩ := by
  simp [State.rewrite, getOrCreateLdMatrix, hcache]

theorem rewrite_new {threadIdX : ℕ} (hcache : s.cache.lookup use.operand = none)
    (hsplat : traceSplat (module.operands use.operand).value = some (splat, input))
    (hload : getWorkgroupLoad input = some load) (hthread : use.threadIdX = some threadIdX) :
    s.rewrite module use.operand use.isA use.threadIdX =
      ⟨s.replaced ++ [(use.operand, ⟨use.isA, threadIdX, splat, load.view⟩)],
        (use.operand, ⟨use.isA, threadIdX, splat, load.view⟩) :: s.cache⟩ := by
  simp [State.rewrite, getOrCreateLdMatrix, hcache, hsplat, hload, hthread]

theorem rewrite_skip (hcache : s.cache.lookup use.operand = none)
    (h : (((traceSplat (module.operands use.operand).value).bind
      fun splat => getWorkgroupLoad splat.2) = none) ∨ use.threadIdX = none) :
    s.rewrite module use.operand use.isA use.threadIdX = s := by
  unfold State.rewrite getOrCreateLdMatrix
  rw [hcache]
  cases hsplat : traceSplat (module.operands use.operand).value with
  | none => rfl
  | some found =>
    cases hload : getWorkgroupLoad found.2 with
    | none => simp only [hload]
    | some load =>
      have hthread : use.threadIdX = none := by simpa [hsplat, hload] using h
      simp only [hload, hthread]

theorem Cached.rewrite (h : Cached module us s) (use : Use) :
    Cached module (us ++ [use]) (s.rewrite module use.operand use.isA use.threadIdX) := by
  have hkept : ∀ x ∈ s.replaced, made module (us ++ [use]) x.1 = some x.2 := fun x hx =>
    made_append_of_some (h.replaced x hx)
  have hmore : ∀ {new}, made module (us ++ [use]) use.operand = some new →
      ∀ x ∈ s.replaced ++ [(use.operand, new)], made module (us ++ [use]) x.1 = some x.2 := by
    intro new hmade x hx
    rcases List.mem_append.1 hx with hx | hx
    · exact hkept x hx
    · obtain rfl := List.mem_singleton.1 hx
      exact hmade
  -- where nothing is made, the cache stays
  have hnothing : made module (us ++ [use]) use.operand = made module us use.operand →
      ∀ operand, s.cache.lookup operand = made module (us ++ [use]) operand := by
    intro hsame operand
    by_cases hoperand : use.operand = operand
    · subst hoperand
      rw [hsame]
      exact h.cache _
    · rw [made_append_of_ne hoperand]
      exact h.cache operand
  have hlookup := h.cache use.operand
  cases hcache : s.cache.lookup use.operand with
  | some result =>
    rw [hcache] at hlookup
    have hmade : made module (us ++ [use]) use.operand = some result :=
      made_append_of_some hlookup.symm
    rw [rewrite_hit hcache]
    exact ⟨hnothing (hmade.trans hlookup), hmore hmade⟩
  | none =>
    rw [hcache] at hlookup
    cases hload : (traceSplat (module.operands use.operand).value).bind
        fun splat => getWorkgroupLoad splat.2 with
    | none =>
      rw [rewrite_skip hcache (.inl hload)]
      exact ⟨hnothing ((made_eq_none hload).trans (made_eq_none hload).symm), hkept⟩
    | some load =>
      obtain ⟨⟨splat, input⟩, hsplat, hload⟩ := Option.bind_eq_some_iff.1 hload
      cases hthread : use.threadIdX with
      | none =>
        rw [← hthread, rewrite_skip hcache (.inr hthread)]
        exact ⟨hnothing (made_append_of_none hthread _), hkept⟩
      | some threadIdX =>
        have hfirst := firstUse_eq_none hlookup.symm hsplat hload
        have hmade : made module (us ++ [use]) use.operand =
            some ⟨use.isA, threadIdX, splat, load.view⟩ := by
          simp [made, firstUse_append, hfirst, hthread, hsplat, hload]
        rw [← hthread, rewrite_new hcache hsplat hload hthread]
        refine ⟨fun operand => ?_, hmore hmade⟩
        by_cases hoperand : use.operand = operand
        · subst hoperand
          rw [hmade]
          exact List.lookup_cons_self
        · have hbeq : (operand == use.operand) = false := beq_false_of_ne (Ne.symm hoperand)
          rw [made_append_of_ne hoperand, ← h.cache operand, List.lookup_cons, hbeq]

theorem cached_foldl (us rest : List Use) (h : Cached module us s) :
    Cached module (us ++ rest) (rest.foldl (fun (s : State) use =>
      s.rewrite module use.operand use.isA use.threadIdX) s) := by
  induction rest generalizing us s with
  | nil =>
    rw [List.append_nil]
    exact h
  | cons use rest ih =>
    rw [List.foldl_cons]
    have hrest := ih (us ++ [use]) (h.rewrite use)
    rwa [List.append_assoc] at hrest

/-- An operand is replaced as its first use wants it. -/
theorem made_of_mem (h : (operand, new) ∈ runOnOperation module) :
    made module (uses module) operand = some new := by
  cases hpadded : module.smemPadded with
  | false => simp [runOnOperation, hpadded] at h
  | true =>
    rw [runOnOperation_eq hpadded] at h
    have hempty : Cached module [] {} := ⟨fun _ => rfl, fun _ hx => absurd hx List.not_mem_nil⟩
    exact (cached_foldl [] (uses module) hempty).replaced (operand, new) h

end walk

/-- Nothing is written to a place between two points in time. -/
def Execution.Quiet (execution : Execution) (a : Place) (t s : ℕ) : Prop :=
  ∀ k, min t s ≤ k → k < max t s → a ∉ execution.writes k

/-- The row and the column, within a tile of 8 by 8, of an element that a lane holds: the lanes
share the rows of a left operand and the columns of a right one. -/
def cell (isA : Bool) (lane element : ℕ) : ℕ × ℕ :=
  if isA then (lane / 4, lane % 4 * 2 + element) else (lane % 4 * 2 + element, lane / 4)

def tiles (isA : Bool) : ℕ := if isA then 4 else 2

/-- **The standard fragment**: where in a matrix the element is. The tiles of a left operand are
the quarters of 16 by 16, column by column, those of a right one lie one below the other. -/
def fragment (isA : Bool) (lane tile element : ℕ) : List ℕ :=
  let inside := cell isA lane element
  if isA then [tile % 2 * 8 + inside.1, tile / 2 * 8 + inside.2] else [tile * 8 + inside.1, inside.2]

/-- A register of a lane. -/
structure Register where
  warp : ℕ
  lane : ℕ
  tile : ℕ
  element : ℕ

/-- The registers of an operand, in the warps that have all their lanes. -/
def registers (block : BlockShape) (isA : Bool) : Set Register :=
  {r | block.Full r.warp ∧ r.lane < 32 ∧ r.tile < tiles isA ∧ r.element < 2}

def Register.thread (block : BlockShape) (r : Register) : Thread := block.thread r.warp r.lane

/-- The element of the standard fragment of a view that belongs into a register. -/
def Register.home (block : BlockShape) (isA : Bool) (view : View) (r : Register) : Place :=
  view.place (r.thread block) (fragment isA r.lane r.tile r.element)

/-- Every register is filled by a load of its element of the standard fragment. -/
def Standard (block : BlockShape) (operand : Operand) (isA : Bool) (view : View) : Prop :=
  ∀ r ∈ registers block isA, ∃ source, operand.value.scalar [r.tile, r.element] = .load source ∧
    source.place (r.thread block) = r.home block isA view

/-- What is claimed of an operand that is replaced: it is the standard fragment of the view, as
another one had to be left, and the new operand has all its registers. -/
structure Kept (module : Module) (block : BlockShape) (execution : Execution) (operand : Operand)
    (new : LdMatrixOp) : Prop where
  standard : Standard block operand new.isA new.view
  registers : Preserves module block execution operand new

/-- Where the row of a register begins for the lane that stands for this row. The lane knows itself
by its `x`. -/
def Register.rowStart (block : BlockShape) (isA : Bool) (view : View) (r : Register) : ℕ :=
  let supplier := block.thread r.warp (r.tile * 8 + (cell isA r.lane r.element).1)
  (view.place supplier [supplier.x % 32 % 16, if isA then supplier.x % 32 / 16 * 8 else 0]).2

/-- The rows of a view lie as a warp reads them: an element of the fragment is as far from the
beginning of its row as its column says. -/
def Rows (block : BlockShape) (isA : Bool) (view : View) : Prop :=
  ∀ r ∈ registers block isA,
    (r.home block isA view).2 = r.rowStart block isA view + (cell isA r.lane r.element).2

/-- Operands that are put together as the pass takes for granted: the fragment of a view of rank
two, into a vector of the one type, by loads that see what the warp sees at the splat. -/
structure Fragment (module : Module) (block : BlockShape) (execution : Execution)
    (operand : Operand) (isA : Bool) (threadIdX splat : ℕ) (view : View) : Prop where
  dominates : module.dominates threadIdX splat = true
  rank : view.strides.length = 2
  type : operand.shape = [tiles isA, 2] ∧ operand.f16 = true
  standard : Standard block operand isA view
  rows : Rows block isA view
  quiet : ∀ r ∈ registers block isA, ∀ source,
    operand.value.scalar [r.tile, r.element] = .load source →
      execution.Quiet (r.home block isA view) (execution.time source.op (r.thread block))
        (execution.warpTime splat r.warp)

section registers
variable {module : Module} {block : BlockShape} {execution : Execution} {operand : Operand}
  {new : LdMatrixOp}

variable {a : Place}

theorem Execution.Quiet.eq {t s : ℕ} {history : History} (hquiet : execution.Quiet a t s)
    (hpossible : execution.Possible history) : history t a = history s a := by
  have hforward : ∀ n k, (∀ l, k ≤ l → l < k + n → a ∉ execution.writes l) →
      history (k + n) a = history k a := by
    intro n
    induction n with
    | zero => exact fun _ _ => rfl
    | succ n ih =>
      intro k hk
      rw [← Nat.add_assoc, hpossible (k + n) a (hk (k + n) (by omega) (by omega))]
      exact ih k fun l hl hlt => hk l hl (by omega)
  rcases Nat.le_total t s with hts | hst
  · obtain ⟨n, rfl⟩ := Nat.exists_eq_add_of_le hts
    exact (hforward n t fun l hl hlt => hquiet l (by omega) (by omega)).symm
  · obtain ⟨n, rfl⟩ := Nat.exists_eq_add_of_le hst
    exact hforward n s fun l hl hlt => hquiet l (by omega) (by omega)

theorem possible_const (contents : Place → Half) : execution.Possible fun _ => contents :=
  fun _ _ _ => rfl

theorem one_ne_zero_half : (1 : Half) ≠ 0 := by decide

theorem possible_write {k : ℕ} (hk : a ∈ execution.writes k) :
    execution.Possible fun t b => if b = a ∧ k < t then 1 else 0 := by
  intro t b hb
  have hiff : (b = a ∧ k < t + 1) ↔ (b = a ∧ k < t) := by
    refine and_congr_right fun hba => ?_
    have hne : t ≠ k := by
      rintro rfl
      exact hb (hba ▸ hk)
    omega
  simp only [hiff]

/-- **A register is the same in every memory** only if it was filled from the place that the lane
gets, at a time with the same contents. -/
theorem load_of_sameRegister {warp lane tile element : ℕ}
    (h : ∀ history, execution.Possible history →
      SameRegister block execution history operand new warp lane tile element) :
    ∃ source, operand.value.scalar [tile, element] = .load source ∧
      source.place (block.thread warp lane) = new.place block warp lane tile element ∧
      execution.Quiet (new.place block warp lane tile element)
        (execution.time source.op (block.thread warp lane))
        (execution.warpTime new.splat warp) := by
  unfold SameRegister at h
  cases hscalar : operand.value.scalar [tile, element] with
  | other value =>
    exfalso
    rw [hscalar] at h
    have hzero := h _ (possible_const fun _ => 0)
    have hone := h _ (possible_const fun _ => 1)
    exact one_ne_zero_half (hone.trans hzero.symm)
  | load source =>
    rw [hscalar] at h
    have hplace : source.place (block.thread warp lane) =
        new.place block warp lane tile element := by
      by_contra hne
      have hmark := h _ (possible_const fun a =>
        if a = new.place block warp lane tile element then 1 else 0)
      simp only [Scalar.value, if_true, if_neg hne] at hmark
      exact one_ne_zero_half hmark
    refine ⟨source, rfl, hplace, fun k hle hlt hwrite => ?_⟩
    have hchange := h _ (possible_write hwrite)
    simp only [Scalar.value, hplace, true_and] at hchange
    by_cases hbefore : k < execution.warpTime new.splat warp
    · rw [if_pos hbefore, if_neg (by omega)] at hchange
      exact one_ne_zero_half hchange
    · rw [if_neg hbefore, if_pos (by omega)] at hchange
      exact one_ne_zero_half hchange.symm

/-- An element that a lane gets is its element of the standard fragment exactly if the row lies as
the warp reads it. -/
theorem place_eq_iff {isA : Bool} {threadIdX splat : ℕ} {view : View} (r : Register) :
    (⟨isA, threadIdX, splat, view⟩ : LdMatrixOp).place block r.warp r.lane r.tile r.element =
        r.home block isA view ↔
      (r.home block isA view).2 = r.rowStart block isA view + (cell isA r.lane r.element).2 := by
  cases isA with
  | true =>
    constructor
    · exact fun h => (congrArg Prod.snd h).symm
    · exact fun h => Prod.ext rfl h.symm
  | false =>
    constructor
    · exact fun h => (congrArg Prod.snd h).symm
    · exact fun h => Prod.ext rfl h.symm

/-- **The registers are kept exactly if the operand is the fragment** that the pass takes it for. -/
theorem operand_kept_iff {isA : Bool} {threadIdX splat : ℕ} {view : View} :
    Kept module block execution operand ⟨isA, threadIdX, splat, view⟩ ↔
      Fragment module block execution operand isA threadIdX splat view := by
  constructor
  · rintro ⟨hstandard, ⟨hdominates, hrank⟩, htype, hsame⟩
    -- the load of a register is from both places, the lane's own and the one it gets
    have hloads : ∀ r ∈ registers block isA, ∃ source,
        operand.value.scalar [r.tile, r.element] = .load source ∧
        (⟨isA, threadIdX, splat, view⟩ : LdMatrixOp).place block r.warp r.lane r.tile r.element =
          r.home block isA view ∧
        execution.Quiet (r.home block isA view) (execution.time source.op (r.thread block))
          (execution.warpTime splat r.warp) := by
      intro r hr
      obtain ⟨own, hown, hhome⟩ := hstandard r hr
      obtain ⟨hwarp, hlane, htile, helement⟩ := hr
      obtain ⟨source, hscalar, hplace, hquiet⟩ := load_of_sameRegister fun history hpossible =>
        hsame history hpossible r.warp hwarp r.lane hlane r.tile htile r.element helement
      obtain rfl := Scalar.load.inj (hscalar.symm.trans hown)
      have heq := hplace.symm.trans hhome
      exact ⟨source, hscalar, heq, heq ▸ hquiet⟩
    refine ⟨hdominates, hrank, htype, hstandard, fun r hr => ?_, fun r hr source hscalar => ?_⟩
    · obtain ⟨-, -, heq, -⟩ := hloads r hr
      exact (place_eq_iff r).1 heq
    · obtain ⟨found, hfound, -, hquiet⟩ := hloads r hr
      obtain rfl := Scalar.load.inj (hscalar.symm.trans hfound)
      exact hquiet
  · intro h
    refine ⟨h.standard, ⟨h.dominates, h.rank⟩, h.type, ?_⟩
    intro history hpossible warp hwarp lane hlane tile htile element helement
    have hr : ⟨warp, lane, tile, element⟩ ∈ registers block isA :=
      ⟨hwarp, hlane, htile, helement⟩
    obtain ⟨source, hscalar, hplace⟩ := h.standard _ hr
    have heq := (@place_eq_iff block isA threadIdX splat view _).2 (h.rows _ hr)
    rw [SameRegister, hscalar, Scalar.value, heq]
    exact ((h.quiet _ hr source hscalar).eq hpossible).symm.trans
      (congrArg (history _) hplace.symm)

end registers

/-- **An operand that is replaced is kept exactly if it is the fragment**, which the pass does not
look at: it is replaced as its first use wants it, with the view of the load that feeds the
splat. -/
theorem replaced_iff {module : Module} {operand : ℕ} {isA : Bool} {threadIdX splat : ℕ}
    {view : View} (h : (operand, ⟨isA, threadIdX, splat, view⟩) ∈ runOnOperation module)
    (block : BlockShape) (execution : Execution) :
    firstUse (uses module) operand = some (isA, threadIdX) ∧
      (∃ load, traceSplat (module.operands operand).value = some (splat, .load load) ∧
        load.view = view ∧ view.workgroup = true) ∧
      (Kept module block execution (module.operands operand) ⟨isA, threadIdX, splat, view⟩ ↔
        Fragment module block execution (module.operands operand) isA threadIdX splat view) := by
  obtain ⟨⟨first, thread⟩, hfirst, hmade⟩ := Option.bind_eq_some_iff.1 (made_of_mem h)
  obtain ⟨⟨op, input⟩, hsplat, hmade⟩ := Option.bind_eq_some_iff.1 hmade
  obtain ⟨load, hload, hmade⟩ := Option.bind_eq_some_iff.1 hmade
  obtain ⟨rfl, rfl, rfl, rfl⟩ := LdMatrixOp.mk.inj (Option.some.inj hmade)
  refine ⟨hfirst, ⟨load, ?_, rfl, ?_⟩, operand_kept_iff⟩
  all_goals
    cases input with
    | other value => cases hload
    | load source =>
      obtain ⟨hworkgroup, hsource⟩ := Option.ite_none_right_eq_some.1 hload
      obtain rfl := Option.some.inj hsource
      first | exact hsplat | exact hworkgroup

section standard
variable {block : BlockShape} {warp lane : ℕ}

theorem thread_x (hblock : 32 ∣ block.x) (hlane : lane < 32) :
    (block.thread warp lane).x % 32 = lane := by
  show (warp * 32 + lane) % block.x % 32 = lane
  rw [Nat.mod_mod_of_dvd _ hblock]
  omega

variable {isA : Bool} {view : View} {leading step : ℕ}

/-- Where the lanes are numbered along `x` and share an offset, the rows lie right exactly if their
elements are next to each other. -/
theorem rows_iff (hblock : 32 ∣ block.x) (hstrides : view.strides = [leading, step])
    (hoffset : ∀ warp, ∀ lane < 32, ∀ lane' < 32,
      view.offset (block.thread warp lane) = view.offset (block.thread warp lane'))
    (hfull : ∃ warp, block.Full warp) : Rows block isA view ↔ step = 1 := by
  have hrow : ∀ r ∈ registers block isA, (r.home block isA view).2 =
      r.rowStart block isA view + (cell isA r.lane r.element).2 * step := by
    rintro ⟨warp, lane, tile, element⟩ ⟨-, hlane, htile, helement⟩
    dsimp only at hlane htile helement
    cases isA with
    | true =>
      have htile : tile < 4 := htile
      have hsupplier : tile * 8 + lane / 4 < 32 := by omega
      have hshare := hoffset warp _ hlane _ hsupplier
      have hmod : (tile * 8 + lane / 4) % 16 = tile % 2 * 8 + lane / 4 := by omega
      have hdiv : (tile * 8 + lane / 4) / 16 = tile / 2 := by omega
      simp only [cell, if_true, thread_x hblock hsupplier, Register.home, Register.rowStart,
        Register.thread, fragment, View.place, hstrides, hshare, hmod, hdiv]
      simp
      ring
    | false =>
      have htile : tile < 2 := htile
      have hsupplier : tile * 8 + (lane % 4 * 2 + element) < 32 := by omega
      have hshare := hoffset warp _ hlane _ hsupplier
      have hmod : (tile * 8 + (lane % 4 * 2 + element)) % 16 =
        tile * 8 + (lane % 4 * 2 + element) := by omega
      simp only [cell, Bool.false_eq_true, if_false, thread_x hblock hsupplier, Register.home,
        Register.rowStart, Register.thread, fragment, View.place, hstrides, hshare, hmod]
      simp
      ring
  constructor
  · intro h
    obtain ⟨warp, hwarp⟩ := hfull
    have htiles : 0 < tiles isA := by cases isA <;> decide
    -- a register of the second column
    obtain ⟨lane, element, hlane, helement, hcol⟩ :
        ∃ lane element, lane < 32 ∧ element < 2 ∧ (cell isA lane element).2 = 1 := by
      cases isA with
      | true => exact ⟨0, 1, by decide, by decide, rfl⟩
      | false => exact ⟨4, 0, by decide, by decide, rfl⟩
    have hr : ⟨warp, lane, 0, element⟩ ∈ registers block isA := ⟨hwarp, hlane, htiles, helement⟩
    have hsame := (hrow _ hr).symm.trans (h _ hr)
    rw [hcol] at hsame
    omega
  · rintro rfl r hr
    rw [hrow r hr, Nat.mul_one]

end standard

/-- Each warp has a tile of 32 rows of its own. -/
def tileView : View := ⟨true, fun thread => thread.x / 32 * 4352, [136, 1]⟩

/-- A load of the standard fragment of a right operand, some rows further down. -/
def shiftedLoad (shift tile element : ℕ) : Load where
  op := 1 + 2 * tile + element
  view := tileView
  indices thread :=
    [shift + (tile * 8 + (thread.x % 32 % 4 * 2 + element)), thread.x % 32 / 4]

def shiftedVector (shift : ℕ) : Vector :=
  .insert (fun _ => .load (shiftedLoad shift 1 1)) [1, 1]
    (.insert (fun _ => .load (shiftedLoad shift 1 0)) [1, 0]
      (.insert (fun _ => .load (shiftedLoad shift 0 1)) [0, 1]
        (.insert (fun _ => .load (shiftedLoad shift 0 0)) [0, 0]
          (.splat 5 (.load (shiftedLoad shift 0 0))))))

/-- One MMA, whose right operand is the lower or the upper half of a tile of 32 rows. -/
def exampleModule (shift : ℕ) : Module where
  smemPadded := true
  operands id :=
    if id = 0 then ⟨[4, 2], true, .other fun _ _ => 0⟩ else ⟨[2, 2], true, shiftedVector shift⟩
  mmas := [⟨0, 1, some 0⟩]
  dominates a b := decide (a < b)

def exampleNew : LdMatrixOp := ⟨false, 0, 5, tileView⟩

/-- Every operation takes place once, and nothing is written. -/
def exampleExecution : Execution := ⟨fun op _ => op, fun op _ => op, fun _ => ∅⟩

theorem replaces_example (shift : ℕ) :
    (1, exampleNew) ∈ runOnOperation (exampleModule shift) :=
  List.mem_singleton_self (1, exampleNew)

theorem example_fragment : Fragment (exampleModule 0) ⟨64, 1, 1⟩ exampleExecution
    ((exampleModule 0).operands 1) false 0 5 tileView := by
  have hfull : (⟨64, 1, 1⟩ : BlockShape).Full 0 := show 32 ≤ 64 by decide
  have hdvd : 32 ∣ (⟨64, 1, 1⟩ : BlockShape).x := by decide
  refine ⟨rfl, rfl, ⟨rfl, rfl⟩, ?_, ?_, fun _ _ _ _ _ _ _ hwrite => hwrite.elim⟩
  · rintro ⟨warp, lane, tile, element⟩ ⟨-, hlane, htile, helement⟩
    have hx := @thread_x ⟨64, 1, 1⟩ warp lane hdvd hlane
    have htile : tile < 2 := htile
    dsimp only at helement
    refine ⟨shiftedLoad 0 tile element, ?_, ?_⟩
    · interval_cases tile <;> interval_cases element <;> rfl
    · simp only [Load.place, shiftedLoad, Register.home, Register.thread, fragment, cell, hx,
        Nat.zero_add]
      rfl
  · refine (rows_iff hdvd rfl ?_ ⟨0, hfull⟩).2 rfl
    intro warp lane hlane lane' hlane'
    show (warp * 32 + lane) % 64 / 32 * 4352 = (warp * 32 + lane') % 64 / 32 * 4352
    omega

theorem standard_kept : firstUse (uses (exampleModule 0)) 1 = some (false, 0) ∧
    Kept (exampleModule 0) ⟨64, 1, 1⟩ exampleExecution ((exampleModule 0).operands 1)
      exampleNew := by
  obtain ⟨hfirst, -, hiff⟩ := replaced_iff (replaces_example 0) ⟨64, 1, 1⟩ exampleExecution
  exact ⟨hfirst, hiff.2 example_fragment⟩

/-- Loads of the lower half are replaced by a load of the upper half. -/
theorem shifted_fails : (1, exampleNew) ∈ runOnOperation (exampleModule 16) ∧
    ¬ Preserves (exampleModule 16) ⟨64, 1, 1⟩ exampleExecution ((exampleModule 16).operands 1)
      exampleNew := by
  refine ⟨replaces_example 16, fun ⟨_, _, hsame⟩ => ?_⟩
  obtain ⟨source, hscalar, hplace, -⟩ := load_of_sameRegister fun history hpossible =>
    hsame history hpossible 0 (show 32 ≤ 64 by decide) 0 (by decide) 0 (by decide) 0 (by decide)
  cases hscalar
  exact absurd hplace (by decide)

end Matcore.Gpu.LdMatrix
