import Matcore.Proof.Forwarding

/-!
# Extents in machine arithmetic

`extent` and `validate` as the code computes them on `uint64_t`, and the indices of the copies and
of the strict product.
-/

namespace Matcore.ClosedHost

open UInt64 (toNat toNat_inj lt_iff_toNat_lt toNat_mul ofNat)
open Prod (snd map)

variable {F : Type}

/-- `numeric_limits<int64_t>::max()`, `numeric_limits<uint64_t>::max()` and `sizeof(float)`. -/
def int64Max64 : UInt64 := 0x7fffffffffffffff

def sizeMax64 : UInt64 := 0xffffffffffffffff

def floatBytes64 : UInt64 := 4

@[simp] theorem toNat_int64Max64 : int64Max64.toNat = int64Max := rfl

@[simp] theorem toNat_sizeMax64 : sizeMax64.toNat = sizeMax := rfl

@[simp] theorem toNat_floatBytes64 : floatBytes64.toNat = floatBytes := rfl

/-- `extent`, with the product as the machine computes it. -/
def extent64 (rows columns : UInt64) : Except Code UInt64 :=
  if rows > int64Max64 ∨ columns > int64Max64 ∨ (rows ≠ 0 ∧ columns > int64Max64 / rows) then
    .error .extentOverflow
  else if rows * columns > sizeMax64 / floatBytes64 ∨ rows * columns > int64Max64 / floatBytes64 then
    .error .extentOverflow
  else .ok (rows * columns)

/-- `ResourceView`, whose access may hold any byte. -/
structure ResourceView64 where
  data : UInt64
  rows : UInt64
  columns : UInt64
  capacityElements : UInt64
  access : UInt8

namespace ResourceView64

def readOnly : UInt8 := 0

def readWrite : UInt8 := 1

/-- `validate`, with the sums and products as the machine computes them. -/
def validate (view : ResourceView64) (write : Bool) : Except Code UInt64 :=
  if view.access ≠ readOnly ∧ view.access ≠ readWrite then .error .invalidView
  else
    match extent64 view.rows view.columns with
    | .error code => .error code
    | .ok elements =>
      if view.capacityElements < elements then .error .insufficientCapacity
      else if write && view.access ≠ readWrite then .error .accessDenied
      else if elements = 0 then .ok elements
      else if view.data = 0 ∨ view.data % floatBytes64 ≠ 0 then .error .invalidView
      else if elements * floatBytes64 > sizeMax64 - view.data then .error .extentOverflow
      else .ok elements

/-- The view of the session model. -/
def toView (view : ResourceView64) : ResourceView where
  data := view.data.toNat
  rows := view.rows.toNat
  columns := view.columns.toNat
  capacityElements := view.capacityElements.toNat
  access := if view.access = readWrite then .readWrite else .readOnly

end ResourceView64

theorem extent_eq_ok {rows columns n : ℕ} : extent rows columns = .ok n ↔
    n = rows * columns ∧ rows ≤ int64Max ∧ columns ≤ int64Max ∧
      rows * columns * floatBytes ≤ int64Max := by
  unfold extent
  have hfits : rows * columns ≤ int64Max / floatBytes ↔ rows * columns * floatBytes ≤ int64Max :=
    Nat.le_div_iff_mul_le floatBytes_pos
  have hlimits : int64Max / floatBytes ≤ sizeMax / floatBytes := by decide
  constructor
  · intro h
    split at h
    · cases h
    split at h
    · cases h
    cases h
    refine ⟨rfl, by omega, by omega, hfits.1 (by omega)⟩
  · rintro ⟨rfl, hr, hc, hbytes⟩
    have hmax : int64Max / floatBytes ≤ int64Max := Nat.div_le_self _ _
    rw [if_neg, if_neg (by omega)]
    rintro (h | h | ⟨hne, h⟩)
    · omega
    · omega
    · have := (Nat.le_div_iff_mul_le (Nat.pos_of_ne_zero hne)).2
        (show columns * rows ≤ int64Max by rw [Nat.mul_comm]; omega)
      omega

/-- No product wraps, so the code accepts what `extent` accepts. -/
theorem extent64_eq (rows columns : UInt64) :
    (extent64 rows columns).map toNat = extent rows.toNat columns.toNat := by
  unfold extent64 extent
  have hzero : rows ≠ 0 ↔ rows.toNat ≠ 0 := by
    rw [Ne, ← toNat_inj]; rfl
  simp only [gt_iff_lt, lt_iff_toNat_lt, UInt64.toNat_div, toNat_int64Max64, hzero,
    toNat_sizeMax64, toNat_floatBytes64]
  split
  · rfl
  have hproduct : (rows * columns).toNat = rows.toNat * columns.toNat := by
    rw [toNat_mul]
    refine Nat.mod_eq_of_lt ?_
    by_cases hr : rows.toNat = 0
    · rw [hr]; simp
    · have := (Nat.le_div_iff_mul_le (Nat.pos_of_ne_zero hr)).1
        (show columns.toNat ≤ int64Max / rows.toNat by omega)
      rw [Nat.mul_comm]
      exact this.trans_lt (by decide)
  rw [hproduct]
  split
  · rfl
  · simp [Except.map, hproduct]

/-- An accepted extent is the exact product. -/
theorem extent64_ok {rows columns n : UInt64} (h : extent64 rows columns = .ok n) :
    extent rows.toNat columns.toNat = .ok n.toNat := by
  rw [← extent64_eq, h]; rfl

variable {n : UInt64}

theorem toNat_bytes {rows columns : ℕ} (h : extent rows columns = .ok n.toNat) :
    (n * floatBytes64).toNat = rows * columns * floatBytes := by
  obtain ⟨hn, -, -, hbytes⟩ := extent_eq_ok.1 h
  rw [toNat_mul, toNat_floatBytes64, hn]
  exact Nat.mod_eq_of_lt (hbytes.trans_lt (by decide))

namespace ResourceView64

/-- **The code validates** as the session model does. -/
theorem validate_eq {view : ResourceView64} {write : Bool}
    (h : view.access = readOnly ∨ view.access = readWrite) :
    (view.validate write).map toNat = ClosedHost.validate view.toView write := by
  unfold validate ClosedHost.validate
  have haccess : view.toView.access = .readWrite ↔ view.access = readWrite := by
    unfold toView
    split <;> simp [*]
  rw [if_neg (by tauto), ← show _ = extent view.toView.rows view.toView.columns from
    extent64_eq view.rows view.columns]
  cases he : extent64 view.rows view.columns with
  | error code => rfl
  | ok n =>
    have hzero : n = 0 ↔ n.toNat = 0 := toNat_inj.symm
    have hdata : view.data = 0 ∨ view.data % floatBytes64 ≠ 0 ↔
        view.data.toNat = 0 ∨ view.data.toNat % floatBytes ≠ 0 := by
      rw [← toNat_inj, Ne, ← toNat_inj, UInt64.toNat_mod]; rfl
    have hwrap : n * floatBytes64 > sizeMax64 - view.data ↔
        n.toNat * floatBytes > sizeMax - view.data.toNat := by
      have hle : view.data ≤ sizeMax64 := UInt64.le_iff_toNat_le.2
        (Nat.le_pred_of_lt view.data.toNat_lt)
      rw [gt_iff_lt, lt_iff_toNat_lt, UInt64.toNat_sub_of_le _ _ hle,
        toNat_bytes (extent64_ok he), (extent_eq_ok.1 (extent64_ok he)).1]
      rfl
    simp only [Except.map, lt_iff_toNat_lt, hzero, hdata, hwrap, Ne, haccess]
    dsimp only [toView]
    split_ifs <;> first | rfl | omega | simp_all

/-- What `validate` promises of a view that it accepts. -/
structure Accepted (view : ResourceView64) (n : UInt64) : Prop where
  extent : extent view.rows.toNat view.columns.toNat = .ok n.toNat
  capacity : n.toNat ≤ view.capacityElements.toNat
  range : view.data.toNat + n.toNat * floatBytes ≤ sizeMax

theorem accepted_of_validate {view : ResourceView64} {write : Bool}
    (h : view.validate write = .ok n) : view.Accepted n := by
  have haccess : view.access = readOnly ∨ view.access = readWrite := by
    unfold validate at h
    split at h
    · cases h
    · tauto
  have hv : ClosedHost.validate view.toView write = .ok n.toNat := by
    rw [← validate_eq haccess, h]; rfl
  have he := extent_of_validate hv
  unfold ClosedHost.validate at hv
  rw [he] at hv
  have hdata : view.toView.data ≤ sizeMax := Nat.le_pred_of_lt view.data.toNat_lt
  have hempty : n.toNat = 0 → n.toNat * floatBytes = 0 := fun h => by rw [h, Nat.zero_mul]
  dsimp only at hv
  refine ⟨he, show n.toNat ≤ view.toView.capacityElements from ?_,
    show view.toView.data + n.toNat * floatBytes ≤ sizeMax from ?_⟩
  all_goals
    repeat' split at hv
    all_goals first
      | cases hv; done
      | omega

end ResourceView64

/-- A `memcpy` between the elements of a view and a storage, of `n * sizeof(float)` bytes. -/
structure CopyInBounds (view : ResourceView64) (s : Storage F) (n : UInt64) : Prop where
  bytes : (n * floatBytes64).toNat = s.elements.length * floatBytes
  capacity : (n * floatBytes64).toNat ≤ view.capacityElements.toNat * floatBytes
  range : view.data.toNat + (n * floatBytes64).toNat ≤ sizeMax

theorem copyInBounds {view : ResourceView64} {s : Storage F} (h : view.Accepted n)
    (hrows : s.rows = view.rows.toNat) (hcolumns : s.columns = view.columns.toNat) :
    CopyInBounds view s n := by
  obtain ⟨hn, -⟩ := extent_eq_ok.1 h.extent
  have hbytes : (n * floatBytes64).toNat = n.toNat * floatBytes := by
    rw [toNat_bytes h.extent, hn]
  constructor
  · rw [hbytes, s.length_eq, hrows, hcolumns, hn]
  · rw [hbytes]
    exact Nat.mul_le_mul_right _ h.capacity
  · rw [hbytes]
    exact h.range

/-- An access to the elements of a storage: the index in exact arithmetic, and as the code computes
it. -/
structure ElementAccess where
  size : ℕ
  exact : ℕ
  computed : UInt64

def ElementAccess.InBounds (a : ElementAccess) : Prop :=
  a.computed.toNat = a.exact ∧ a.exact < a.size

/-- `elements[i * columns + j]`. -/
def Storage.access (s : Storage F) (i columns j : ℕ) : ElementAccess :=
  ⟨s.elements.length, i * columns + j, .ofNat i * .ofNat columns + .ofNat j⟩

/-- The accesses of `strictGemm`, in order. -/
def strictAccesses (lhs rhs result : Storage F) : List ElementAccess :=
  if result.elements.isEmpty then []
  else
    (List.range lhs.rows).flatMap fun i => (List.range rhs.columns).flatMap fun j =>
      ((List.range lhs.columns).flatMap fun k =>
        [lhs.access i lhs.columns k, rhs.access k rhs.columns j]) ++
      [result.access i rhs.columns j]

/-- Storage whose extents `extent` accepts. -/
def Storage.Sized (s : Storage F) : Prop := ∃ n, extent s.rows s.columns = .ok n

theorem access_inBounds {s : Storage F} (hs : s.Sized) {i j : ℕ} (hi : i < s.rows)
    (hj : j < s.columns) : (s.access i s.columns j).InBounds := by
  obtain ⟨n, hn⟩ := hs
  obtain ⟨-, -, -, hbytes⟩ := extent_eq_ok.1 hn
  have hmul : (i + 1) * s.columns ≤ s.rows * s.columns := Nat.mul_le_mul_right _ hi
  rw [Nat.succ_mul] at hmul
  have hlt : i * s.columns + j < s.rows * s.columns := by omega
  have hsize : s.rows * s.columns < 2 ^ 64 := by
    have : s.rows * s.columns ≤ s.rows * s.columns * floatBytes :=
      Nat.le_mul_of_pos_right _ floatBytes_pos
    have : int64Max < 2 ^ 64 := by decide
    omega
  refine ⟨?_, by simpa [Storage.access, s.length_eq] using hlt⟩
  simp only [Storage.access, UInt64.toNat_add, toNat_mul, UInt64.toNat_ofNat', Nat.mod_mul_mod,
    Nat.mul_mod_mod, Nat.mod_add_mod, Nat.add_mod_mod]
  exact Nat.mod_eq_of_lt (hlt.trans hsize)

/-- **No index of the strict product** wraps or leaves its storage. -/
theorem strictAccesses_inBounds {lhs rhs result : Storage F} (hl : lhs.Sized) (hr : rhs.Sized)
    (hresult : result.Sized) (hinner : lhs.columns = rhs.rows) (hrows : result.rows = lhs.rows)
    (hcolumns : result.columns = rhs.columns) :
    ∀ a ∈ strictAccesses lhs rhs result, a.InBounds := by
  intro a ha
  unfold strictAccesses at ha
  split at ha
  · cases ha
  simp only [List.mem_flatMap, List.mem_range, List.mem_append, List.mem_cons, List.not_mem_nil,
    or_false] at ha
  obtain ⟨i, hi, j, hj, ⟨k, hk, rfl | rfl⟩ | rfl⟩ := ha
  · exact access_inBounds hl hi hk
  · exact access_inBounds hr (hinner ▸ hk) hj
  · rw [← hcolumns]
    exact access_inBounds hresult (hrows ▸ hi) (hcolumns ▸ hj)

variable {host : Host F} {s : Storage F} {f rows columns : ℕ}

/-- The handles that calls leave, in any sessions. -/
inductive Issued (host : Host F) : Value F → Prop
  | empty : Issued host none
  | call (w : World F) (r : Request F) : Issued host r.destination → Issued host (r.apply host w).2

theorem sized_of_allocate {attempt : ℕ} {fresh : Storage F}
    (h : host.allocate f attempt rows columns = .ok fresh) (hrows : s.rows = rows)
    (hcolumns : s.columns = columns) : s.Sized := by
  unfold Storage.Sized
  rw [hrows, hcolumns]
  unfold Host.allocate at h
  split at h
  · cases h
  · exact ⟨_, ‹_›⟩

variable {view : ResourceView}

theorem sized_of_readStorage {mem : FlatMemory.Mem F}
    (h : host.readStorage f mem view rows columns = .ok s) : s.Sized := by
  unfold Host.readStorage at h
  split at h
  · cases h
  split at h
  · cases h
  obtain rfl := snapshot_ok h
  unfold Host.snapshot at h
  split at h
  · cases h
  · exact ⟨_, extent_of_validate ‹_›⟩

theorem sized_of_forwardedStorage {published : Value F}
    (h : forwardedStorage view rows columns published = .ok s) : s.Sized := by
  unfold forwardedStorage at h
  split at h
  · cases h
  rename_i n hn
  repeat' split at h
  all_goals cases h
  rename_i hshape
  obtain ⟨hr, hc⟩ := not_or.1 hshape
  exact ⟨n, by rw [not_not.1 hr, not_not.1 hc, hn]⟩

theorem sized_of_gemmStorage {candidate : Candidate} {lhs rhs : Value F} {numeric : Numeric}
    {report : CandidateReport}
    (h : (host.gemmStorage candidate f lhs rhs numeric report).2 = .ok s) : s.Sized := by
  unfold Host.gemmStorage at h
  dsimp only at h
  repeat' split at h
  all_goals cases h
  exact sized_of_allocate ‹_› rfl rfl

theorem sized_of_pairStorage {candidate : Candidate} {a b : Storage F} {d : Value F}
    {second : Numeric} {report : CandidateReport}
    (h : (host.pairStorage candidate f a b d second report).2 = .ok s) : s.Sized := by
  unfold Host.pairStorage at h
  dsimp only at h
  repeat' split at h
  all_goals cases h
  exact sized_of_allocate ‹_› rfl rfl

/-- **A call** leaves the handle it was to assign, or one with accepted extents. -/
theorem apply_result (host : Host F) (w : World F) (r : Request F) :
    (r.apply host w).2 = r.destination ∨ ∃ s : Storage F, (r.apply host w).2 = some s ∧ s.Sized := by
  cases r with
  | read f view rows columns result =>
    rcases Session.read_cases w.session host w.mem f.toNat view rows columns result with
      ⟨-, h⟩ | ⟨-, s, hs, h⟩
    · exact .inl h
    · exact .inr ⟨s, congrArg snd h, sized_of_readStorage hs⟩
  | readForwarded f view rows columns published result =>
    rcases Session.readForwarded_cases w.session host f.toNat view rows columns published result with
      ⟨-, h⟩ | ⟨-, s, hs, h⟩
    · exact .inl h
    · exact .inr ⟨s, congrArg snd h, sized_of_forwardedStorage hs⟩
  | gemm f lhs rhs numeric result =>
    rcases Session.gemm_cases w.session host f.toNat lhs rhs numeric result with
      ⟨-, h⟩ | ⟨-, report, s, hs, h⟩
    · exact .inl h
    · exact .inr ⟨s, congrArg snd h, sized_of_gemmStorage hs⟩
  | gemmStrictFusedPair f₁ f₂ a b d first second result =>
    rcases Session.pair_cases w.session host f₁.toNat f₂.toNat a b d first second result with
      ⟨-, h, -⟩ | ⟨-, a', b', -, h⟩
    · exact .inl h
    rcases Session.pairTail_cases (w.session.pairRetired f₁.toNat first) host f₂.toNat a' b' d second
      result with ⟨-, h'⟩ | ⟨-, report, s, hs, h'⟩
    · exact .inl ((congrArg snd h).trans h')
    · exact .inr ⟨s, congrArg snd (h.trans h'), sized_of_pairStorage hs⟩
  | publish | observe | complete => exact .inl rfl

variable {value : Value F}

/-- Every handle that a session leaves has accepted extents. -/
theorem sized_of_issued (h : Issued host value) : ∀ s ∈ value, s.Sized := by
  induction h with
  | empty => nofun
  | call w r _ ih =>
    intro s hs
    rcases apply_result host w r with h | ⟨s', h, hsized⟩
    · exact ih s (h ▸ hs)
    · rw [h] at hs
      cases hs
      exact hsized

/-- **Extent validation is exact and overflow-safe**, and so are the indices behind it. -/
theorem extents_exact (host : Host F) :
    (∀ rows columns : UInt64,
      (∃ n, extent64 rows columns = .ok n) ↔
        rows.toNat ≤ 2 ^ 63 - 1 ∧ columns.toNat ≤ 2 ^ 63 - 1 ∧
          rows.toNat * columns.toNat ≤ 2 ^ 63 - 1 ∧
          4 * (rows.toNat * columns.toNat) ≤ sizeMax ∧
          4 * (rows.toNat * columns.toNat) ≤ 2 ^ 63 - 1) ∧
      (∀ (view : ResourceView64) (write : Bool) (n : UInt64), view.validate write = .ok n →
        n.toNat = view.rows.toNat * view.columns.toNat ∧
          view.rows.toNat * view.columns.toNat ≤ view.capacityElements.toNat ∧
          view.data.toNat + 4 * (view.rows.toNat * view.columns.toNat) ≤ sizeMax ∧
          ∀ s : Storage F, s.rows = view.rows.toNat → s.columns = view.columns.toNat →
            CopyInBounds view s n) ∧
      ∀ lhs rhs result : Storage F, Issued host (some lhs) → Issued host (some rhs) →
        lhs.columns = rhs.rows → ∀ f attempt,
        host.allocate f attempt lhs.rows rhs.columns = .ok result →
        ∀ a ∈ strictAccesses lhs rhs result, a.InBounds := by
  refine ⟨fun rows columns => ?_, fun view write n h => ?_,
    fun lhs rhs result hl hr hinner f attempt h => ?_⟩
  · have hmax : int64Max = 2 ^ 63 - 1 := rfl
    have hsize : sizeMax = 2 ^ 64 - 1 := rfl
    have hbytes : rows.toNat * columns.toNat * floatBytes = 4 * (rows.toNat * columns.toNat) :=
      Nat.mul_comm _ _
    constructor
    · rintro ⟨n, h⟩
      obtain ⟨-, h⟩ := extent_eq_ok.1 (extent64_ok h)
      omega
    · intro h
      have hok := extent_eq_ok.2 ⟨rfl, h.1, h.2.1, show _ ≤ int64Max by omega⟩
      cases he : extent64 rows columns with
      | ok n => exact ⟨n, rfl⟩
      | error code =>
        rw [← extent64_eq, he] at hok
        cases hok
  · have ha := ResourceView64.accepted_of_validate h
    obtain ⟨hn, -⟩ := extent_eq_ok.1 ha.extent
    refine ⟨hn, hn ▸ ha.capacity, ?_, fun s hrows hcolumns => copyInBounds ha hrows hcolumns⟩
    rw [← hn, Nat.mul_comm]
    exact ha.range
  · have hshape : result.rows = lhs.rows ∧ result.columns = rhs.columns := by
      unfold Host.allocate at h
      repeat' split at h
      all_goals cases h
      exact ⟨rfl, rfl⟩
    exact strictAccesses_inBounds (sized_of_issued hl _ rfl) (sized_of_issued hr _ rfl)
      (sized_of_allocate h hshape.1 hshape.2) hinner hshape.1 hshape.2

/-- The copy of a view at 4096 over a memory that holds its addresses. -/
def copied (rows columns : ℕ) : Storage ℕ :=
  ResourceView.copy ⟨4096, rows, columns, rows * columns, .readOnly⟩ fun a => a

/-- A view of 2x3 that may be written, and the product of the handles that two reads leave. -/
theorem extents_exact_reads :
    let host : Host ℕ := .generatedCpu 0 (· + ·) (· * ·)
    let view : ResourceView64 := ⟨4096, 2, 3, 6, ResourceView64.readWrite⟩
    view.validate true = .ok 6 ∧ CopyInBounds view (copied 2 3) 6 ∧
      ∃ result, host.allocate 3 0 2 4 = .ok result ∧
        (strictAccesses (copied 2 3) (copied 3 4) result).length = 56 ∧
        ∀ a ∈ strictAccesses (copied 2 3) (copied 3 4) result, a.InBounds := by
  intro host view
  have hvalid : view.validate true = .ok 6 := by decide
  have hlhs : Issued host (some (copied 2 3)) :=
    .call ⟨{}, fun a => a, []⟩ (.read 1 ⟨4096, 2, 3, 6, .readOnly⟩ 2 3 none) .empty
  have hrhs : Issued host (some (copied 3 4)) :=
    .call ⟨{}, fun a => a, []⟩ (.read 1 ⟨4096, 3, 4, 12, .readOnly⟩ 3 4 none) .empty
  exact ⟨hvalid, ((extents_exact host).2.1 view true 6 hvalid).2.2.2 _ rfl rfl, _, rfl, by decide,
    (extents_exact host).2.2 _ _ _ hlhs hrhs rfl 3 0 rfl⟩

open FlatMemory ClosedRegion

variable {ps : Parameters} {args : Arguments}

/-- The address is in the extents of the view. -/
def ResourceView.Spans (view : ResourceView) (a : ℕ) : Prop :=
  view.data ≤ a ∧ a < view.data + floatBytes * (view.rows * view.columns)

/-- The host may write the address through the view. -/
def ResourceView.Covers (view : ResourceView) (a : ℕ) : Prop :=
  view.access = .readWrite ∧ view.Spans a

theorem readWrite_of_validate {n : ℕ} (h : validate view true = .ok n) :
    view.access = .readWrite := by
  unfold validate at h
  split at h
  · cases h
  split at h
  · cases h
  split at h
  · cases h
  rename_i haccess
  simpa using haccess

/-- What a publication changes lies in its destination. -/
theorem covers_of_write {mem : Mem F} {storage : Storage F} {a : ℕ}
    (h : publishStorage value view = .ok storage)
    (hne : writeCells floatBytes mem view.data storage.elements a ≠ mem a) : view.Covers a := by
  obtain rfl := publishStorage_ok h
  unfold publishStorage at h
  cases hv : validate view true with
  | error code => simp only [hv, reduceCtorEq] at h
  | ok elements =>
    simp only [hv] at h
    split at h
    · cases h
    rename_i hshape
    obtain ⟨hrows, hcolumns⟩ := not_or.1 hshape
    unfold writeCells at hne
    split at hne
    swap
    · exact absurd rfl hne
    rename_i hcell
    have hi : (a - view.data) / floatBytes < storage.elements.length := by
      by_contra hout
      exact hne (List.getD_eq_default _ _ (Nat.le_of_not_lt hout))
    rw [storage.length_eq, not_not.1 hrows, not_not.1 hcolumns,
      Nat.div_lt_iff_lt_mul floatBytes_pos] at hi
    refine ⟨readWrite_of_validate hv, hcell.1, ?_⟩
    rw [Nat.mul_comm floatBytes]
    omega

variable {request : Request F}

/-- A call writes where its publication goes. -/
theorem apply_outside {w : World F} {env : Env F} {c : Call} {a : ℕ}
    (h : ps.request args env c = some (request, c.target))
    (hout : ∀ f value resource, c = .publish f value resource → ¬ (args.view resource).Covers a) :
    (request.apply host w).1.mem a = w.mem a := by
  by_cases htarget : c.target = none
  swap
  · rw [(request_target h).2 htarget]
  cases c with
  | publish f value resource =>
    obtain ⟨value', -, rfl⟩ := request_publish h
    by_contra hne
    rcases Session.publish_cases w.session host w.mem (ofNat f).toNat value'
      (args.view resource) with ⟨-, hmem⟩ | ⟨-, storage, hv, hp⟩
    · exact hne (congrFun hmem a)
    · exact hout f value resource rfl
        (covers_of_write hv fun heq => hne ((congrFun (congrArg snd hp) a).trans heq))
  | observe f resource =>
    simp only [Parameters.request, Option.bind_eq_bind, Option.bind_eq_some_iff, Option.pure_def,
      Option.some.injEq, Prod.mk.injEq] at h
    obtain ⟨_, -, rfl, -⟩ := h
    rfl
  | _ => cases htarget

/-- **What an emitted region writes.** Under every plan, an address that the function changes lies
in a view that may be written, of a resource that the region publishes to. -/
theorem region_writes {program : Program} (h : verifyProgram program = .ok ())
    {region : Region} (hregion : region ∈ program.regions) {o : Optimization} {plan : Plan}
    (hp : deriveClosedHostPlan region.body o = .ok plan) (host : Host F) (args : Arguments)
    (candidate : Candidate) (mem : Mem F) :
    ∃ emission status w, emitClosedHostV1 region plan = some emission ∧
      emission.call args host ⟨{ candidate }, mem, []⟩ = some (status, w) ∧
      ∀ a, w.mem a ≠ mem a → ∃ op f, (op, f) ∈ numbered region.body 1 ∧ op.kind = .publish ∧
        (args.view op.resource).Covers a := by
  obtain ⟨ctx, after, -, -, hv⟩ := verifyBody_of_program h hregion
  obtain ⟨emission, he, hof⟩ := emission_of_plan (nested_of_verify hv) (plan_of_derive hp)
  obtain ⟨status, w, hcall, -⟩ := call_of_admitted h hregion hof host args candidate mem
  refine ⟨emission, status, w, he, hcall, fun a hne => ?_⟩
  by_contra hout
  have hexec : ∀ flow, emission.block.exec emission.parameters args host (fun _ => none)
      ⟨{ candidate }, mem, []⟩ = some flow → flow.world.mem a = mem a := by
    refine fun flow hflow => exec_keeps (P := fun w => w.mem a = mem a)
      (fun c hc env w request hreq hw => ?_) hflow rfl
    refine (apply_outside hreq fun f value resource hpublish hcovers => hout ?_).trans hw
    obtain ⟨op, hop, hkind, -, hresource⟩ : Call.Names (numbered region.body 1)
        (.publish f value resource) := hpublish ▸ names_of_emits hof.emits (fun _ hx => hx) c hc
    exact ⟨op, f, hop, hkind, hresource ▸ hcovers⟩
  unfold Emission.call at hcall
  rw [if_neg (by simp [World.status]), if_neg (by simp [World.status, Status.pristine])] at hcall
  split at hcall
  · cases hcall
  · cases hcall
    exact hne (hexec (.returned _) ‹_›)
  · rename_i hflow
    cases hcall
    exact hne (hexec _ hflow)

theorem region_writes_twoLayer :
    let view : ResourceView :=
      { data := 64, rows := 1, columns := 1, capacityElements := 1, access := .readWrite }
    ∃ emission status w, emitClosedHostV1 twoLayer {} = some emission ∧
      emission.call ⟨fun _ => view, fun _ => 0⟩ (.generatedCpu 0 (· + ·) (· * ·) : Host ℕ)
        ⟨{}, fun _ => 5, []⟩ = some (status, w) ∧ ∀ a, a < 64 ∨ 68 ≤ a → w.mem a = 5 := by
  intro view
  obtain ⟨emission, status, w, he, hcall, hw⟩ :=
    region_writes verify_twoLayer (List.mem_singleton.2 rfl)
      (show deriveClosedHostPlan twoLayer.body .none = .ok {} from rfl)
      (.generatedCpu 0 (· + ·) (· * ·) : Host ℕ) ⟨fun _ => view, fun _ => 0⟩ .nativeStrict fun _ => 5
  refine ⟨emission, status, w, he, hcall, fun a ha => ?_⟩
  by_contra hne
  obtain ⟨op, f, -, -, -, hle, hlt⟩ := hw a hne
  change a < 64 + 4 * (1 * 1) at hlt
  change 64 ≤ a at hle
  omega

/-- The addresses of the views that a function is given. -/
def Parameters.reach (ps : Parameters) (args : Arguments) : Set ℕ :=
  {a | ∃ view id, ps.resource args id = some view ∧ view.Spans a}

open Classical in
/-- The world with other contents outside of some addresses. -/
noncomputable def World.patch (s : Set ℕ) (other : Mem F) (w : World F) : World F :=
  { w with mem := s.piecewise w.mem other }

noncomputable def Flow.patch (s : Set ℕ) (other : Mem F) : Flow F → Flow F
  | .next env w => .next env (w.patch s other)
  | .returned w => .returned (w.patch s other)

variable {w : World F} {s : Set ℕ} {other : Mem F} {view : ResourceView}

theorem mem_reach {id : Id} (h : ps.resource args id = some view) (a : ℕ) (ha : view.Spans a) :
    a ∈ ps.reach args :=
  ⟨view, id, h, ha⟩

/-- A copy of a view reads the cells of the view only. -/
theorem copy_patch (h : ∀ a, view.Spans a → a ∈ s) :
    view.copy (w.patch s other).mem = view.copy w.mem := by
  unfold ResourceView.copy readCells
  congr 1
  refine List.map_congr_left fun i hi => ?_
  have hcell : cell floatBytes view.data i ∈ s := h _ ⟨le_cell _ _ _, Nat.add_lt_add_left
    (Nat.mul_lt_mul_of_pos_left (List.mem_range.1 hi) floatBytes_pos) _⟩
  simp [World.patch, hcell]

/-- A publication writes them only. -/
theorem publish_patch {f : ℕ} (h : ∀ a, view.Spans a → a ∈ s) :
    (w.patch s other).publish host f value view = (w.publish host f value view).patch s other := by
  unfold World.publish Session.publish World.patch
  dsimp only
  obtain ⟨session, go⟩ := w.session.begin host f
  cases go with
  | false => rfl
  | true =>
    cases hv : publishStorage value view with
    | error code => rfl
    | ok storage =>
      refine congrArg (World.mk _ · _) (funext fun a => ?_)
      by_cases ha : a ∈ s
      · simp [writeCells, ha]
      · have hkept : writeCells floatBytes (w.patch s other).mem view.data storage.elements a =
            (w.patch s other).mem a := by
          by_contra hne
          exact ha (h a (covers_of_write hv hne).2)
        simpa [World.patch, ha] using hkept

theorem apply_patch {c : Call} {target : Option Id}
    (h : ps.request args env c = some (request, target)) :
    request.apply host (w.patch (ps.reach args) other) =
      ((request.apply host w).1.patch (ps.reach args) other, (request.apply host w).2) := by
  cases c <;> simp only [Parameters.request, Option.bind_eq_bind, Option.bind_eq_some_iff,
    Option.pure_def, Option.some.injEq, Prod.mk.injEq] at h
  case read =>
    obtain ⟨view, hview, _, -, _, -, _, -, rfl, -⟩ := h
    simp only [Request.apply, Session.read, Host.readStorage, Host.snapshot,
      copy_patch (mem_reach hview)]
    rfl
  case observe =>
    obtain ⟨view, hview, rfl, -⟩ := h
    simp only [Request.apply, Session.observe, Host.snapshot, copy_patch (mem_reach hview)]
    rfl
  case publish =>
    obtain ⟨value, -, view, hview, rfl, -⟩ := h
    simp only [Request.apply, publish_patch (mem_reach hview)]
  case readForwarded =>
    obtain ⟨_, -, _, -, _, -, _, -, _, -, rfl, -⟩ := h
    rfl
  case gemm =>
    obtain ⟨_, -, _, -, _, -, rfl, -⟩ := h
    rfl
  case gemmStrictFusedPair =>
    obtain ⟨_, -, _, -, _, -, _, -, rfl, -⟩ := h
    rfl

theorem exec_patch (block : Block) (env : Env F) (w : World F) :
    block.exec ps args host env (w.patch (ps.reach args) other) =
      (block.exec ps args host env w).map (Flow.patch (ps.reach args) other) := by
  induction block generalizing env w with
  | nil => rfl
  | declare id rest ih =>
    unfold Block.exec
    split
    · rfl
    · exact ih _ _
  | call c rest ih =>
    unfold Block.exec
    cases hreq : ps.request args env c with
    | none => rfl
    | some x =>
      simp only [apply_patch hreq]
      split
      · rw [if_pos ‹_›]; exact ih _ _
      · rw [if_neg ‹_›]; rfl
  | branch lhs comparison rhs t e rest iht ihe ihr =>
    unfold Block.exec
    split
    · rename_i x y _ _
      rw [iht, ihe, ← apply_ite (Option.map (Flow.patch (ps.reach args) other))]
      rcases (if Comparison.holds comparison x y = true then t.exec ps args host env w
        else e.exec ps args host env w) with _ | ⟨inner, w⟩ | w
      · rfl
      · exact ihr _ _
      · rfl
    · rfl

/-- **An emitted function sees and changes its views only.** Other contents elsewhere stay as they
are and make no difference. -/
theorem call_patch (emission : Emission) (args : Arguments) (host : Host F) (w : World F)
    (other : Mem F) :
    let patch := World.patch (emission.parameters.reach args) other
    emission.call args host (patch w) = (emission.call args host w).map (map id patch) := by
  intro patch
  have hstatus : (patch w).status = w.status := rfl
  unfold Emission.call
  rw [hstatus, exec_patch]
  split
  · rfl
  split
  · rfl
  rcases emission.block.exec emission.parameters args host (fun _ => none) w with _ | _ | _ <;> rfl

end Matcore.ClosedHost
