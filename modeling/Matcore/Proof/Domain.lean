import Matcore.Composition.Domain
import Matcore.Lib.LoopNest

/-!
# A map over every element

An accepted domain names elements of its tensor, each in bounds, and some. A list of coordinates
never names all of them; a slice does not where some dimension leaves an index out
(`verified_iff`). A step above one leaves out nothing of a dimension with a single index, and the
verifier takes it for a proper slice (`stepped_row_complete`).
-/

namespace Matcore.Composition

open Except (error_ite_eq_ok ite_error_eq_ok bind_eq_ok)
open Mlir (Attribute Entries ascii)
open TwoGemm (asArray)
open LoopNest (points mem_points)

/-- The indices of an interval. -/
def Interval.Covers (interval : Interval) (i : ℕ) : Prop :=
  interval.first ≤ i ∧ i < interval.last ∧ (i - interval.first) % interval.increment = 0

/-- An interval that names every index of its dimension. -/
def Interval.Full (interval : Interval) (extent : ℕ) : Prop :=
  interval.first = 0 ∧ interval.last = extent ∧ (interval.increment = 1 ∨ extent = 1)

/-- The elements a map applies to, of those of its tensor; a mask is not known before it runs. -/
def Domain.elements (shape : List ℕ) : Domain → Option (Set (List ℕ))
  | .all => some {point | point ∈ points shape}
  | .mask => none
  | .slice intervals => some {point | List.Forall₂ Interval.Covers intervals point}
  | .indices coordinates => some {point | point ∈ coordinates}

/-- The elements are some of the tensor's, and a list of them is in order. -/
def Domain.WellFormed (shape : List ℕ) (domain : Domain) : Prop :=
  (∀ elements, domain.elements shape = some elements →
      elements.Nonempty ∧ elements ⊆ {point | point ∈ points shape}) ∧
    ∀ coordinates, domain = .indices coordinates →
      coordinates.Pairwise (· < ·) ∧ coordinates.Nodup

/-- Only `all` is the whole tensor. -/
def Domain.Canonical (shape : List ℕ) (domain : Domain) : Prop :=
  domain.elements shape = some {point | point ∈ points shape} → domain = .all

/-- Some dimension of a slice leaves an index out. -/
def Domain.Narrow (shape : List ℕ) : Domain → Prop
  | .slice intervals => ¬ List.Forall₂ Interval.Full intervals shape
  | _ => True

/-- What is checked of one dimension. -/
structure Interval.Verified (interval : Interval) (extent : ℕ) : Prop where
  lt : interval.first < interval.last
  le : interval.last ≤ extent
  pos : 0 < interval.increment

variable {shape : List ℕ}

theorem verifyStaticCoordinate_eq_ok {encoded : Attribute} {upperBound value : ℕ} {context : String}
    {allow : Bool} (h : verifyStaticCoordinate encoded upperBound context allow = .ok value) :
    if allow then value ≤ upperBound else value < upperBound := by
  unfold verifyStaticCoordinate at h
  split at h
  · cases h
  · next decoded _ =>
    obtain ⟨hneg, h⟩ := error_ite_eq_ok.1 h
    obtain ⟨hbound, h⟩ := ite_error_eq_ok.1 h
    cases h
    cases allow <;> simp only [Bool.false_eq_true, if_true, if_false] at hbound ⊢ <;> omega

variable {interval : Interval}

theorem verifyInterval_eq_ok {entry : ℕ × Attribute × Attribute × Attribute}
    (h : verifyInterval entry = .ok interval) : interval.Verified entry.1 := by
  obtain ⟨first, _, h⟩ := bind_eq_ok h
  obtain ⟨last, hlast, h⟩ := bind_eq_ok h
  have hle := verifyStaticCoordinate_eq_ok hlast
  split at h
  · cases h
  · next increment _ =>
    obtain ⟨hne, h⟩ := error_ite_eq_ok.1 h
    cases h
    simp only [Bool.or_eq_true, decide_eq_true_eq, not_or] at hne
    exact ⟨by simpa using hne.1, hle, by simp only; omega⟩

/-- The indices of a verified interval are in bounds, and its first is one of them. -/
theorem Interval.Verified.covers {extent : ℕ} (h : interval.Verified extent) :
    interval.Covers interval.first ∧ ∀ i, interval.Covers i → i < extent := by
  refine ⟨⟨le_rfl, h.lt, by rw [Nat.sub_self, Nat.zero_mod]⟩, fun i hi => ?_⟩
  exact lt_of_lt_of_le hi.2.1 h.le

theorem Interval.Verified.full_iff {extent : ℕ} (h : interval.Verified extent) :
    (∀ i < extent, interval.Covers i) ↔ interval.Full extent := by
  have hlt := h.lt
  have hle := h.le
  have hpos := h.pos
  constructor
  · intro hall
    have hfirst := (hall 0 (by omega)).1
    have hlast := (hall (extent - 1) (by omega)).2.1
    refine ⟨by omega, by omega, ?_⟩
    by_contra hne
    push Not at hne
    -- the second index is not a multiple of a step above one
    have hmod := (hall 1 (by omega)).2.2
    rw [show interval.first = 0 by omega, Nat.sub_zero, Nat.mod_eq_of_lt (by omega)] at hmod
    exact absurd hmod Nat.one_ne_zero
  · rintro ⟨hfirst, hlast, hstep⟩ i hi
    refine ⟨by omega, by omega, ?_⟩
    rcases hstep with hstep | hextent
    · rw [hstep, Nat.mod_one]
    · rw [show i - interval.first = 0 by omega, Nat.zero_mod]

section Slice

variable {intervals : List Interval}

section

variable (h : List.Forall₂ Interval.Verified intervals shape)

include h

theorem firsts_covered : List.Forall₂ Interval.Covers intervals (intervals.map Interval.first) := by
  induction h with
  | nil => exact .nil
  | cons hverified _ ih => exact .cons hverified.covers.1 ih

theorem covered_mem_points {point : List ℕ}
    (hcovered : List.Forall₂ Interval.Covers intervals point) : point ∈ points shape := by
  rw [mem_points]
  induction h generalizing point with
  | nil =>
    cases hcovered
    exact .nil
  | cons hverified _ ih =>
    obtain _ | ⟨hi, hrest⟩ := hcovered
    exact .cons (hverified.covers.2 _ hi) (ih hrest)

/-- A slice names every element exactly when each of its intervals is full. -/
theorem points_covered_iff :
    (∀ point ∈ points shape, List.Forall₂ Interval.Covers intervals point) ↔
      List.Forall₂ Interval.Full intervals shape := by
  simp only [mem_points]
  induction h with
  | nil =>
    refine ⟨fun _ => .nil, fun _ point hpoint => ?_⟩
    cases hpoint
    exact .nil
  | @cons interval extent intervals shape hverified hrest ih =>
    rw [List.forall₂_cons, ← hverified.full_iff, ← ih]
    constructor
    · intro hall
      have hfirsts := mem_points.1 (covered_mem_points hrest (firsts_covered hrest))
      have hfirst := hverified.covers.2 _ hverified.covers.1
      refine ⟨fun i hi => ?_, fun point hpoint => ?_⟩
      · exact (List.forall₂_cons.1 (hall _ (.cons hi hfirsts))).1
      · exact (List.forall₂_cons.1 (hall _ (.cons hfirst hpoint))).2
    · rintro ⟨hindex, hpoints⟩ point hpoint
      obtain _ | ⟨hi, hpoint⟩ := hpoint
      exact .cons (hindex _ hi) (hpoints _ hpoint)

end

end Slice

variable {decoded : Domain} {domain : Entries}

theorem verifySlice_eq_ok (h : verifySlice domain shape = .ok decoded) :
    ∃ intervals, decoded = .slice intervals ∧
      List.Forall₂ Interval.Verified intervals shape := by
  obtain ⟨-, -, h⟩ := bind_eq_ok h
  split at h
  · next begins ends steps _ _ _ =>
    obtain ⟨hlengths, h⟩ := error_ite_eq_ok.1 h
    obtain ⟨intervals, hintervals, h⟩ := bind_eq_ok h
    obtain ⟨-, h⟩ := ite_error_eq_ok.1 h
    cases h
    simp only [Bool.or_eq_true, decide_eq_true_eq, not_or, not_not] at hlengths
    have hverified := (Except.forall₂_of_mapM hintervals).imp fun _ _ => verifyInterval_eq_ok
    have hshape : (shape.zip (begins.zip (ends.zip steps))).map Prod.fst = shape :=
      List.map_fst_zip (by simp only [List.length_zip]; omega)
    refine ⟨intervals, rfl, ?_⟩
    rw [← hshape, List.forall₂_map_right_iff]
    exact hverified.flip
  · cases h

theorem decodeCoordinates_eq_ok {encoded : List Attribute} {seen : List String}
    {decoded : List (List ℕ)} (h : decodeCoordinates shape encoded seen = .ok decoded) :
    decoded.length = encoded.length ∧ ∀ point ∈ decoded, point ∈ points shape := by
  induction encoded generalizing seen decoded with
  | nil =>
    cases h
    exact ⟨rfl, nofun⟩
  | cons first rest ih =>
    unfold decodeCoordinates at h
    split at h
    · cases h
    · next coordinate _ =>
      obtain ⟨hlength, h⟩ := error_ite_eq_ok.1 h
      obtain ⟨point, hpoint, h⟩ := bind_eq_ok h
      obtain ⟨-, h⟩ := error_ite_eq_ok.1 h
      obtain ⟨others, hothers, h⟩ := bind_eq_ok h
      cases h
      obtain ⟨hcount, hmem⟩ := ih hothers
      refine ⟨by rw [List.length_cons, List.length_cons, hcount], ?_⟩
      refine List.forall_mem_cons.2 ⟨mem_points.2 ?_, hmem⟩
      have hbounds := (Except.forall₂_of_mapM hpoint).imp fun _ _ => verifyStaticCoordinate_eq_ok
      have hshape : (coordinate.zip shape).map Prod.snd = shape :=
        List.map_snd_zip (by omega)
      rw [← hshape, List.forall₂_map_right_iff]
      exact hbounds.flip

/-- Without an overflow the count is exact, and an overflow is above every word. -/
theorem elementCount_spec (hpos : ∀ extent ∈ shape, 0 < extent) {count : ℕ} (hcount : 0 < count) :
    elementCount count shape = some (count * shape.prod) ∨ 2 ^ 64 ≤ count * shape.prod := by
  induction shape generalizing count with
  | nil => exact Or.inl (by rw [elementCount, List.prod_nil, Nat.mul_one])
  | cons extent rest ih =>
    obtain ⟨hextent, hrest⟩ := List.forall_mem_cons.1 hpos
    rw [elementCount, List.prod_cons, ← Nat.mul_assoc]
    split_ifs with hlt
    · refine Or.inr ?_
      have hover := (Nat.div_lt_iff_lt_mul hcount).1 hlt
      have hprod : 0 < rest.prod := List.prod_pos (R := ℕ) hrest
      rw [Nat.mul_comm extent] at hover
      exact le_trans (by omega) (Nat.le_mul_of_pos_right _ hprod)
    · exact ih hrest (Nat.mul_pos hcount hextent)

theorem verifyIndices_eq_ok (hpos : ∀ extent ∈ shape, 0 < extent)
    (hlt : ∀ coordinates, asArray (domain.get "coordinates") = some coordinates →
      coordinates.length < 2 ^ 64) (h : verifyIndices domain shape = .ok decoded) :
    ∃ coordinates, decoded = .indices coordinates ∧ coordinates ≠ [] ∧
      (∀ point ∈ coordinates, point ∈ points shape) ∧ coordinates.Pairwise (· < ·) ∧
      coordinates.length ≠ shape.prod := by
  obtain ⟨-, -, h⟩ := bind_eq_ok h
  split at h
  · cases h
  · next encoded hencoded =>
    obtain ⟨hne, h⟩ := error_ite_eq_ok.1 h
    obtain ⟨coordinates, hdecoded, h⟩ := bind_eq_ok h
    obtain ⟨hchain, h⟩ := error_ite_eq_ok.1 h
    obtain ⟨hcount, h⟩ := error_ite_eq_ok.1 h
    cases h
    obtain ⟨hlength, hmem⟩ := decodeCoordinates_eq_ok hdecoded
    refine ⟨coordinates, rfl, ?_, hmem, List.isChain_iff_pairwise.1 (not_not.1 hchain), ?_⟩
    · rintro rfl
      exact hne (List.isEmpty_iff.2 (List.length_eq_zero_iff.1 hlength.symm))
    · intro heq
      have hword := hlt encoded hencoded
      rcases elementCount_spec hpos Nat.one_pos with hexact | hover
      · rw [Nat.one_mul, ← heq, hlength] at hexact
        exact hcount hexact
      · omega

/-- Coordinates in order, fewer or more than the elements, leave an element out. -/
theorem exists_not_mem {coordinates : List (List ℕ)} (hnodup : coordinates.Nodup)
    (hmem : ∀ point ∈ coordinates, point ∈ points shape)
    (hlength : coordinates.length ≠ shape.prod) :
    ¬ ∀ point ∈ points shape, point ∈ coordinates := by
  intro hall
  have hle := (List.subperm_of_subset hnodup hmem).length_le
  have hge := (List.subperm_of_subset (LoopNest.nodup_points shape) hall).length_le
  rw [LoopNest.length_points] at hle hge
  omega

variable {type : RankedTensorType}

theorem verifyMask_eq_ok {mask : Option (Option RankedTensorType)}
    (h : verifyMask domain mask type = .ok decoded) : decoded = .mask := by
  obtain ⟨-, -, h⟩ := bind_eq_ok h
  obtain ⟨-, -, h⟩ := bind_eq_ok h
  split at h
  · cases h
  · cases h
  · obtain ⟨-, h⟩ := error_ite_eq_ok.1 h
    obtain ⟨-, h⟩ := error_ite_eq_ok.1 h
    obtain ⟨-, h⟩ := error_ite_eq_ok.1 h
    cases h
    rfl

theorem verifyDomain_eq_ok {operation : MapOp} (hshape : type.staticShape = some shape)
    (hpos : ∀ extent ∈ shape, 0 < extent) (h : verifyDomain operation type = .ok decoded) :
    decoded = .all ∨ decoded = .mask ∨
      (∃ intervals, decoded = .slice intervals ∧
        List.Forall₂ Interval.Verified intervals shape) ∨
      ∃ coordinates, decoded = .indices coordinates ∧ coordinates ≠ [] ∧
        (∀ point ∈ coordinates, point ∈ points shape) ∧ coordinates.Pairwise (· < ·) ∧
        coordinates.length ≠ shape.prod := by
  unfold verifyDomain at h
  dsimp only at h
  split at h
  · cases h
  · next kind _ =>
    obtain ⟨-, h⟩ := error_ite_eq_ok.1 h
    by_cases hall : kind = ascii "all"
    · rw [if_pos hall] at h
      obtain ⟨-, -, h⟩ := bind_eq_ok h
      obtain ⟨-, h⟩ := error_ite_eq_ok.1 h
      cases h
      exact Or.inl rfl
    · rw [if_neg hall] at h
      obtain ⟨-, h⟩ := error_ite_eq_ok.1 h
      by_cases hmask : kind = ascii "mask"
      · rw [if_pos hmask] at h
        exact Or.inr (Or.inl (verifyMask_eq_ok h))
      · rw [if_neg hmask] at h
        obtain ⟨-, h⟩ := error_ite_eq_ok.1 h
        rw [hshape] at h
        dsimp only at h
        by_cases hslice : kind = ascii "slice"
        · rw [if_pos hslice] at h
          exact Or.inr (Or.inr (Or.inl (verifySlice_eq_ok h)))
        · rw [if_neg hslice] at h
          obtain ⟨-, h⟩ := ite_error_eq_ok.1 h
          exact Or.inr (Or.inr (Or.inr (verifyIndices_eq_ok hpos operation.coordinates_lt h)))

theorem Domain.canonical_iff {domain : Domain} {elements : Set (List ℕ)}
    (hne : domain ≠ .all) (helements : domain.elements shape = some elements)
    (hsub : elements ⊆ {point | point ∈ points shape}) :
    domain.Canonical shape ↔ ¬ ∀ point ∈ points shape, point ∈ elements := by
  unfold Domain.Canonical
  rw [helements, Option.some.injEq]
  constructor
  · exact fun hcanonical hall => hne (hcanonical (hsub.antisymm hall))
  · exact fun hmissing heq => absurd (fun point hpoint => heq ▸ hpoint) hmissing

/-- **When only `domain(all)` is the whole tensor**: of every domain the verifier accepts on a
static shape without empty dimensions. -/
theorem verified_iff (operation : MapOp) (type : RankedTensorType) (shape : List ℕ)
    (domain : Domain) (hshape : type.staticShape = some shape)
    (hpos : ∀ extent ∈ shape, 0 < extent) (h : verifyDomain operation type = .ok domain) :
    domain.WellFormed shape ∧ (domain.Canonical shape ↔ domain.Narrow shape) := by
  rcases verifyDomain_eq_ok hshape hpos h with
    rfl | rfl | ⟨intervals, rfl, hverified⟩ | ⟨coordinates, rfl, hne, hmem, hsorted, hlength⟩
  · refine ⟨⟨fun elements helements => ?_, nofun⟩, iff_of_true (fun _ => rfl) trivial⟩
    cases helements
    have hlength : 0 < (points shape).length := by
      rw [LoopNest.length_points]
      exact List.prod_pos (R := ℕ) hpos
    exact ⟨List.exists_mem_of_length_pos hlength, subset_rfl⟩
  · exact ⟨⟨nofun, nofun⟩, iff_of_true nofun trivial⟩
  · have hsub : {point | List.Forall₂ Interval.Covers intervals point} ⊆
        {point | point ∈ points shape} := fun _ => covered_mem_points hverified
    refine ⟨⟨fun elements helements => ?_, nofun⟩, ?_⟩
    · cases helements
      exact ⟨⟨_, firsts_covered hverified⟩, hsub⟩
    · have hne : Domain.slice intervals ≠ .all := nofun
      rw [Domain.canonical_iff hne rfl hsub]
      exact (points_covered_iff hverified).not
  · have hsub : {point | point ∈ coordinates} ⊆ {point | point ∈ points shape} := hmem
    have hnodup : coordinates.Nodup := hsorted.nodup
    refine ⟨⟨fun elements helements => ?_, fun listed hlisted => ?_⟩, ?_⟩
    · cases helements
      exact ⟨List.exists_mem_of_ne_nil _ hne, hsub⟩
    · cases hlisted
      exact ⟨hsorted, hnodup⟩
    · have hform : Domain.indices coordinates ≠ .all := nofun
      rw [Domain.canonical_iff hform rfl hsub]
      exact iff_of_true (exists_not_mem hnodup hmem hlength) trivial

/-- A slice of every row and these columns, of a row of four. -/
def rowSlice (first last rowStep columnStep : ℤ) : MapOp where
  domain := .ofList [("begin", .array (.ofList [.integer 64 0, .integer 64 first])),
    ("end", .array (.ofList [.integer 64 1, .integer 64 last])), ("kind", .string (ascii "slice")),
    ("step", .array (.ofList [.integer 64 rowStep, .integer 64 columnStep])),
    ("version", .integer 32 1)]
  mask := none
  outsideDomain := "preserve_input"
  coordinates_lt coordinates h := by simp [Entries.ofList, asArray] at h

def row : RankedTensorType := ⟨[some 1, some 4], .other (ascii "f32"), none⟩

/-- Every other column but the first is left out. -/
theorem stepped_columns_narrow :
    ∃ domain, verifyDomain (rowSlice 1 4 1 2) row = .ok domain ∧ domain.WellFormed [1, 4] ∧
      domain.Canonical [1, 4] := by
  have hverified : verifyDomain (rowSlice 1 4 1 2) row = .ok (.slice [⟨0, 1, 1⟩, ⟨1, 4, 2⟩]) := by
    conv => lhs; cbv
  obtain ⟨hformed, hiff⟩ := verified_iff _ _ [1, 4] _ rfl (by decide) hverified
  refine ⟨_, hverified, hformed, hiff.2 fun hfull => ?_⟩
  obtain _ | ⟨-, hrest⟩ := hfull
  obtain _ | ⟨hcolumns, -⟩ := hrest
  exact absurd hcolumns.1 Nat.one_ne_zero

/-- A step over the only row leaves nothing out, and the verifier accepts it. -/
theorem stepped_row_complete :
    ¬ ∀ operation type shape domain, RankedTensorType.staticShape type = some shape →
      (∀ extent ∈ shape, 0 < extent) → verifyDomain operation type = .ok domain →
        domain.Canonical shape := by
  intro h
  have hverified : verifyDomain (rowSlice 0 4 2 1) row = .ok (.slice [⟨0, 1, 2⟩, ⟨0, 4, 1⟩]) := by
    conv => lhs; cbv
  have hcanonical := h _ _ [1, 4] _ rfl (by decide) hverified
  have hiff := (verified_iff _ _ [1, 4] _ rfl (by decide) hverified).2
  refine hiff.1 hcanonical (.cons ⟨rfl, rfl, Or.inr rfl⟩ (.cons ⟨rfl, rfl, Or.inl rfl⟩ .nil))

end Matcore.Composition
