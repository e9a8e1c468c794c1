import Matcore.Engine.FamilyB

/-!
# What the fused kernel of two products leaves

The kernel computes a row of the intermediate matrix once for each column of the output. An element
of the output is what the chain gives for it, and is stored once.
-/

namespace Matcore.Engine.FamilyB

open Barriers Tiles
open List (range mem_range)

section value
variable {E : Type} (arith : Arith E) (kernel : Kernel) (x : ℕ → List ℕ → E)

/-- A node of the chain, on elements. -/
def GlueSpec.apply (spec : GlueSpec) (row col : ℕ) (value : E) : E :=
  match spec.boundaryArg with
  | none => arith.elementwise spec.kind value value
  | some arg =>
    if spec.valueInputPos = 0 then arith.elementwise spec.kind value (x arg [row, col])
    else arith.elementwise spec.kind (x arg [row, col]) value

namespace Kernel

def product (i j : ℕ) : E :=
  contraction arith kernel.k1 (fun i p => x kernel.aArg (kernel.a.element i p))
    (fun p j => x kernel.bArg (kernel.b.element p j)) i j

/-- An element of the matrix between the two products. -/
def fused (i j : ℕ) : E :=
  kernel.glue.foldl (fun value spec => spec.apply arith x i j value) (kernel.product arith x i j)

/-- What the kernel computes. -/
def chain (i j : ℕ) : E :=
  contraction arith kernel.n1 (kernel.fused arith x)
    (fun p j => x kernel.wArg (kernel.w.element p j)) i j

/-- What is read of the arguments. -/
inductive Reads (kernel : Kernel) : Place → Prop where
  | a {i p : ℕ} (hi : i < kernel.m) (hp : p < kernel.k1) :
      Reads kernel (kernel.aArg, kernel.a.element i p)
  | b {p j : ℕ} (hp : p < kernel.k1) (hj : j < kernel.n1) :
      Reads kernel (kernel.bArg, kernel.b.element p j)
  | w {p j : ℕ} (hp : p < kernel.n1) (hj : j < kernel.n2) :
      Reads kernel (kernel.wArg, kernel.w.element p j)
  | glue {i j arg : ℕ} {spec : GlueSpec} (hspec : spec ∈ kernel.glue)
      (harg : spec.boundaryArg = some arg) (hi : i < kernel.m) (hj : j < kernel.n1) :
      Reads kernel (arg, [i, j])

def readPlaces : Set Place := { a | kernel.Reads a }

end Kernel

end value

namespace Kernel

section element
variable {E : Type} {arith : Arith E} {kernel : Kernel} {x : ℕ → List ℕ → E} {m : Place → E}
  {W : Set Place} {i j : ℕ}

theorem inner_within (hi : i < kernel.m) (hj : j < kernel.n1) :
    (fold (kernel.innerStep arith i j) (range kernel.k1) arith.zero).Within
      kernel.readPlaces W := by
  refine within_fold (fun acc p hp => ?_) _
  have hp := mem_range.1 hp
  exact (within_load (.inl (.a hi hp))).bind fun _ =>
    (within_load (.inl (.b hp hj))).bind fun _ => trivial

theorem glue_within {spec : GlueSpec} (hspec : spec ∈ kernel.glue) (hi : i < kernel.m)
    (hj : j < kernel.n1) (value : E) :
    (spec.emit arith i j value).Within kernel.readPlaces W := by
  unfold GlueSpec.emit
  split
  · trivial
  · rename_i arg harg
    exact (within_load (.inl (.glue hspec harg hi hj))).bind fun _ => trivial

theorem element_within (hi : i < kernel.m) (hj : j < kernel.n2) :
    (kernel.element arith i j).Within kernel.readPlaces W := by
  refine within_fold (fun acc p hp => ?_) _
  have hp := mem_range.1 hp
  refine (inner_within hi hp).bind fun inner => ?_
  refine (within_fold (fun value spec hspec => glue_within hspec hi hp value) _).bind
    fun transformed => ?_
  exact (within_load (.inl (.w hp hj))).bind fun _ => trivial

variable (hm : ∀ a, kernel.Reads a → m a = x a.1 a.2)
include hm

theorem inner_gives (hi : i < kernel.m) (hj : j < kernel.n1) :
    (fold (kernel.innerStep arith i j) (range kernel.k1) arith.zero).Gives m
      (kernel.product arith x i j) := by
  refine gives_fold id (fun acc p hp => ?_) arith.zero
  have hp := mem_range.1 hp
  refine (gives_load (hm _ (.a hi hp))).bind ?_
  exact (gives_load (hm _ (.b hp hj))).bind (Code.gives_ret _ m)

theorem glue_gives {spec : GlueSpec} (hspec : spec ∈ kernel.glue) (hi : i < kernel.m)
    (hj : j < kernel.n1) (value : E) :
    (spec.emit arith i j value).Gives m (spec.apply arith x i j value) := by
  cases harg : spec.boundaryArg with
  | none =>
    rw [GlueSpec.emit, GlueSpec.apply, harg]
    exact Code.gives_ret _ m
  | some arg =>
    rw [GlueSpec.emit, GlueSpec.apply, harg]
    exact (gives_load (hm _ (.glue hspec harg hi hj))).bind (Code.gives_ret _ m)

theorem fused_gives (hi : i < kernel.m) (hj : j < kernel.n1) :
    (fold (fun value spec => spec.emit arith i j value) kernel.glue
      (kernel.product arith x i j)).Gives m (kernel.fused arith x i j) := by
  unfold fused
  exact gives_fold id (fun value spec hspec => glue_gives hm hspec hi hj value) _

/-- **An element is what the chain gives for it.** -/
theorem element_gives (hi : i < kernel.m) (hj : j < kernel.n2) :
    (kernel.element arith i j).Gives m (kernel.chain arith x i j) := by
  refine gives_fold id (fun acc p hp => ?_) arith.zero
  have hp := mem_range.1 hp
  refine (inner_gives hm hi hp).bind ?_
  refine (fused_gives hm hi hp).bind ?_
  exact (gives_load (hm _ (.w hp hj))).bind (Code.gives_ret _ m)

end element

def tiling (kernel : Kernel) : Tiling := ⟨kernel.m, kernel.n2, br, br, by decide, by decide⟩

/-- Where an element of the tile goes. -/
def outPlace (kernel : Kernel) (block elemIdx : ℕ) : Place :=
  (kernel.outArg, [kernel.globalRow block elemIdx, kernel.globalCol2 block elemIdx])

/-- What a block may write. -/
def blockPlaces (kernel : Kernel) (block : ℕ) : Set Place :=
  { a | ∃ elemIdx < totalElems, kernel.ElemValid block elemIdx ∧ a = kernel.outPlace block elemIdx }

/-- No argument that is read is the output. -/
def Distinct (kernel : Kernel) : Prop := ∀ a, kernel.Reads a → a.1 ≠ kernel.outArg

/-- What a run of the grid should leave: each element of the output has its value and is written
once, nothing else changes, and whatever is touched is there. -/
structure Leaves {E : Type} (kernel : Kernel) (bounds : Set Place) (value : ℕ → ℕ → E)
    (m : Place → E) (blocks : Fin (kernel.gridM * kernel.gridN) → Block blockDim Place E)
    (m' : Place → E) : Prop where
  values : ∀ i < kernel.m, ∀ j < kernel.n2, m' (kernel.outArg, [i, j]) = value i j
  once : (gridWritten blocks).Perm kernel.elements
  frame : ∀ a, a ∉ kernel.elements → m' a = m a
  bounds : ∀ block, ∀ x ∈ (blocks block).interval ++ (blocks block).before, x.2.place ∈ bounds

section grid
variable {E : Type} {arith : Arith E} {kernel : Kernel} {x : ℕ → List ℕ → E} {m : Place → E}

theorem outArg_inj {outArg i j i' j' : ℕ} (h : ((outArg, [i, j]) : Place) = (outArg, [i', j'])) :
    i = i' ∧ j = j' := by
  simpa using h

theorem outPlace_elemOf {i : ℕ} (hi : i < kernel.m) (j : ℕ) :
    kernel.outPlace (kernel.tiling.blockOf i j) (kernel.tiling.elemOf i j) =
      (kernel.outArg, [i, j]) := by
  have hrow := Tiling.row_elemOf (t := kernel.tiling) hi j
  have hcol := Tiling.col_elemOf (t := kernel.tiling) hi j
  exact congrArg₂ (fun row col => (kernel.outArg, [row, col])) hrow hcol

variable {block : ℕ}

theorem outPlace_inj {a b : ℕ} (h : kernel.outPlace block a = kernel.outPlace block b) : a = b := by
  obtain ⟨hrow, hcol⟩ := outArg_inj h
  exact Tiling.elem_eq (t := kernel.tiling) hrow hcol

/-- What a block has done: it has stored its elements, each once. -/
structure Finished (arith : Arith E) (kernel : Kernel) (x : ℕ → List ℕ → E) (block : ℕ)
    (m : Place → E) (l : List (Fin blockDim × Access Place)) : Prop where
  values : ∀ elemIdx < totalElems, kernel.ElemValid block elemIdx →
    m (kernel.outPlace block elemIdx) =
      kernel.chain arith x (kernel.globalRow block elemIdx) (kernel.globalCol2 block elemIdx)
  once : (written l).Perm ((kernel.tiling.validElems block).map (kernel.outPlace block))

theorem phase_leads (hdistinct : kernel.Distinct) : Leads kernel.readPlaces
    (kernel.blockPlaces block) [kernel.phase arith block]
    (fun m l => l = [] ∧ ∀ a, kernel.Reads a → m a = x a.1 a.2) (kernel.Finished arith x block) := by
  refine .storesWhere (fun _ => kernel.readPlaces) List.nodup_range
    (share_perm (by decide) totalElems) ?_ ?_ (fun _ _ _ a ha => .inl ha) ?_ ?_
  · exact fun elemIdx _ hvalid => element_within hvalid.1 hvalid.2
  · refine fun p _ _ q _ _ hpq => ⟨fun hread => hdistinct _ hread rfl, fun heq => hpq ?_⟩
    exact outPlace_inj heq
  · exact fun elemIdx helem hvalid => ⟨elemIdx, mem_range.1 helem, hvalid, rfl⟩
  · rintro m l ⟨rfl, hm⟩
    refine ⟨_, fun elemIdx _ hvalid => element_gives hm hvalid.1 hvalid.2, ?_⟩
    intro m' l' hown _ hwritten
    refine ⟨fun elemIdx helem hvalid => hown elemIdx (mem_range.2 helem) hvalid, ?_⟩
    rw [List.append_nil]
    exact hwritten

variable {a : Place}

theorem blockPlaces_apart (hdistinct : kernel.Distinct) {block' : ℕ} (hne : block ≠ block')
    (ha : a ∈ kernel.blockPlaces block) :
    a ∉ kernel.readPlaces ∧ a ∉ kernel.blockPlaces block' := by
  obtain ⟨p, hp, -, rfl⟩ := ha
  refine ⟨fun hread => hdistinct _ hread rfl, ?_⟩
  rintro ⟨q, hq, -, heq⟩
  obtain ⟨hrow, hcol⟩ := outArg_inj heq
  exact hne (Tiling.block_eq (t := kernel.tiling) hp hq hrow hcol)

theorem mem_elements :
    a ∈ kernel.elements ↔ ∃ i < kernel.m, ∃ j < kernel.n2, a = (kernel.outArg, [i, j]) :=
  Tiling.mem_places (t := kernel.tiling)

theorem blockPlaces_subset (ha : a ∈ kernel.blockPlaces block) : a ∈ kernel.elements := by
  obtain ⟨elemIdx, -, ⟨hrow, hcol⟩, rfl⟩ := ha
  exact mem_elements.2 ⟨_, hrow, _, hcol, rfl⟩

/-- What the grid leads to. -/
theorem launch_leads (hdistinct : kernel.Distinct) (hm : ∀ a, kernel.Reads a → m a = x a.1 a.2) :
    GridEndsIn (fun s => kernel.Leaves { a | kernel.Reads a ∨ a ∈ kernel.elements }
      (kernel.chain arith x) m s.1 s.2) (kernel.launch arith, m) := by
  have hleads : ∀ block : Fin (kernel.gridM * kernel.gridN), Leads kernel.readPlaces
      (kernel.blockPlaces block) [kernel.phase arith block]
      (fun m l => l = [] ∧ ∀ a, kernel.Reads a → m a = x a.1 a.2)
      (kernel.Finished arith x block) := fun block => phase_leads hdistinct
  have hapart : ∀ i j : Fin (kernel.gridM * kernel.gridN), i ≠ j →
      ∀ a ∈ kernel.blockPlaces i, a ∉ kernel.readPlaces ∧ a ∉ kernel.blockPlaces j :=
    fun i j hij a => blockPlaces_apart hdistinct fun heq => hij (Fin.ext heq)
  have hinside : ∀ block, (kernel.launch arith block).Inside kernel.readPlaces
      (kernel.blockPlaces block) := fun block =>
    ⟨⟨fun _ => trivial, (hleads block).within⟩, fun _ hx => absurd hx List.not_mem_nil⟩
  have hrun := (grid_leads hleads hapart fun _ => ⟨rfl, hm⟩).inside hinside
  refine Ends.mono hrun ?_
  rintro ⟨blocks, m'⟩ ⟨⟨mem, hfinished, hagree, hframe⟩, htouched⟩
  refine ⟨fun i hi j hj => ?_, ?_, fun a ha => ?_, fun block y hy => ?_⟩
  · have hblock := Tiling.blockOf_lt (t := kernel.tiling) hi hj
    have hvalid := Tiling.valid_elemOf (t := kernel.tiling) hi hj
    have hvalue := (hfinished ⟨_, hblock⟩).values _ (Tiling.elemOf_lt i j) hvalid
    have hsame := hagree ⟨_, hblock⟩ _ (.inr ⟨_, Tiling.elemOf_lt i j, hvalid, rfl⟩)
    rw [hvalue, outPlace_elemOf hi] at hsame
    rw [hsame]
    exact congrArg₂ (kernel.chain arith x) (Tiling.row_elemOf hi j) (Tiling.col_elemOf hi j)
  · have hblocks : (gridWritten blocks).Perm ((List.finRange (kernel.gridM * kernel.gridN)).flatMap
        fun block : Fin (kernel.gridM * kernel.gridN) =>
          (kernel.tiling.validElems block).map (kernel.outPlace block)) :=
      List.Perm.flatMap_left _ fun block _ => (hfinished block).once
    exact hblocks.trans (Tiling.places_perm (t := kernel.tiling) fun _ _ _ _ => outArg_inj)
  · exact hframe a fun block hmem => ha (blockPlaces_subset hmem)
  · rcases (htouched block).touched y hy with hread | hwrite
    · exact .inl hread
    · exact .inr (blockPlaces_subset hwrite)

end grid

end Kernel

end Matcore.Engine.FamilyB
