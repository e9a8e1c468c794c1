import Matcore.Gpu.DataStaging

/-!
# What staging keeps

A launch acts on copies. They agree with the host's memory as long as every element is read through
the memref that it was last written through, and the copies that go back must be these too.
-/

namespace Matcore.Gpu.DataStaging

open Function (comp_def update_of_ne update_self update)
open Regions (Ops Machine)
open Threads (Simulates)
open List (map map_filterMap mem_cons_self mem_map map_map mem_cons not_mem_nil)

variable {X H O : Type}

/-- The captured memref that an element was last written through. -/
def lastWriter (log : List Access) (a : ℕ) : Option MemRef :=
  (log.find? fun x => x.write && x.a = a).map (·.via)

/-- Every element that was written is read through the same memref, unless neither has a buffer. -/
def Coherent (host : List MemRef) : List Access → Prop
  | [] => True
  | x :: log => Coherent host log ∧ (x.write = false → ∀ w, lastWriter log x.a = some w →
      x.via = w ∨ x.via ∉ host ∧ w ∉ host)

/-- The last memref that is copied back over an element. -/
def lastCopied (elements : MemRef → List ℕ) (copied : List MemRef) (a : ℕ) : Option MemRef :=
  copied.reverse.find? (a ∈ elements ·)

/-- Reads see the last write, and the last copy back over an element is of the memref that it was
last written through. -/
structure Safe (M : Meaning X H O) (residentArgs : List ℕ) (l : Launch Operand) (h : Host X H) :
    Prop where
  coherent : Coherent (hostCaptured residentArgs l.body) (M.launchSource l h).log
  settled : ∀ a w, lastWriter (M.launchSource l h).log a = some w →
    lastCopied h.elements (outputs residentArgs l.body) a =
      if w ∈ hostCaptured residentArgs l.body then some w else none

/-- Launches, each between the allocations and the deallocations of its own buffers. -/
inductive Bracketed : List Event → Prop
  | nil : Bracketed []
  | launch (name : ℕ) {ms : List MemRef} {rest : List Event} : ms.Nodup → Bracketed rest →
      Bracketed (ms.map (fun m => .alloc (name, m)) ++ .launch name ::
        ms.map (fun m => .dealloc (name, m)) ++ rest)

theorem Bracketed.append {es es' : List Event} (h : Bracketed es) (h' : Bracketed es') :
    Bracketed (es ++ es') := by
  induction h with
  | nil => exact h'
  | launch name hnodup _ ih =>
    rw [List.append_assoc]
    exact .launch name hnodup ih

section
variable {V W E E' : Type}

@[simp] theorem BodyOp.reads_map (f : V → W) (op : BodyOp V) :
    (op.map f).reads = op.reads.map f := by
  cases op <;> simp [BodyOp.map, BodyOp.reads]

@[simp] theorem BodyOp.writes_map (f : V → W) (op : BodyOp V) :
    (op.map f).writes = op.writes.map f := by
  cases op <;> simp [BodyOp.map, BodyOp.writes, BodyOp.knownWrites]

@[simp] theorem BodyOp.operands_map (f : V → W) (op : BodyOp V) :
    (op.map f).operands = op.operands.map f := by
  cases op <;> simp [BodyOp.map, BodyOp.operands]

@[simp] theorem BodyOp.results_map (f : V → W) (op : BodyOp V) :
    (op.map f).results = op.results := by
  cases op <;> rfl

@[simp] theorem BodyOp.shape_map (f : V → W) (op : BodyOp V) : (op.map f).shape = op.shape := by
  cases op <;> simp [BodyOp.map, BodyOp.shape, comp_def]

@[simp] theorem RegionOp.shape_map (f : V → W) (op : RegionOp V) :
    (op.map f).shape = op.shape := by
  simp [RegionOp.map, RegionOp.shape, comp_def]

@[simp] theorem RegionOp.operands_map (f : V → W) (op : RegionOp V) :
    (op.map f).operands = op.operands.map f := rfl

@[simp] theorem RegionOp.names_map (f : V → W) (op : RegionOp V) :
    (op.map f).args ++ (op.map f).results = op.args ++ op.results := rfl

theorem select_map (φ : E → E') (memrefs : List (List E)) (place : ℕ × ℕ) :
    select (memrefs.map (map φ)) place = (select memrefs place).map φ := by
  simp only [select, List.getElem?_map]
  cases memrefs[place.1]? with
  | none => rfl
  | some m => simp

variable {memrefs : List (List E)}

theorem mem_of_select {place : ℕ × ℕ} {e : E} (h : select memrefs place = some e) :
    ∃ m ∈ memrefs, e ∈ m := by
  obtain ⟨m, hm, he⟩ := Option.bind_eq_some_iff.1 h
  exact ⟨m, List.mem_of_getElem? hm, List.mem_of_getElem? he⟩

variable {scratch : ℕ → E} {inner : ℕ → List E}

theorem bindNames_map {φ : E → E'} {scratch' : ℕ → E'} (hscratch : ∀ a, scratch' a = φ (scratch a))
    (names : List ℕ) (memrefs : List (List E)) (picked : List (ℕ × List Pick))
    {inner' : ℕ → List E'} (hinner : ∀ n, inner' n = (inner n).map φ) (n : ℕ) :
    bindNames names scratch' (memrefs.map (map φ)) picked inner' n =
      (bindNames names scratch memrefs picked inner n).map φ := by
  induction picked generalizing inner inner' with
  | nil => exact hinner n
  | cons first _ ih =>
    refine ih fun k => ?_
    obtain ⟨i, picks⟩ := first
    have hpicks : picks.filterMap (·.resolve scratch' (memrefs.map (map φ))) =
        (picks.filterMap (·.resolve scratch memrefs)).map φ := by
      rw [map_filterMap]
      refine List.filterMap_congr fun pick _ => ?_
      cases pick with
      | element operand position => exact select_map φ memrefs _
      | scratch a => simp [Pick.resolve, hscratch]
    cases hname : names[i]? with
    | none => simpa [hname] using hinner k
    | some name =>
      simp only [hname, hpicks]
      by_cases hk : k = name
      · subst hk
        simp
      · simpa [update_of_ne hk] using hinner k

/-- What holds of the picked elements and of those of the names holds of the names' elements. -/
theorem bindNames_all {P : ℕ → E → Prop} {names : List ℕ} {picked : List (ℕ × List Pick)}
    (hpicked : ∀ i picks, (i, picks) ∈ picked → ∀ name, names[i]? = some name →
      ∀ pick ∈ picks, ∀ e, pick.resolve scratch memrefs = some e → P name e)
    (hinner : ∀ n, ∀ e ∈ inner n, P n e) (n : ℕ) :
    ∀ e ∈ bindNames names scratch memrefs picked inner n, P n e := by
  induction picked generalizing inner with
  | nil => exact hinner n
  | cons first picked ih =>
    obtain ⟨i, picks⟩ := first
    refine ih (fun i picks hin => hpicked i picks (List.mem_cons_of_mem _ hin)) fun k e he => ?_
    cases hname : names[i]? with
    | none => exact hinner k e (by simpa [hname] using he)
    | some name =>
      simp only [hname] at he
      by_cases hk : k = name
      · subst hk
        rw [update_self] at he
        obtain ⟨pick, hpick, hresolve⟩ := List.mem_filterMap.1 he
        exact hpicked i picks mem_cons_self k hname pick hpick e hresolve
      · rw [update_of_ne hk] at he
        exact hinner k e he

end

/-- Where the staged launch has an element. -/
def SourceElem.toDevice (name : ℕ) (host : List MemRef) : SourceElem → StagedElem
  | captured m a => if m ∈ host then .device (name, m) a else .host a
  | scratch a => .scratch a

def SourceElem.Valid (elements : MemRef → List ℕ) : SourceElem → Prop
  | captured m a => a ∈ elements m
  | scratch _ => True

structure SameOwn (name : ℕ) (host : List MemRef) (elements : MemRef → List ℕ)
    (own : Own SourceElem O) (own' : Own StagedElem O) : Prop where
  scalars : own'.scalars = own.scalars
  inner : ∀ n, own'.inner n = (own.inner n).map (SourceElem.toDevice name host)
  valid : ∀ n, ∀ e ∈ own.inner n, e.Valid elements

/-- Where an element was written, the copy that it was last written through has its value. Elsewhere
all copies have it. -/
structure SameMemory (name : ℕ) (host : List MemRef) (elements : MemRef → List ℕ)
    (d : SourceStore X) (t : StagedStore X) : Prop where
  scratch : t.scratch = d.scratch
  unwritten : ∀ a, lastWriter d.log a = none →
    t.mem a = d.mem a ∧ ∀ m ∈ host, a ∈ elements m → t.contents (name, m) a = d.mem a
  device : ∀ a m, lastWriter d.log a = some m → m ∈ host → t.contents (name, m) a = d.mem a
  host : ∀ a m, lastWriter d.log a = some m → m ∉ host → t.mem a = d.mem a

section
variable {name : ℕ} {host : List MemRef} {elements : MemRef → List ℕ}
  {live : Buffer → Option (List ℕ)}

theorem lastWriter_write_self (m : MemRef) (a : ℕ) (log : List Access) :
    lastWriter (⟨true, m, a⟩ :: log) a = some m := by
  simp [lastWriter]

theorem lastWriter_write_ne (m : MemRef) {a b : ℕ} (h : b ≠ a) (log : List Access) :
    lastWriter (⟨true, m, a⟩ :: log) b = lastWriter log b := by
  simp [lastWriter, h.symm]

variable {own : Own SourceElem O} {own' : Own StagedElem O}

theorem bind_toDevice (hlive : ∀ m ∈ host, live (name, m) = some (elements m))
    (h : SameOwn name host elements own own') (v : Operand) :
    (stagedMemory X name elements live).bind (v.toDevice host) own'.inner =
      ((sourceMemory X elements).bind v own.inner).map (SourceElem.toDevice name host) := by
  cases v with
  | captured m =>
    by_cases hm : m ∈ host
    · simp [Operand.toDevice, hm, stagedMemory, sourceMemory, hlive m hm, SourceElem.toDevice]
    · simp [Operand.toDevice, hm, stagedMemory, sourceMemory, SourceElem.toDevice]
  | inner n => exact h.inner n

theorem bind_valid (h : SameOwn name host elements own own') (v : Operand) :
    ∀ e ∈ (sourceMemory X elements).bind v own.inner, e.Valid elements := by
  cases v with
  | captured m =>
    intro e he
    obtain ⟨a, ha, rfl⟩ := mem_map.1 he
    exact ha
  | inner n => exact h.valid n

variable {d : SourceStore X} {t : StagedStore X} {e : SourceElem}

theorem load_same (live : Buffer → Option (List ℕ)) (h : SameMemory name host elements d t)
    (he : e.Valid elements) (hgood : Coherent host ((sourceMemory X elements).load e d).2.log) :
    ((stagedMemory X name elements live).load (e.toDevice name host) t).1 =
        ((sourceMemory X elements).load e d).1 ∧
      SameMemory name host elements ((sourceMemory X elements).load e d).2
        ((stagedMemory X name elements live).load (e.toDevice name host) t).2 := by
  cases e with
  | scratch a => exact ⟨congrFun h.scratch a, h⟩
  | captured m a =>
    have hread := hgood.2 rfl
    have hkept : SameMemory name host elements { d with log := ⟨false, m, a⟩ :: d.log } t :=
      ⟨h.scratch, h.unwritten, h.device, h.host⟩
    by_cases hm : m ∈ host
    · rw [SourceElem.toDevice, if_pos hm]
      refine ⟨?_, hkept⟩
      cases hlast : lastWriter d.log a with
      | none => exact (h.unwritten a hlast).2 m hm he
      | some w =>
        obtain rfl | ⟨hnot, -⟩ := hread w hlast
        · exact h.device a _ hlast hm
        · exact absurd hm hnot
    · rw [SourceElem.toDevice, if_neg hm]
      refine ⟨?_, hkept⟩
      cases hlast : lastWriter d.log a with
      | none => exact (h.unwritten a hlast).1
      | some w =>
        obtain rfl | ⟨-, hnot⟩ := hread w hlast
        · exact h.host a _ hlast hm
        · exact h.host a w hlast hnot

theorem store_same (h : SameMemory name host elements d t) (e : SourceElem) (x : X) :
    SameMemory name host elements ((sourceMemory X elements).store e x d)
      ((stagedMemory X name elements live).store (e.toDevice name host) x t) := by
  cases e with
  | scratch a =>
    refine ⟨?_, h.unwritten, h.device, h.host⟩
    show update t.scratch a x = update d.scratch a x
    rw [h.scratch]
  | captured m a =>
    by_cases hm : m ∈ host
    · rw [SourceElem.toDevice, if_pos hm]
      refine ⟨h.scratch, fun b hlast => ?_, fun b w hlast hw => ?_, fun b w hlast hw => ?_⟩ <;>
        simp only [sourceMemory, stagedMemory] at hlast ⊢ <;> by_cases hb : b = a
      · subst hb
        rw [lastWriter_write_self] at hlast
        cases hlast
      · rw [lastWriter_write_ne m hb] at hlast
        obtain ⟨hmem, hcopies⟩ := h.unwritten b hlast
        refine ⟨by rw [update_of_ne hb, hmem], fun k hk hbk => ?_⟩
        rw [update_of_ne hb, ← hcopies k hk hbk]
        by_cases hkm : (name, k) = (name, m)
        · rw [hkm, update_self, update_of_ne hb]
        · rw [update_of_ne hkm]
      · subst hb
        rw [lastWriter_write_self] at hlast
        obtain rfl := Option.some.inj hlast
        simp
      · rw [lastWriter_write_ne m hb] at hlast
        rw [update_of_ne hb, ← h.device b w hlast hw]
        by_cases hkm : (name, w) = (name, m)
        · rw [hkm, update_self, update_of_ne hb]
        · rw [update_of_ne hkm]
      · subst hb
        rw [lastWriter_write_self] at hlast
        obtain rfl := Option.some.inj hlast
        exact absurd hm hw
      · rw [lastWriter_write_ne m hb] at hlast
        rw [update_of_ne hb, h.host b w hlast hw]
    · rw [SourceElem.toDevice, if_neg hm]
      refine ⟨h.scratch, fun b hlast => ?_, fun b w hlast hw => ?_, fun b w hlast hw => ?_⟩ <;>
        simp only [sourceMemory, stagedMemory] at hlast ⊢ <;> by_cases hb : b = a
      · subst hb
        rw [lastWriter_write_self] at hlast
        cases hlast
      · rw [lastWriter_write_ne m hb] at hlast
        rw [update_of_ne hb, update_of_ne hb]
        exact h.unwritten b hlast
      · subst hb
        rw [lastWriter_write_self] at hlast
        obtain rfl := Option.some.inj hlast
        exact absurd hw hm
      · rw [lastWriter_write_ne m hb] at hlast
        rw [update_of_ne hb, h.device b w hlast hw]
      · subst hb
        simp
      · rw [lastWriter_write_ne m hb] at hlast
        rw [update_of_ne hb, update_of_ne hb, h.host b w hlast hw]

theorem load_good (e : SourceElem) (h : Coherent host ((sourceMemory X elements).load e d).2.log) :
    Coherent host d.log := by
  cases e with
  | captured m a => exact h.1
  | scratch a => exact h

theorem store_good (e : SourceElem) (x : X)
    (h : Coherent host ((sourceMemory X elements).store e x d).log) : Coherent host d.log := by
  cases e with
  | captured m a => exact h.1
  | scratch a => exact h

variable {es : List SourceElem}

theorem loadAll_good (h : Coherent host ((sourceMemory X elements).loadAll es d).2.log) :
    Coherent host d.log := by
  induction es generalizing d with
  | nil => exact h
  | cons e es ih => exact load_good e (ih h)

theorem storeAll_good {stores : List (SourceElem × X)}
    (h : Coherent host ((sourceMemory X elements).storeAll stores d).log) :
    Coherent host d.log := by
  induction stores generalizing d with
  | nil => exact h
  | cons first stores ih => exact store_good first.1 first.2 (ih h)

theorem loadAll_same (live : Buffer → Option (List ℕ)) (hes : ∀ e ∈ es, e.Valid elements)
    (h : SameMemory name host elements d t)
    (hgood : Coherent host ((sourceMemory X elements).loadAll es d).2.log) :
    ((stagedMemory X name elements live).loadAll
        (es.map (SourceElem.toDevice name host)) t).1 =
        ((sourceMemory X elements).loadAll es d).1 ∧
      SameMemory name host elements ((sourceMemory X elements).loadAll es d).2
        ((stagedMemory X name elements live).loadAll
          (es.map (SourceElem.toDevice name host)) t).2 := by
  induction es generalizing d t with
  | nil => exact ⟨rfl, h⟩
  | cons e es ih =>
    obtain ⟨hvalue, hnext⟩ :=
      load_same live h (hes e mem_cons_self) (loadAll_good hgood)
    obtain ⟨hvalues, hrest⟩ := ih (fun e he => hes e (List.mem_cons_of_mem _ he)) hnext hgood
    exact ⟨congrArg₂ List.cons hvalue hvalues, hrest⟩

theorem storeAll_same (h : SameMemory name host elements d t) (stores : List (SourceElem × X)) :
    SameMemory name host elements ((sourceMemory X elements).storeAll stores d)
      ((stagedMemory X name elements live).storeAll
        (stores.map fun (e, x) => (e.toDevice name host, x)) t) := by
  induction stores generalizing d t with
  | nil => exact h
  | cons first _ ih => exact ih (store_same h first.1 first.2)

theorem scratch_toDevice (a : ℕ) : (stagedMemory X name elements live).scratch a =
    ((sourceMemory X elements).scratch a).toDevice name host := rfl

theorem binds_toDevice (hlive : ∀ m ∈ host, live (name, m) = some (elements m))
    (h : SameOwn name host elements own own') (vs : List Operand) :
    (vs.map (Operand.toDevice host)).map
        ((stagedMemory X name elements live).bind · own'.inner) =
      (vs.map ((sourceMemory X elements).bind · own.inner)).map
        (map (SourceElem.toDevice name host)) := by
  rw [map_map, map_map]
  exact List.map_congr_left fun v _ => bind_toDevice hlive h v

theorem binds_valid (h : SameOwn name host elements own own') (vs : List Operand) :
    ∀ m ∈ vs.map ((sourceMemory X elements).bind · own.inner), ∀ e ∈ m, e.Valid elements := by
  intro m hm
  obtain ⟨v, -, rfl⟩ := mem_map.1 hm
  exact bind_valid h v

theorem resolve_valid (h : SameOwn name host elements own own') {vs : List Operand} {pick : Pick}
    (hpick : pick.resolve (sourceMemory X elements).scratch
      (vs.map ((sourceMemory X elements).bind · own.inner)) = some e) : e.Valid elements := by
  cases pick with
  | element operand position =>
    obtain ⟨m, hm, hem⟩ := mem_of_select hpick
    exact binds_valid h vs m hm e hem
  | scratch a =>
    obtain rfl := Option.some.inj hpick
    trivial

variable {E' E : Type}

theorem loads_map (φ : E → E') (memrefs : List (List E)) (places : List (ℕ × ℕ)) :
    places.filterMap (select (memrefs.map (map φ))) =
      (places.filterMap (select memrefs)).map φ := by
  rw [map_filterMap]
  exact List.filterMap_congr fun place _ => select_map φ memrefs place

theorem stores_map (φ : E → E') (memrefs : List (List E)) (places : List ((ℕ × ℕ) × X)) :
    (places.filterMap fun (place, x) =>
        (select (memrefs.map (map φ)) place).map (·, x)) =
      (places.filterMap fun (place, x) => (select memrefs place).map (·, x)).map
        fun (e, x) => (φ e, x) := by
  rw [map_filterMap]
  refine List.filterMap_congr fun place _ => ?_
  simp only [select_map, Option.map_map]
  rfl

/-- **An operation of the staged launch does what it does in the launch.** -/
theorem launch_simulates (M : Meaning X H O)
    (hlive : ∀ m ∈ host, live (name, m) = some (elements m)) :
    Simulates (M.kernel (sourceMemory X elements)) (M.kernel (stagedMemory X name elements live))
      (·.map (Operand.toDevice host)) (·.map (Operand.toDevice host))
      (SameOwn name host elements) (SameMemory name host elements)
      (fun d => Coherent host d.log) where
  good op own d h := loadAll_good (storeAll_good h)
  leaf op own own' d t hown hsame hgood := by
    have hbinds := binds_toDevice (X := X) hlive hown
    have hvalid : ∀ e ∈ (M.reads op.shape own.scalars).filterMap
        (select (op.reads.map ((sourceMemory X elements).bind · own.inner))),
        e.Valid elements := by
      intro e he
      obtain ⟨place, -, hplace⟩ := List.mem_filterMap.1 he
      obtain ⟨m, hm, hem⟩ := mem_of_select hplace
      exact binds_valid hown _ m hm e hem
    obtain ⟨hvalues, hmid⟩ := loadAll_same live hvalid hsame (storeAll_good hgood)
    simp only [Meaning.kernel, BodyOp.shape_map, BodyOp.reads_map, BodyOp.writes_map,
      BodyOp.operands_map, BodyOp.results_map, hown.scalars, hbinds, loads_map, stores_map,
      hvalues]
    refine ⟨⟨rfl, fun n => ?_, fun n => ?_⟩, storeAll_same hmid _⟩
    · exact bindNames_map scratch_toDevice _ _ _ hown.inner n
    · exact bindNames_all (P := fun _ e => SourceElem.Valid elements e)
        (fun _ _ _ _ _ _ _ _ => resolve_valid hown) hown.valid n
  control op n own own' hown := by
    have hbinds := binds_toDevice (X := X) hlive hown
    simp only [Meaning.kernel, RegionOp.shape_map, RegionOp.operands_map, RegionOp.names_map,
      hown.scalars, hbinds]
    refine ⟨trivial, rfl, fun k => ?_, fun k => ?_⟩
    · exact bindNames_map scratch_toDevice _ _ _ hown.inner k
    · exact bindNames_all (P := fun _ e => SourceElem.Valid elements e)
        (fun _ _ _ _ _ _ _ _ => resolve_valid hown) hown.valid k

/-- **A staged launch and the launch leave the same, up to where the elements are.** -/
theorem launchStaged_same (M : Meaning X H O) (l : Launch Operand) {s : Staged X H}
    (hlive : ∀ m ∈ host, s.live (l.name, m) = some (s.host.elements m))
    (hcopies : ∀ m ∈ host, ∀ a ∈ s.host.elements m, s.contents (l.name, m) a = s.host.mem a)
    (hgood : Coherent host (M.launchSource l s.host).log) :
    SameMemory l.name host s.host.elements (M.launchSource l s.host)
      (M.launchStaged (l.toDevice host) s) := by
  have hsim := launch_simulates (X := X) M hlive
  refine hsim.run (fun i => ⟨rfl, rfl, fun n => rfl, fun n e he => ?_⟩) ?_ hgood
  · cases he
  · -- no element was written yet
    refine ⟨rfl, fun a _ => ⟨rfl, fun m hm ha => hcopies m hm a ha⟩, ?_, ?_⟩
    · intro a m hlast
      cases hlast
    · intro a m hlast
      cases hlast

end

section
variable (M : Meaning X H O) (name : ℕ)

/-- The buffers of some memrefs are allocated and hold what the host has. -/
structure CopiedIn (ms : List MemRef) (s s' : Staged X H) : Prop where
  host : s'.host = s.host
  events : s'.events = s.events ++ ms.map fun m => .alloc (name, m)
  live : ∀ m ∈ ms, s'.live (name, m) = some (s.host.elements m)
  contents : ∀ m ∈ ms, ∀ a ∈ s.host.elements m, s'.contents (name, m) a = s.host.mem a
  others : ∀ m ∉ ms, s'.live (name, m) = s.live (name, m) ∧
    s'.contents (name, m) = s.contents (name, m)

theorem steps_copyIn (ms : List MemRef) (s : Staged X H) :
    CopiedIn name ms s
      (M.stagedMachine.steps (ms.flatMap fun m => [.alloc (name, m), .copyIn (name, m)]) s) := by
  induction ms generalizing s with
  | nil => exact ⟨rfl, by simp [Machine.steps], nofun, nofun, fun _ _ => ⟨rfl, rfl⟩⟩
  | cons m ms ih =>
    have hrest := ih (M.stagedStep (.copyIn (name, m)) (M.stagedStep (.alloc (name, m)) s))
    refine ⟨hrest.host, ?_, fun k hk => ?_, fun k hk a ha => ?_, fun k hk => ?_⟩
    · refine hrest.events.trans ?_
      simp [Meaning.stagedStep]
    · by_cases hin : k ∈ ms
      · exact hrest.live k hin
      · obtain rfl := (mem_cons.1 hk).resolve_right hin
        refine (hrest.others k hin).1.trans ?_
        simp [Meaning.stagedStep]
    · by_cases hin : k ∈ ms
      · exact hrest.contents k hin a ha
      · obtain rfl := (mem_cons.1 hk).resolve_right hin
        refine (congrFun (hrest.others k hin).2 a).trans ?_
        simp [Meaning.stagedStep, copyElements, ha]
    · obtain ⟨hne, hin⟩ := not_or.1 (mt mem_cons.2 hk)
      obtain ⟨hlive, hcontents⟩ := hrest.others k hin
      have hother : ((name, k) : Buffer) ≠ (name, m) := fun h => hne (Prod.mk.inj h).2
      refine ⟨hlive.trans ?_, hcontents.trans ?_⟩
      · exact update_of_ne hother _ _
      · exact update_of_ne hother _ _

theorem lastCopied_cons (elements : MemRef → List ℕ) (m : MemRef) (ms : List MemRef) (a : ℕ) :
    lastCopied elements (m :: ms) a =
      (lastCopied elements ms a).or (if a ∈ elements m then some m else none) := by
  simp [lastCopied, List.find?_append, List.find?_singleton]

variable {s : Staged X H}

/-- Behind the copies back, an element has the value in the last copy that has it. -/
theorem steps_copyOut (ms : List MemRef)
    (hlive : ∀ m ∈ ms, s.live (name, m) = some (s.host.elements m)) :
    M.stagedMachine.steps (ms.map fun m => .copyOut (name, m)) s =
      { s with host := { s.host with mem := fun a => match lastCopied s.host.elements ms a with
          | some m => s.contents (name, m) a
          | none => s.host.mem a } } := by
  induction ms generalizing s with
  | nil => rfl
  | cons m ms ih =>
    have hfirst := hlive m mem_cons_self
    have hrest := ih (s := M.stagedStep (.copyOut (name, m)) s)
      fun k hk => hlive k (List.mem_cons_of_mem _ hk)
    refine hrest.trans ?_
    simp only [Meaning.stagedStep, hfirst, Option.getD_some]
    congr 2
    funext a
    rw [lastCopied_cons]
    cases lastCopied s.host.elements ms a with
    | some k => rfl
    | none => by_cases ha : a ∈ s.host.elements m <;> simp [copyElements, ha]

theorem steps_dealloc (ms : List MemRef) (s : Staged X H) :
    (M.stagedMachine.steps (ms.map fun m => .dealloc (name, m)) s).host = s.host ∧
      (M.stagedMachine.steps (ms.map fun m => .dealloc (name, m)) s).events =
        s.events ++ ms.map fun m => .dealloc (name, m) := by
  induction ms generalizing s with
  | nil => exact ⟨rfl, by simp [Machine.steps]⟩
  | cons m ms ih =>
    obtain ⟨hhost, hevents⟩ := ih (M.stagedStep (.dealloc (name, m)) s)
    exact ⟨hhost, hevents.trans (by simp [Meaning.stagedStep])⟩

/-- Behind the copies back every element has the value that it has behind the launch. -/
theorem copied_back {name : ℕ} {host copied : List MemRef} {elements : MemRef → List ℕ}
    {d : SourceStore X} {t : StagedStore X} (hsame : SameMemory name host elements d t)
    (hcopied : ∀ m ∈ copied, m ∈ host)
    (hsettled : ∀ a w, lastWriter d.log a = some w →
      lastCopied elements copied a = if w ∈ host then some w else none) (a : ℕ) :
    (match lastCopied elements copied a with
      | some m => t.contents (name, m) a
      | none => t.mem a) = d.mem a := by
  cases hwriter : lastWriter d.log a with
  | none =>
    obtain ⟨hmem, hcontents⟩ := hsame.unwritten a hwriter
    cases hlast : lastCopied elements copied a with
    | none => exact hmem
    | some m =>
      have hm : m ∈ copied := List.mem_reverse.1 (List.mem_of_find?_eq_some hlast)
      have ha := List.find?_some hlast
      exact hcontents m (hcopied m hm) (of_decide_eq_true ha)
  | some w =>
    rw [hsettled a w hwriter]
    by_cases hw : w ∈ host
    · rw [if_pos hw]
      exact hsame.device a w hwriter hw
    · rw [if_neg hw]
      exact hsame.host a w hwriter hw

theorem nodup_eraseDups {α : Type} [DecidableEq α] (l : List α) : l.eraseDups.Nodup := by
  match l with
  | [] => exact .nil
  | a :: l =>
    have _ : (l.filter fun b => !b == a).length < l.length + 1 :=
      Nat.lt_succ_of_le (List.length_filter_le _ _)
    rw [List.eraseDups_cons, List.nodup_cons]
    exact ⟨by simp, nodup_eraseDups _⟩
termination_by l.length

theorem nodup_hostCaptured (residentArgs : List ℕ) (body : Body Operand) :
    (hostCaptured residentArgs body).Nodup :=
  (nodup_eraseDups _).filter _

theorem steps_append (ops ops' : List StagedOp) (s : Staged X H) :
    M.stagedMachine.steps (ops ++ ops') s =
      M.stagedMachine.steps ops' (M.stagedMachine.steps ops s) :=
  List.foldl_append

theorem steps_wait (s : Staged X H) : M.stagedMachine.steps [.wait] s = s := rfl

theorem steps_wait_wait (s : Staged X H) : M.stagedMachine.steps [.wait, .wait] s = s := rfl

/-- **What the pass puts in the place of a safe launch does what the launch does.** -/
theorem steps_stage (residentArgs : List ℕ) (l : Launch Operand)
    (hsafe : Safe M residentArgs l s.host) :
    (M.stagedMachine.steps (stageDataForLaunch residentArgs l) s).host =
        M.sourceMachine.step (.launch l) s.host ∧
      ∃ es, (M.stagedMachine.steps (stageDataForLaunch residentArgs l) s).events =
        s.events ++ es ∧ Bracketed es := by
  have hcopied : ∀ m ∈ outputs residentArgs l.body, m ∈ hostCaptured residentArgs l.body :=
    fun m hm => List.mem_of_mem_filter hm
  have hgood := hsafe.coherent
  have hsettled := hsafe.settled
  by_cases hnone : hostCaptured residentArgs l.body = []
  · -- nothing is captured: the launch stays as it was
    have hout : outputs residentArgs l.body = [] := by simp [outputs, hnone]
    rw [hnone] at hgood hsettled
    have hsame := launchStaged_same M l (s := s) (fun _ h => absurd h not_mem_nil)
      (fun _ h => absurd h not_mem_nil) hgood
    have hmem := copied_back hsame (fun _ h => absurd h not_mem_nil) (hout ▸ hsettled)
    have hbracket : Bracketed [.launch l.name] := .launch l.name List.nodup_nil .nil
    rw [stageDataForLaunch, if_pos hnone]
    refine ⟨?_, _, rfl, hbracket⟩
    exact congrArg (fun mem => ({ s.host with mem, launched := s.host.launched + 1 } : Host X H))
      (funext hmem)
  · rw [stageDataForLaunch, if_neg hnone]
    have hnodup := nodup_hostCaptured residentArgs l.body
    generalize hostCaptured residentArgs l.body = host at *
    generalize outputs residentArgs l.body = copied at *
    simp only [steps_append, steps_wait, steps_wait_wait]
    have hin := steps_copyIn M l.name host s
    generalize M.stagedMachine.steps
      (host.flatMap fun m => [.alloc (l.name, m), .copyIn (l.name, m)]) s = s₁ at hin
    rw [← hin.host] at hgood hsettled
    have hlive : ∀ m ∈ host, s₁.live (l.name, m) = some (s₁.host.elements m) := by
      rw [hin.host]
      exact hin.live
    have hcopies : ∀ m ∈ host, ∀ a ∈ s₁.host.elements m,
        s₁.contents (l.name, m) a = s₁.host.mem a := by
      rw [hin.host]
      exact hin.contents
    have hmem := copied_back (launchStaged_same M l hlive hcopies hgood) hcopied hsettled
    have hout := steps_copyOut M l.name copied
      (s := M.stagedStep (.launch (l.toDevice host)) s₁) fun m hm => hlive m (hcopied m hm)
    have hlaunch : M.stagedMachine.steps [.launch (l.toDevice host)] s₁ =
        M.stagedStep (.launch (l.toDevice host)) s₁ := rfl
    obtain ⟨hhost, hevents⟩ := steps_dealloc M l.name host
      (M.stagedMachine.steps (copied.map fun m => .copyOut (l.name, m))
        (M.stagedStep (.launch (l.toDevice host)) s₁))
    rw [hlaunch]
    refine ⟨hhost.trans ?_, host.map (fun m => .alloc (l.name, m)) ++ .launch l.name ::
      host.map fun m => .dealloc (l.name, m), hevents.trans ?_, ?_⟩
    · rw [hout, ← hin.host]
      exact congrArg
        (fun mem => ({ s₁.host with mem, launched := s₁.host.launched + 1 } : Host X H))
        (funext hmem)
    · rw [hout]
      simp [Meaning.stagedStep, hin.events, Launch.toDevice]
    · have hbracket := Bracketed.launch l.name hnodup .nil
      rwa [List.append_nil] at hbracket

end

/-- **A run whose launches are safe leaves the same behind the pass**, where every launch has its own
buffers allocated before it and deallocated after it, once. -/
theorem staging_preserves (M : Meaning X H O) (f : Func) {h h' : Host X H}
    (hexec : M.sourceMachine.Exec f.body h h')
    (hsafe : ∀ l rest h₁, M.sourceMachine.Reaches (.leaf (.launch l) rest) f.body h h₁ →
      Safe M f.residentArgs l h₁) (s : Staged X H) (hs : s.host = h) :
    ∃ s', (∀ t, M.stagedMachine.Exec f.stage s t ↔ t = s') ∧ s'.host = h' ∧
      ∃ es, s'.events = s.events ++ es ∧ Bracketed es := by
  let Rel : Host X H → Staged X H → Prop := fun h t =>
    t.host = h ∧ ∃ es, t.events = s.events ++ es ∧ Bracketed es
  let Ok : HostOp → Host X H → Prop := fun op h => ∀ l, op = .launch l → Safe M f.residentArgs l h
  obtain ⟨s', hstaged, hhost, hevents⟩ : ∃ s', M.stagedMachine.Exec f.stage s s' ∧ Rel h' s' := by
    refine hexec.expand Rel Ok _ ?_ ?_ ?_ ⟨hs, [], by simp, .nil⟩
    · rintro op _ t hok ⟨rfl, es, hes, hbracketed⟩
      cases op with
      | launch l =>
        obtain ⟨hhost, es', hes', hbracketed'⟩ := steps_stage M f.residentArgs l (hok l rfl)
        refine ⟨hhost, es ++ es', ?_, hbracketed.append hbracketed'⟩
        rw [hes', hes, List.append_assoc]
      | other tag => exact ⟨rfl, es, hes, hbracketed⟩
    · rintro op n _ t ⟨rfl, hes⟩
      exact ⟨rfl, rfl, hes⟩
    · rintro _ rest h₁ hreach l rfl
      exact hsafe l rest h₁ hreach
  refine ⟨s', fun t => ⟨fun ht => ht.deterministic hstaged, ?_⟩, hhost, hevents⟩
  rintro rfl
  exact hstaged

/-- A launch is safe if the accesses of its log are. -/
theorem Safe.of_log {M : Meaning X H O} {residentArgs : List ℕ} {l : Launch Operand} {h : Host X H}
    {log : List Access} (hlog : (M.launchSource l h).log = log)
    (hcoherent : Coherent (hostCaptured residentArgs l.body) log)
    (hsettled : ∀ x ∈ log, ∀ w ∈ lastWriter log x.a,
      lastCopied h.elements (outputs residentArgs l.body) x.a =
        if w ∈ hostCaptured residentArgs l.body then some w else none) :
    Safe M residentArgs l h := by
  refine ⟨hlog ▸ hcoherent, fun a w hw => ?_⟩
  rw [hlog] at hw
  obtain ⟨x, hx, -⟩ := Option.map_eq_some_iff.1 hw
  have hfound := List.find?_some hx
  obtain rfl : x.a = a := of_decide_eq_true (Bool.and_eq_true_iff.1 hfound).2
  exact hsettled x (List.mem_of_find?_eq_some hx) w hw

/-- Two threads. A copy takes the element of a thread and adds one; anything else writes a one to
the first element. -/
def twoThreads : Meaning ℕ Unit ℕ where
  host _ h := h
  branchHost _ _ h := (none, h)
  start _ _ i := i
  schedule _ := [0, 1, 0, 1]
  scratch _ _ := 0
  reads op own := match op with
    | .copy _ _ _ => [(0, own)]
    | _ => []
  writes op own read := match op with
    | .copy _ _ _ => [((0, own), read.headD 0 + 1)]
    | _ => [((0, 0), 1)]
  results _ _ _ := [(0, [.element 0 0, .element 0 1])]
  next _ own _ := own
  branch _ _ own := (none, own)
  arguments _ _ _ := []

/-- One captured memref is copied to a view of another one. -/
def copyLaunch (name source target : ℕ) : Launch Operand :=
  ⟨name, .leaf (.view 0 (.captured (.value target)) 1)
    (.leaf (.copy 0 (.captured (.value source)) (.inner 1)) .nil)⟩

/-- There and back. -/
def copyFunc : Func :=
  ⟨[], .leaf (.launch (copyLaunch 0 0 1)) (.leaf (.launch (copyLaunch 1 1 0)) .nil)⟩

/-- A captured memref is written by a `memref.atomic_rmw`. -/
def atomicFunc : Func :=
  ⟨[], .leaf (.launch ⟨0, .leaf (.other 0 [.captured (.value 0)] []) .nil⟩) .nil⟩

/-- Memrefs of two elements that do not overlap, and zeros. -/
def zeroHost : Host ℕ Unit where
  mem _ := 0
  elements
    | .value name => [2 * name, 2 * name + 1]
    | _ => []
  scalars := ()
  launched := 0

def zeroStaged : Staged ℕ Unit := ⟨zeroHost, fun _ => none, fun _ _ => 0, []⟩

theorem copyFunc_safe {l : Launch Operand} {rest : Ops HostOp HostRegion} {h : Host ℕ Unit}
    (hreach : twoThreads.sourceMachine.Reaches (.leaf (.launch l) rest) copyFunc.body zeroHost h) :
    Safe twoThreads copyFunc.residentArgs l h := by
  cases hreach with
  | here =>
    have hlog : (twoThreads.launchSource (copyLaunch 0 0 1) zeroHost).log = [⟨true, .value 1, 3⟩,
      ⟨false, .value 0, 1⟩, ⟨true, .value 1, 2⟩, ⟨false, .value 0, 0⟩] := rfl
    exact Safe.of_log hlog (by simp [Coherent, lastWriter]) (by decide)
  | leaf hreach =>
    cases hreach with
    | here =>
      have hlog : (twoThreads.launchSource (copyLaunch 1 1 0) (twoThreads.sourceMachine.step
          (.launch (copyLaunch 0 0 1)) zeroHost)).log = [⟨true, .value 0, 1⟩,
          ⟨false, .value 1, 3⟩, ⟨true, .value 0, 0⟩, ⟨false, .value 1, 2⟩] := rfl
      exact Safe.of_log hlog (by simp [Coherent, lastWriter]) (by decide)
    | leaf hreach => cases hreach

theorem copyFunc_staged : ∃ s',
    (∀ t, twoThreads.stagedMachine.Exec copyFunc.stage zeroStaged t ↔ t = s') ∧
      [0, 1, 2, 3].map s'.host.mem = [2, 2, 1, 1] ∧
      ∃ es, s'.events = [] ++ es ∧ Bracketed es := by
  obtain ⟨s', hs', hhost, hevents⟩ := staging_preserves twoThreads copyFunc (.leaf (.leaf .nil))
    (fun _ _ _ => copyFunc_safe) zeroStaged rfl
  exact ⟨s', hs', congrArg (fun h : Host ℕ Unit => [0, 1, 2, 3].map h.mem) hhost, hevents⟩

/-- **A write that the pass does not know is lost.** -/
theorem atomic_write_lost : ¬ ∀ (M : Meaning ℕ Unit ℕ) (f : Func) (h h' : Host ℕ Unit),
    M.sourceMachine.Exec f.body h h' → ∀ s : Staged ℕ Unit, s.host = h →
      ∃ s', M.stagedMachine.Exec f.stage s s' ∧ s'.host = h' := by
  intro hall
  obtain ⟨s', hs', hhost⟩ := hall twoThreads atomicFunc zeroHost _ (.leaf .nil) zeroStaged rfl
  have hrun := hs'.deterministic (Regions.Machine.exec_ofList.2 .nil)
  subst hrun
  have hone := congrFun (congrArg Host.mem hhost) 0
  exact absurd hone (by decide)

end Matcore.Gpu.DataStaging
