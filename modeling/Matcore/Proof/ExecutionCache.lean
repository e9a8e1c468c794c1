import Matcore.Engine.ExecutionCache
import Matcore.Proof.CacheKey

/-!
# Whom the execution cache serves

The code a call returns was compiled for a request with the same key, in this process or in one
before it. So the caches serve every request that its key tells.
-/

namespace Matcore.Engine.ExecutionCache

open CacheKey

variable {H : Type} [DecidableEq H] {hash : List Char → H} {R : Set Request} {r : Request}
  {e : Surroundings} {s : Caches H}

/-- Code compiled for a request with this key. -/
def Belongs (R : Set Request) (key : List Char) (x : CachedExecution) : Prop :=
  x.compiledFor ∈ R ∧ x.compiledFor.key = key

/-- All shared objects are filed under the hashes of their keys. -/
def FiledOnDisk (hash : List Char → H) (R : Set Request) (disk : H → Option SharedObject) : Prop :=
  ∀ h x, disk h = some (.linked x) → x.compiledFor ∈ R ∧ hash x.compiledFor.key = h

/-- All executions are filed under their own keys. -/
structure Filed (hash : List Char → H) (R : Set Request) (s : Caches H) : Prop where
  memory : ∀ key x, s.memory key = some x → Belongs R key x
  disk : FiledOnDisk hash R s.disk

omit [DecidableEq H] in
theorem Filed.empty : Filed hash R .empty where
  memory := fun _ _ h => nomatch h
  disk := fun _ _ h => nomatch h

theorem none_belongs (R : Set Request) (key : List Char) : ∀ x ∈ none, Belongs R key x :=
  fun x hx => absurd hx (Option.not_mem_none x)

section disk
variable {disk : H → Option SharedObject}

theorem FiledOnDisk.update (h : FiledOnDisk hash R disk) {k : H} {file : Option SharedObject}
    (hfile : ∀ x, file = some (.linked x) → x.compiledFor ∈ R ∧ hash x.compiledFor.key = k) :
    FiledOnDisk hash R (Function.update disk k file) := by
  intro k' x hx
  by_cases hk : k' = k
  · subst hk
    rw [Function.update_self] at hx
    exact hfile x hx
  · rw [Function.update_of_ne hk] at hx
    exact h k' x hx

theorem FiledOnDisk.remove (h : FiledOnDisk hash R disk) (k : H) :
    FiledOnDisk hash R (Function.update disk k none) :=
  h.update fun _ hx => nomatch hx

/-- What is loaded was stored under the same hash, so under the same key. -/
theorem tryLoad_filed (hhash : Function.Injective hash) (h : FiledOnDisk hash R disk) :
    FiledOnDisk hash R (tryLoadDiskCachedExecution hash r e disk).2 ∧
      ∀ x ∈ (tryLoadDiskCachedExecution hash r e disk).1, Belongs R r.key x := by
  unfold tryLoadDiskCachedExecution
  have hkept : FiledOnDisk hash R
      (if e.corrupt then Function.update disk (hash r.key) none else disk) := by
    split
    · exact h.remove _
    · exact h
  split
  · split
    · exact ⟨h, none_belongs R r.key⟩
    · exact ⟨hkept, none_belongs R r.key⟩
    · rename_i x hx
      split
      · split
        · refine ⟨h, fun y hy => ?_⟩
          obtain rfl : x = y := Option.some.inj hy
          obtain ⟨hmem, hkey⟩ := h _ _ hx
          exact ⟨hmem, hhash hkey⟩
        · exact ⟨h.remove _, none_belongs R r.key⟩
      · exact ⟨hkept, none_belongs R r.key⟩
  · exact ⟨h, none_belongs R r.key⟩

theorem persist_filed (hr : r ∈ R) (h : FiledOnDisk hash R disk) {disk' : H → Option SharedObject}
    (hpersist : persistExecutionToDiskCache hash r e ⟨r⟩ disk = some disk') :
    FiledOnDisk hash R disk' := by
  unfold persistExecutionToDiskCache at hpersist
  split at hpersist
  · obtain rfl := Option.some.inj hpersist
    exact h
  · split at hpersist
    · obtain rfl := Option.some.inj hpersist
      refine h.update fun x hx => ?_
      obtain rfl : (⟨r⟩ : CachedExecution) = x := by simpa using hx
      exact ⟨hr, rfl⟩
    · cases hpersist

end disk

section memory
variable {memory : List Char → Option CachedExecution} {key : List Char} {x : CachedExecution}

theorem update_belongs (h : ∀ key x, memory key = some x → Belongs R key x) (hx : Belongs R key x) :
    ∀ key' y, Function.update memory key (some x) key' = some y → Belongs R key' y := by
  intro key' y hy
  by_cases hk : key' = key
  · subst hk
    rw [Function.update_self] at hy
    exact Option.some.inj hy ▸ hx
  · rw [Function.update_of_ne hk] at hy
    exact h key' y hy

theorem emplace_belongs (h : ∀ key x, memory key = some x → Belongs R key x)
    (hx : Belongs R key x) :
    Belongs R key (emplace memory key x).1 ∧
      ∀ key' y, (emplace memory key x).2 key' = some y → Belongs R key' y := by
  unfold emplace
  split
  · rename_i present hpresent
    exact ⟨h key present hpresent, h⟩
  · exact ⟨hx, update_belongs h hx⟩

end memory

/-- A call leaves the caches filed, and what it returns belongs to its key. -/
def Serves (hash : List Char → H) (R : Set Request) (key : List Char)
    (result : Option CachedExecution × Caches H) : Prop :=
  Filed hash R result.2 ∧ ∀ x ∈ result.1, Belongs R key x

theorem compileExecution_serves (hr : r ∈ R) (h : Filed hash R s) :
    Serves hash R r.key (compileExecution hash r e s) := by
  unfold compileExecution
  have hnew : Belongs R r.key ⟨r⟩ := ⟨hr, rfl⟩
  split
  · dsimp only
    split
    · exact ⟨h, none_belongs R r.key⟩
    · rename_i disk hpersist
      have hdisk : FiledOnDisk hash R disk := persist_filed hr h.disk hpersist
      split
      · refine ⟨⟨update_belongs h.memory hnew, hdisk⟩, fun x hx => ?_⟩
        exact Option.some.inj hx ▸ hnew
      · obtain ⟨hselected, hmemory⟩ := emplace_belongs h.memory hnew
        refine ⟨⟨hmemory, hdisk⟩, fun x hx => ?_⟩
        exact Option.some.inj hx ▸ hselected
  · exact ⟨h, none_belongs R r.key⟩

theorem getOrCreateExecution_serves (hhash : Function.Injective hash) (hr : r ∈ R)
    (h : Filed hash R s) : Serves hash R r.key (getOrCreateExecution hash r e s) := by
  have heligible : ∀ {x : CachedExecution}, Belongs R r.key x →
      ∀ y ∈ (if e.eligible then some x else none), Belongs R r.key y := by
    intro x hx y hy
    split at hy
    · exact Option.some.inj hy ▸ hx
    · cases hy
  unfold getOrCreateExecution
  split
  · exact compileExecution_serves hr h
  · split
    · rename_i x hx
      exact ⟨h, heligible (h.memory _ _ hx)⟩
    · have hload := tryLoad_filed (r := r) (e := e) hhash h.disk
      split
      · rename_i x disk heq
        rw [heq] at hload
        obtain ⟨hselected, hmemory⟩ := emplace_belongs h.memory (hload.2 x rfl)
        exact ⟨⟨hmemory, hload.1⟩, heligible hselected⟩
      · rename_i disk heq
        rw [heq] at hload
        exact compileExecution_serves hr ⟨h.memory, hload.1⟩

/-- The calls of a run are for requests of the set. -/
def CallsIn (R : Set Request) (events : List (Event H)) : Prop :=
  ∀ r e, .call r e ∈ events → r ∈ R

/-- What a whole run serves. -/
theorem served_belongs (hhash : Function.Injective hash) {events : List (Event H)}
    (hcalls : CallsIn R events) (h : Filed hash R s) :
    ∀ p ∈ served hash events s, p.1 ∈ R ∧ Belongs R p.1.key p.2 := by
  induction events generalizing s with
  | nil =>
    intro p hp
    exact absurd hp List.not_mem_nil
  | cons event events ih =>
    have hrest : CallsIn R events := fun r e hmem => hcalls r e (List.mem_cons_of_mem _ hmem)
    cases event with
    | call r e =>
      have hr : r ∈ R := hcalls r e List.mem_cons_self
      obtain ⟨hfiled, hreturned⟩ := getOrCreateExecution_serves (e := e) hhash hr h
      intro p hp
      obtain hp | hp := List.mem_append.1 hp
      · rw [Option.mem_toList] at hp
        obtain ⟨x, hx, rfl⟩ := Option.map_eq_some_iff.1 hp
        exact ⟨hr, hreturned x hx⟩
      · exact ih hrest hfiled p hp
    | restart => exact ih hrest ⟨fun _ _ hx => absurd hx (Option.some_ne_none _).symm, h.disk⟩
    | damage k =>
      refine ih hrest ⟨h.memory, h.disk.update fun x hx => ?_⟩
      obtain ⟨file, -, hfile⟩ := Option.map_eq_some_iff.1 hx
      cases hfile

/-- A call in which nothing fails and no file is written. -/
def plain : Surroundings := ⟨false, true, false, true, true, false, true⟩

/-- The first of two calls compiles, and the second one finds what it compiled. -/
theorem served_twice {r' : Request} (hkey : r.key = r'.key) :
    served hash [.call r plain, .call r' plain] .empty = [(r, ⟨r⟩), (r', ⟨r⟩)] := by
  have hmiss : (tryLoadDiskCachedExecution hash r plain (fun _ => none)) = (none, fun _ => none) := by
    unfold tryLoadDiskCachedExecution
    split <;> rfl
  have hpersist : persistExecutionToDiskCache hash r plain ⟨r⟩ (fun _ => none) =
      some (fun _ => none) := if_pos (.inr (.inr rfl))
  have hfirst : getOrCreateExecution hash r plain .empty =
      (some ⟨r⟩, ⟨Function.update (fun _ => none) r.key (some ⟨r⟩), fun _ => none⟩) := by
    unfold getOrCreateExecution Caches.empty
    rw [if_neg (by decide)]
    rw [hmiss]
    dsimp only
    unfold compileExecution
    rw [if_pos (by decide)]
    dsimp only
    rw [hpersist]
    rfl
  have hsecond : getOrCreateExecution hash r' plain
      ⟨Function.update (fun _ => none) r.key (some ⟨r⟩), fun _ => none⟩ =
      (some ⟨r⟩, ⟨Function.update (fun _ => none) r.key (some ⟨r⟩), fun _ => none⟩) := by
    unfold getOrCreateExecution
    rw [if_neg (by decide), ← hkey]
    dsimp only
    rw [Function.update_self]
    rfl
  simp only [served, hfirst, hsecond]
  rfl

/-- **Told requests** with the same key have equal inputs, and every run of calls for them serves each
with code for an equivalent request. -/
theorem cache_serves (hash : List Char → H) (hhash : Function.Injective hash)
    (read : List Char → Double) :
    (∀ r r' : Request, r.Told read → r'.Told read → r.key = r'.key → r.input = r'.input) ∧
    ∀ events : List (Event H), CallsIn {r | r.Told read} events →
      ∀ p ∈ served hash events .empty, p.2.compiledFor.input = p.1.input := by
  refine ⟨fun r r' hr hr' hkey => input_of_key hr hr' hkey, fun events hcalls p hp => ?_⟩
  obtain ⟨hmem, hcompiled, hkey⟩ := served_belongs hhash hcalls .empty p hp
  exact input_of_key hcompiled hmem hkey

/-- A graph of one node, whose output is the one of `kind` on the input and a half. -/
def graphRequest (kind : ElementwiseKind) : Request where
  kernel := {
    version := .graphV2
    kernelName := "combine"
    graph := some {
      values := [
        { symbol := "x", dtype := .float32, shape := [2, 3], valueKind := .input
          isParameter := true, consumers := [0] },
        { symbol := "y", dtype := .float32, shape := [2, 3], valueKind := .output
          isOutput := true, producer := some 0 }]
      nodes := [⟨0, .elementwise, [0], [1], .elementwise kind [0] [.finite false (1 / 2)] true, true⟩]
      inputValues := [0]
      outputValues := [1]
      topoOrder := [0] } }
  profile := { kind := .x86Auto }
  tensors := ["x", "y"].map fun symbol =>
    { symbol := symbol, dtype := .float32, shape := [2, 3], strides := [3, 1] }
  x86Profile := some ⟨.avx2, "haswell", "+avx2,+fma"⟩
  graphMode := false

/-- The numbers of the example, read back. -/
def readExample (text : List Char) : Double :=
  if text = (Double.finite false (1 / 2)).text then .finite false (1 / 2) else .finite false 1

theorem readExample_one : (Double.finite false 1).Short readExample :=
  if_neg (by decide +kernel)

theorem graphRequest_told (kind : ElementwiseKind) : (graphRequest kind).Told readExample where
  clean :=
    { name := (by decide : '|' ∉ "combine".toList)
      profile := ⟨nofun, (by decide : '|' ∉ "".toList)⟩
      x86Profile := by
        rintro x hx
        obtain rfl := Option.some.inj hx
        exact ⟨by decide, by decide⟩
      symbols := by
        intro symbol hsymbol
        have hclean : ∀ symbol ∈ ["x", "y"], ':' ∉ symbol.toList := by decide
        exact hclean symbol hsymbol
      tensors := by
        intro t ht
        obtain ⟨symbol, hsymbol, rfl⟩ := List.mem_map.1 (List.mem_of_mem_take ht)
        have hclean : ∀ symbol ∈ ["x", "y"], ':' ∉ symbol.toList := by decide
        exact hclean symbol hsymbol }
  loops := rfl
  params := rfl
  program := by
    refine ⟨fun i v hv => ?_, fun n hn => ?_⟩
    · match i with
      | 0 | 1 =>
        obtain rfl := Option.some.inj hv
        exact ⟨rfl, rfl⟩
      | _ + 2 => cases hv
    · obtain rfl := List.mem_singleton.1 hn
      intro s hs
      obtain rfl := List.mem_singleton.1 hs
      exact if_pos rfl
  quantization := readExample_one
  count := Nat.le_succ 2
  tensors := by
    intro t ht
    obtain ⟨symbol, -, rfl⟩ := List.mem_map.1 ht
    exact ⟨rfl, rfl, readExample_one⟩

/-- A call in which nothing fails and a file is written. -/
def dumping : Surroundings := { plain with dumps := true }

/-- Such a call gives code. -/
theorem getOrCreate_dumping (hash : List Char → H) (r : Request) (s : Caches H) :
    ∃ x s', getOrCreateExecution hash r dumping s = (some x, s') := by
  have hpersist : ∀ disk, ∃ disk',
      persistExecutionToDiskCache hash r dumping ⟨r⟩ disk = some disk' := by
    intro disk
    unfold persistExecutionToDiskCache
    split <;> exact ⟨_, rfl⟩
  unfold getOrCreateExecution
  rw [if_neg (by decide)]
  split
  · exact ⟨_, _, rfl⟩
  split
  · exact ⟨_, _, rfl⟩
  · rename_i disk _
    obtain ⟨disk', hdisk⟩ := hpersist disk
    unfold compileExecution
    rw [if_pos (by decide)]
    dsimp only
    rw [hdisk]
    exact ⟨_, _, rfl⟩

/-- Two graphs with different nodes, and the first one again in a new process. -/
theorem cache_serves_graphs :
    (served id [.call (graphRequest .relu) dumping, .call (graphRequest .sigmoid) dumping, .restart,
      .call (graphRequest .relu) dumping] .empty).map (·.2.compiledFor.input) =
      [(graphRequest .relu).input, (graphRequest .sigmoid).input, (graphRequest .relu).input] := by
  have hserved := (cache_serves id Function.injective_id readExample).2
    [.call (graphRequest .relu) dumping, .call (graphRequest .sigmoid) dumping, .restart,
      .call (graphRequest .relu) dumping] fun r e hmem => by
    simp only [List.mem_cons, Event.call.injEq, List.not_mem_nil, or_false, reduceCtorEq,
      false_or] at hmem
    obtain ⟨rfl, -⟩ | ⟨rfl, -⟩ | ⟨rfl, -⟩ := hmem <;> exact graphRequest_told _
  obtain ⟨x, s, hx⟩ := getOrCreate_dumping id (graphRequest .relu) .empty
  obtain ⟨y, t, hy⟩ := getOrCreate_dumping id (graphRequest .sigmoid) s
  obtain ⟨z, u, hz⟩ := getOrCreate_dumping id (graphRequest .relu) { t with memory := fun _ => none }
  simp only [served, hx, hy, hz] at hserved ⊢
  simpa using hserved

/-- A request for `C = A (kind) B` on two 2 by 2 matrices. -/
def elementwiseRequest (kind : ElementwiseKind) : Request where
  kernel := {
    kernelName := "combine"
    ops := [.elementwise "C" kind "A" "B"] }
  profile := { kind := .x86Auto }
  tensors := ["A", "B", "C"].map fun symbol =>
    { symbol := symbol, dtype := .float32, shape := [2, 2], strides := [2, 1] }
  x86Profile := some ⟨.avx2, "haswell", "+avx2,+fma"⟩
  graphMode := false

/-- The key has no kind of an operation of a linear kernel: after a sum of two matrices, a product is
served with the code of the sum. -/
theorem product_served_sum :
    (elementwiseRequest .add).key = (elementwiseRequest .mul).key ∧
    (elementwiseRequest .add).input ≠ (elementwiseRequest .mul).input ∧
    served id [.call (elementwiseRequest .add) plain,
      .call (elementwiseRequest .mul) plain] .empty =
      [(elementwiseRequest .add, ⟨elementwiseRequest .add⟩),
        (elementwiseRequest .mul, ⟨elementwiseRequest .add⟩)] := by
  have hkey : (elementwiseRequest .add).key = (elementwiseRequest .mul).key := rfl
  refine ⟨hkey, fun h => ?_, served_twice hkey⟩
  have hprogram := congrArg Input.program h
  cases hprogram

end Matcore.Engine.ExecutionCache
