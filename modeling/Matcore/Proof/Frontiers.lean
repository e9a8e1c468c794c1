import Matcore.Proof.Execution

/-!
# Frontier numbering

The forwarded reads and fused pairs of the emission are the derived ones.
-/

namespace Matcore.ClosedHost

open List (mem_cons mem_append mem_map mem_singleton forall_mem_cons)
open ClosedRegion
open PairDerivation (window_eq_some body_eq)

/-- The calls of a block, in source order. -/
def Block.calls : Block → List Call
  | .nil => []
  | .declare _ rest => rest.calls
  | .call c rest => c :: rest.calls
  | .branch _ _ _ thenBlock elseBlock rest => thenBlock.calls ++ (elseBlock.calls ++ rest.calls)

/-- The frontiers passed along each path through a block. -/
def Block.paths : Block → List (List ℕ)
  | .nil => [[]]
  | .declare _ rest => rest.paths
  | .call c rest => rest.paths.map (c.frontiers ++ ·)
  | .branch _ _ _ thenBlock elseBlock rest =>
    (thenBlock.paths ++ elseBlock.paths).flatMap fun arm => rest.paths.map (arm ++ ·)

/-- A call stands for the operations that `ops` has under its frontiers. -/
def Call.Names (ops : List (Operation × ℕ)) : Call → Prop
  | .read f resource rows columns result | .readForwarded f resource rows columns _ result =>
    ∃ op, (op, f) ∈ ops ∧ op.kind = .read ∧ op.resource = resource ∧ op.rows = rows ∧
      op.columns = columns ∧ op.result = result
  | .gemm f lhs rhs profile result =>
    ∃ op, (op, f) ∈ ops ∧ op.kind = .gemm ∧ op.lhs = lhs ∧ op.rhs = rhs ∧
      numeric op.numericalProfile = profile ∧ op.result = result
  | .gemmStrictFusedPair f₁ f₂ a b d result =>
    ∃ op consumer, (op, f₁) ∈ ops ∧ (consumer, f₂) ∈ ops ∧ op.kind = .gemm ∧
      consumer.kind = .gemm ∧ op.lhs = a ∧ op.rhs = b ∧ consumer.lhs = op.result ∧
      consumer.rhs = d ∧ consumer.result = result
  | .publish f value resource =>
    ∃ op, (op, f) ∈ ops ∧ op.kind = .publish ∧ op.lhs = value ∧ op.resource = resource
  | .observe f resource => ∃ op, (op, f) ∈ ops ∧ op.kind = .observe ∧ op.resource = resource

/-- A read of `id` has the number `f`. -/
def ReadAt (ops : List (Operation × ℕ)) (id : Id) (f : ℕ) : Prop :=
  ∃ op, (op, f) ∈ ops ∧ op.kind = .read ∧ op.result = id

/-- The publication of a record is the operation under its number. -/
def ForwardedRead.NamesPublication (ops : List (Operation × ℕ)) (r : ForwardedRead) : Prop :=
  ∃ op, (op, r.publicationFrontier) ∈ ops ∧ op.kind = .publish ∧ op.resource = r.resource ∧
    op.lhs = r.value

/-- The read and the publication of a record are the operations under its numbers. -/
def ForwardedRead.Names (ops : List (Operation × ℕ)) (r : ForwardedRead) : Prop :=
  (∃ op, (op, r.readFrontier) ∈ ops ∧ op.kind = .read ∧ op.resource = r.resource) ∧
    r.NamesPublication ops

/-- The products and the reads of a pair are the operations under its numbers. -/
structure StrictFusedPair.Names (ops : List (Operation × ℕ)) (p : StrictFusedPair) : Prop where
  first : ∃ op, (op, p.firstFrontier) ∈ ops ∧ op.kind = .gemm ∧ op.lhs = p.a ∧ op.rhs = p.b ∧
    op.result = p.intermediate
  second : ∃ op, (op, p.secondFrontier) ∈ ops ∧ op.kind = .gemm ∧ op.lhs = p.intermediate ∧
    op.rhs = p.d ∧ op.result = p.result
  adjacent : p.secondFrontier = p.firstFrontier + 1
  a : ReadAt ops p.a p.aReadFrontier
  b : ReadAt ops p.b p.bReadFrontier
  d : ReadAt ops p.d p.dReadFrontier

variable {o : Optimization} {uses : UseCounts} {b : Body} {current : Option ForwardedRead}
  {reads : Reads} {n : ℕ} {block : Block} {ops : List (Operation × ℕ)}

theorem numbered_subset {op : Operation} {t e rest : Body}
    (h : ∀ x ∈ numbered (.cons op t e rest) n, x ∈ ops) :
    (op, n) ∈ ops ∧ (∀ x ∈ numbered t (n + 1), x ∈ ops) ∧
      (∀ x ∈ numbered e (n + 1 + t.count), x ∈ ops) ∧
      ∀ x ∈ numbered rest (n + 1 + t.count + e.count), x ∈ ops := by
  simp only [numbered_cons, mem_cons, mem_append] at h
  exact ⟨h _ (.inl rfl), fun x hx => h x (.inr (.inl hx)), fun x hx => h x (.inr (.inr (.inl hx))),
    fun x hx => h x (.inr (.inr (.inr hx)))⟩

/-- Every emitted call carries the number of the operation it stands for. -/
theorem names_of_emits (hb : Emits o uses b current reads n block)
    (hops : ∀ x ∈ numbered b n, x ∈ ops) : ∀ c ∈ block.calls, c.Names ops := by
  induction hb with
  | nil => simp [Block.calls]
  | @read op rest current _ n block kind _ ih =>
    obtain ⟨hop, -, -, hrest⟩ := numbered_subset hops
    refine forall_mem_cons.2 ⟨?_, ih hrest⟩
    unfold readCallOf
    split <;> exact ⟨op, hop, kind, rfl, rfl, rfl, rfl⟩
  | @gemm op rest _ _ n block kind _ _ ih =>
    obtain ⟨hop, -, -, hrest⟩ := numbered_subset hops
    refine forall_mem_cons.2 ⟨?_, ih hrest⟩
    exact ⟨op, hop, kind, rfl, rfl, rfl, rfl⟩
  | @pair op consumer beyond _ reads n block p window _ ih =>
    obtain ⟨-, consumer', t', e', beyond', heq, hw⟩ := headWindow_eq_some window
    obtain ⟨rfl, -, -, -⟩ := Body.cons.inj heq
    obtain ⟨hk, -, hk', -, hl, -, _, _, _, -, -, -, rfl⟩ := window_eq_some hw
    obtain ⟨hop, -, -, hrest⟩ := numbered_subset hops
    obtain ⟨hconsumer, -, -, hrest⟩ := numbered_subset hrest
    refine forall_mem_cons.2 ⟨?_, ih hrest⟩
    exact ⟨op, consumer, hop, hconsumer, hk, hk', rfl, rfl, hl, rfl, rfl⟩
  | @publish op rest _ _ n block kind _ ih =>
    obtain ⟨hop, -, -, hrest⟩ := numbered_subset hops
    refine forall_mem_cons.2 ⟨?_, ih hrest⟩
    exact ⟨op, hop, kind, rfl, rfl⟩
  | @observe op rest _ _ n block kind _ ih =>
    obtain ⟨hop, -, -, hrest⟩ := numbered_subset hops
    refine forall_mem_cons.2 ⟨?_, ih hrest⟩
    exact ⟨op, hop, kind, rfl⟩
  | shapeIf _ _ _ _ iht ihe ihr =>
    obtain ⟨-, ht, he, hrest⟩ := numbered_subset hops
    intro c hc
    simp only [Block.calls, mem_append] at hc
    rcases hc with hc | hc | hc
    · exact iht ht c hc
    · exact ihe he c hc
    · exact ihr hrest c hc

/-- Every derived record names operations by their numbers. -/
theorem plan_names (hb : Emits o uses b current reads n block) (hnested : b.Nested)
    (hops : ∀ x ∈ numbered b n, x ∈ ops) (hcurrent : ∀ c ∈ current, c.NamesPublication ops)
    (hreads : ∀ id f, reads id = some f → ReadAt ops id f) :
    (∀ r ∈ (planFrom o uses b current reads n).reads, r.Names ops) ∧
      ∀ p ∈ (planFrom o uses b current reads n).pairs, p.Names ops := by
  induction hb with
  | nil => rw [planFrom_nil]; simp
  | @read op rest current reads n _ kind _ ih =>
    obtain ⟨hop, -, -, hrest⟩ := numbered_subset hops
    rw [planFrom_read o uses current reads n kind hnested.2.2.2]
    obtain ⟨ihr, ihp⟩ := ih hnested.2.2.2 hrest hcurrent fun id f h => by
      by_cases hid : id = op.result
      · subst hid
        simp only [Reads.emplace, Function.update_self, Option.some.injEq] at h
        -- `emplace` keeps the entry of an earlier read
        cases hr : reads op.result with
        | none => rw [hr] at h; exact ⟨op, h ▸ hop, kind, rfl⟩
        | some g => rw [hr] at h; exact h ▸ hreads _ g hr
      · rw [Reads.emplace, Function.update_of_ne hid] at h
        exact hreads id f h
    refine ⟨fun r hr => ?_, ihp⟩
    rcases mem_append.1 hr with hr | hr
    · have hr := Option.mem_toList.1 hr
      unfold forwardedRead at hr
      obtain ⟨c, hc, hr⟩ := Option.bind_eq_some_iff.1 hr
      split at hr
      · rename_i hres
        simp only [Bool.and_eq_true, beq_iff_eq] at hres
        cases hr
        exact ⟨⟨op, hop, kind, hres.2.symm⟩, hcurrent c hc⟩
      · cases hr
    · exact ihr r hr
  | @gemm op rest current reads n _ kind window _ ih =>
    obtain ⟨_, -, -, hrest⟩ := numbered_subset hops
    rw [planFrom_gemm o uses current reads n kind hnested.2.2.2 window]
    exact ih hnested.2.2.2 hrest hcurrent hreads
  | @pair op consumer beyond current reads n _ p window _ ih =>
    obtain ⟨hop, -, -, hrest⟩ := numbered_subset hops
    obtain ⟨hconsumer, -, -, hrest⟩ := numbered_subset hrest
    have hbeyond := hnested.2.2.2.2.2.2
    rw [planFrom_pair o uses current reads n hbeyond window]
    obtain ⟨ihr, ihp⟩ := ih hbeyond hrest hcurrent hreads
    refine ⟨ihr, fun q hq => ?_⟩
    rcases mem_cons.1 hq with rfl | hq
    · obtain ⟨-, consumer', t', e', beyond', heq, hw⟩ := headWindow_eq_some window
      obtain ⟨rfl, -, -, -⟩ := Body.cons.inj heq
      obtain ⟨hk, -, hk', -, hl, -, fa, fb, fd, ha, hb, hd, rfl⟩ :=
        window_eq_some hw
      exact ⟨⟨op, hop, hk, rfl, rfl, rfl⟩, ⟨consumer, hconsumer, hk', hl, rfl, rfl⟩, rfl,
        hreads _ _ ha, hreads _ _ hb, hreads _ _ hd⟩
    · exact ihp q hq
  | @publish op rest current reads n _ kind _ ih =>
    obtain ⟨hop, -, -, hrest⟩ := numbered_subset hops
    rw [planFrom_publish o uses current reads n kind hnested.2.2.2]
    exact ih hnested.2.2.2 hrest (fun c hc => by cases hc; exact ⟨op, hop, kind, rfl, rfl⟩) hreads
  | @observe op rest current reads n _ kind _ ih =>
    obtain ⟨_, -, -, hrest⟩ := numbered_subset hops
    rw [planFrom_observe o uses current reads n kind hnested.2.2.2]
    exact ih hnested.2.2.2 hrest hcurrent hreads
  | @shapeIf op t e rest current reads n _ _ _ kind _ _ _ iht ihe ihr =>
    obtain ⟨-, ht, he, hrest⟩ := numbered_subset hops
    obtain ⟨-, hnt, hne, hnr⟩ := hnested
    rw [planFrom_shapeIf o uses current reads n kind hnt hne hnr]
    obtain ⟨htr, htp⟩ := iht hnt ht nofun hreads
    obtain ⟨her, hep⟩ := ihe hne he nofun hreads
    obtain ⟨hrr, hrp⟩ := ihr hnr hrest nofun hreads
    constructor
    · intro r hr
      rcases mem_append.1 hr with hr | hr
      · exact htr r hr
      · exact (mem_append.1 hr).elim (her r) (hrr r)
    · intro p hp
      rcases mem_append.1 hp with hp | hp
      · exact htp p hp
      · exact (mem_append.1 hp).elim (hep p) (hrp p)

/-- The frontier, resource and value of a forwarded read. -/
def Call.forwarded? : Call → Option (ℕ × Id × Id)
  | .readForwarded f resource _ _ published _ => some (f, resource, published)
  | _ => none

/-- The frontiers and values of a fused pair. -/
def Call.pair? : Call → Option (ℕ × ℕ × Id × Id × Id × Id)
  | .gemmStrictFusedPair f₁ f₂ a b d result => some (f₁, f₂, a, b, d, result)
  | _ => none

/-- The emission realizes exactly the records of a plan. -/
def Block.Realizes (block : Block) (plan : Plan) : Prop :=
  block.calls.filterMap Call.forwarded? =
      plan.reads.map (fun r => (r.readFrontier, r.resource, r.value)) ∧
    block.calls.filterMap Call.pair? =
      plan.pairs.map fun p => (p.firstFrontier, p.secondFrontier, p.a, p.b, p.d, p.result)

/-- **The emission realizes the derived records**, and no others. -/
theorem realizes_of_emits (hb : Emits o uses b current reads n block) (hnested : b.Nested) :
    block.Realizes (planFrom o uses b current reads n) := by
  induction hb with
  | nil => rw [planFrom_nil]; exact ⟨rfl, rfl⟩
  | @read op rest current reads n block kind _ ih =>
    obtain ⟨hf, hp⟩ := ih hnested.2.2.2
    rw [planFrom_read o uses current reads n kind hnested.2.2.2]
    cases hr : forwardedRead (o == .publicationReadForwarding) current op n with
    | none => exact ⟨hf, hp⟩
    | some r =>
      have hfrontier := forwardedRead_frontier hr
      have hresource : r.resource = op.resource := by
        unfold forwardedRead at hr
        obtain ⟨c, -, hr⟩ := Option.bind_eq_some_iff.1 hr
        split at hr
        · rename_i hc
          simp only [Bool.and_eq_true, beq_iff_eq] at hc
          cases hr
          exact hc.2
        · cases hr
      refine ⟨?_, hp⟩
      simp [Block.calls, Call.forwarded?, readCallOf, Plan.append, hf, hfrontier, hresource]
  | @gemm op rest current reads n block kind window _ ih =>
    rw [planFrom_gemm o uses current reads n kind hnested.2.2.2 window]
    exact ih hnested.2.2.2
  | @pair op consumer beyond current reads n block p window _ ih =>
    have hbeyond := hnested.2.2.2.2.2.2
    obtain ⟨hf, hp⟩ := ih hbeyond
    rw [planFrom_pair o uses current reads n hbeyond window]
    obtain ⟨-, _, _, _, _, -, hw⟩ := headWindow_eq_some window
    obtain ⟨-, -, -, -, -, -, _, _, _, -, -, -, rfl⟩ := window_eq_some hw
    refine ⟨hf, ?_⟩
    simp [Block.calls, Call.pair?, Plan.append, hp]
  | @publish op rest current reads n block kind _ ih =>
    rw [planFrom_publish o uses current reads n kind hnested.2.2.2]
    exact ih hnested.2.2.2
  | @observe op rest current reads n block kind _ ih =>
    rw [planFrom_observe o uses current reads n kind hnested.2.2.2]
    exact ih hnested.2.2.2
  | @shapeIf op t e rest current reads n thenBlock elseBlock block kind _ _ _ iht ihe ihr =>
    obtain ⟨-, hnt, hne, hnr⟩ := hnested
    rw [planFrom_shapeIf o uses current reads n kind hnt hne hnr]
    obtain ⟨htf, htp⟩ := iht hnt
    obtain ⟨hef, hep⟩ := ihe hne
    obtain ⟨hrf, hrp⟩ := ihr hnr
    constructor
    · simp [Block.calls, Plan.append, List.filterMap_append, htf, hef, hrf]
    · simp [Block.calls, Plan.append, List.filterMap_append, htp, hep, hrp]

/-- The frontiers of a path increase within a range. -/
structure PathIn (lo hi : ℕ) (path : List ℕ) : Prop where
  sorted : path.Pairwise (· < ·)
  range : ∀ f ∈ path, lo ≤ f ∧ f < hi

namespace PathIn

variable {lo mid hi : ℕ} {path path' : List ℕ}

theorem append (h : PathIn lo mid path) (h' : PathIn mid hi path') (hl : lo ≤ mid)
    (hh : mid ≤ hi) : PathIn lo hi (path ++ path') where
  sorted := List.pairwise_append.2 ⟨h.sorted, h'.sorted,
    fun f hf g hg => (h.range f hf).2.trans_le (h'.range g hg).1⟩
  range f hf := by
    rcases mem_append.1 hf with hf | hf
    · exact ⟨(h.range f hf).1, (h.range f hf).2.trans_le hh⟩
    · exact ⟨hl.trans (h'.range f hf).1, (h'.range f hf).2⟩

theorem mono (h : PathIn lo hi path) {lo' hi' : ℕ} (hl : lo' ≤ lo) (hh : hi ≤ hi') :
    PathIn lo' hi' path :=
  ⟨h.sorted, fun f hf => ⟨hl.trans (h.range f hf).1, (h.range f hf).2.trans_le hh⟩⟩

theorem singleton (n : ℕ) : PathIn n (n + 1) [n] :=
  ⟨List.pairwise_singleton _ _, by simp⟩

end PathIn

/-- Along every path the frontiers increase within the body's range. -/
theorem paths_of_emits (hb : Emits o uses b current reads n block) :
    ∀ path ∈ block.paths, PathIn n (n + b.count) path := by
  have call : ∀ {c : Call} {rest : Block} {n k m : ℕ}, PathIn n k c.frontiers →
      (∀ path ∈ rest.paths, PathIn k m path) → n ≤ k → k ≤ m →
      ∀ path ∈ (Block.call c rest).paths, PathIn n m path := by
    intro c rest n k m hc hr hn hk path hpath
    obtain ⟨path', hpath', rfl⟩ := mem_map.1 hpath
    exact hc.append (hr path' hpath') hn hk
  induction hb with
  | nil =>
    intro path hpath
    rw [mem_singleton.1 hpath]
    exact ⟨.nil, by simp⟩
  | @read op rest current _ n block _ _ ih =>
    refine call (k := n + 1) ?_ (fun path hp => (ih path hp).mono le_rfl (by simp; omega))
      (by omega) (by simp)
    unfold readCallOf
    split <;> exact .singleton n
  | @gemm op rest _ _ n block _ _ _ ih | @publish op rest _ _ n block _ _ ih
  | @observe op rest _ _ n block _ _ ih =>
    exact call (.singleton n) (fun path hp => (ih path hp).mono le_rfl (by simp; omega))
      (by omega) (by simp)
  | @pair op consumer beyond _ reads n block p window _ ih =>
    obtain ⟨-, _, _, _, _, -, hw⟩ := headWindow_eq_some window
    obtain ⟨-, -, -, -, -, -, _, _, _, -, -, -, rfl⟩ := window_eq_some hw
    refine call (k := n + 2) ?_ (fun path hp => (ih path hp).mono le_rfl (by simp; omega))
      (by omega) (by simp; omega)
    exact (PathIn.singleton n).append (PathIn.singleton (n + 1)) (by omega) (by omega)
  | @shapeIf op t e rest _ _ n thenBlock elseBlock block _ _ _ _ iht ihe ihr =>
    intro path hpath
    simp only [Block.paths, List.mem_flatMap, mem_append, mem_map] at hpath
    obtain ⟨arm, harm, path', hpath', rfl⟩ := hpath
    have harm : PathIn n (n + 1 + t.count + e.count) arm := by
      rcases harm with harm | harm
      · exact (iht arm harm).mono (by omega) (by omega)
      · exact (ihe arm harm).mono (by omega) (by omega)
    exact harm.append ((ihr path' hpath').mono le_rfl (by simp; omega)) (by omega) (by simp; omega)

theorem ready_init {F : Type} (candidate : Candidate) :
    Ready ({ candidate } : Session F) 1 := ⟨rfl, rfl, rfl, rfl, Nat.one_pos⟩

/-- The world that a block leaves. -/
def Flow.world {F : Type} : Flow F → World F
  | .next _ w | .returned w => w

/-- **The rule of a block**: it keeps what each of its calls keeps. -/
theorem exec_keeps {F : Type} {ps : Parameters} {args : Arguments} {host : Host F}
    {P : World F → Prop} {block : Block} {env : Env F} {w : World F} {flow : Flow F}
    (hcall : ∀ c ∈ block.calls, ∀ env w request, ps.request args env c = some (request, c.target) →
      P w → P (request.apply host w).1)
    (h : block.exec ps args host env w = some flow) (hw : P w) : P flow.world := by
  induction block generalizing env w flow with
  | nil => cases h; exact hw
  | declare id rest ih => exact ih hcall (exec_declare h).2 hw
  | call c rest ih =>
    obtain ⟨hc, hrest⟩ := forall_mem_cons.1 hcall
    obtain ⟨request, hreq, ⟨-, h⟩ | ⟨-, rfl⟩⟩ := exec_call h
    · exact ih hrest h (hc _ _ _ hreq hw)
    · exact hc _ _ _ hreq hw
  | branch lhs comparison rhs t e rest iht ihe ihr =>
    obtain ⟨ht, he, hr⟩ : (∀ c ∈ t.calls, _) ∧ (∀ c ∈ e.calls, _) ∧ ∀ c ∈ rest.calls, _ := by
      simpa only [Block.calls, List.forall_mem_append] using hcall
    obtain ⟨x, y, inner, -, -, hi, hrest⟩ := exec_branch h
    have hinner : P inner.world := by
      split at hi
      · exact iht ht hi hw
      · exact ihe he hi hw
    rcases hrest with ⟨env', w', rfl, h⟩ | ⟨w', rfl, rfl⟩
    · exact ihr hr h hinner
    · exact hinner

variable {program : Program} {region : Region}

/-- **An emitted region runs** on a fresh session, and does not fail for its frontier. -/
theorem call_of_admitted (h : verifyProgram program = .ok ()) (hregion : region ∈ program.regions)
    {emission : Emission} (he : emission.Of region o) {F : Type} (host : Host F) (args : Arguments)
    (candidate : Candidate) (mem : FlatMemory.Mem F) :
    ∃ status w, emission.call args host ⟨{ candidate }, mem, []⟩ = some (status, w) ∧
      status.code ≠ .invalidFrontier := by
  obtain ⟨ctx, after, hres, hpar, hv⟩ := verifyBody_of_program h hregion
  have hadd := region.addressable
  have hscoped := scoped_of_region hv hres hpar he
  have hs : InScope emission.parameters (fun _ => none : Env F) emission.parameters.names :=
    ⟨by simp [Parameters.names], by simp [Parameters.names], by simp [Parameters.names]⟩
  obtain ⟨flow, hflow, hgood⟩ : ∃ flow, emission.block.exec emission.parameters args host
      (fun _ => none) ⟨{ candidate }, mem, []⟩ = some flow ∧ flow.Good (1 + region.body.count) :=
    exec_ready he.emits hscoped hs (ready_init candidate) (by omega)
  unfold Emission.call
  rw [if_neg (by simp [World.status]), if_neg (by simp [World.status, Status.pristine]), hflow]
  cases flow with
  | returned w => exact ⟨_, _, rfl, hgood⟩
  | next env w =>
    refine ⟨_, _, rfl, ?_⟩
    intro hf
    rw [he.completion] at hf
    refine ready_failed hgood (r := .complete (.ofNat (1 + region.body.count)))
      ⟨toNat_ofNat (by omega), rfl⟩ ?_ hf
    exact fun hok => absurd (hok.symm.trans hf) (by decide)

/-- **The traversals agree on frontier numbering**, and no emitted region fails for one. -/
theorem traversals_agree (h : verifyProgram program = .ok ()) (hregion : region ∈ program.regions)
    {o : Optimization} {plan : Plan} (hp : deriveClosedHostPlan region.body o = .ok plan) :
    let ops := numbered region.body 1
    (readDerivation region.body o).visited = ops ∧
      (pairDerivation region.body).visited = ops ∧
      (∃ block emitter, Emitter.body plan region.body {} = some (block, emitter) ∧
        emitter.visited = ops) ∧
      (∀ r ∈ plan.reads, r.Names ops) ∧
      (∀ p ∈ plan.pairs, p.Names ops) ∧
      ∃ emission, emitClosedHostV1 region plan = some emission ∧
        emission.frontiers = ops.map ledger ∧
        emission.block.Realizes plan ∧
        (∀ c ∈ emission.block.calls, c.Names ops) ∧
        (∀ path ∈ emission.block.paths,
          (path ++ [emission.completionFrontier]).Pairwise (· < ·)) ∧
        ∀ {F : Type} (host : Host F) (args : Arguments) (candidate : Candidate)
          (mem : FlatMemory.Mem F),
          ∃ status w, emission.call args host ⟨{ candidate }, mem, []⟩ = some (status, w) ∧
            status.code ≠ .invalidFrontier := by
  intro ops
  obtain ⟨ctx, after, -, -, hv⟩ := verifyBody_of_program h hregion
  have hnested := nested_of_verify hv
  have hplan := plan_of_derive hp
  obtain ⟨block, hbody, hemits⟩ := emit_of_plan hnested hplan
  obtain ⟨emission, he, hof⟩ := emission_of_plan hnested hplan
  obtain ⟨hreads, hpairs⟩ := plan_names hemits hnested (fun _ hx => hx) nofun nofun
  rw [← hplan] at hreads hpairs
  refine ⟨?_, ?_, ⟨block, _, hbody, ?_⟩, hreads, hpairs, emission, he, hof.frontiers, ?_,
    names_of_emits hof.emits fun _ hx => hx, fun path hpath => ?_,
    fun host args candidate mem => call_of_admitted h hregion hof host args candidate mem⟩
  · unfold readDerivation
    rw [Derivation.body_eq _ hnested]; rfl
  · unfold pairDerivation
    rw [body_eq _ hnested]; rfl
  · simp [Emitter.after, ops]
  · rw [hplan]; exact realizes_of_emits hof.emits hnested
  · have hin := paths_of_emits hof.emits path hpath
    rw [hof.completion]
    refine List.pairwise_append.2 ⟨hin.sorted, List.pairwise_singleton _ _, fun f hf g hg => ?_⟩
    rw [mem_singleton.1 hg]
    exact (hin.range f hf).2

/-- In the two-layer region the products 3 and 4 fuse. -/
theorem traversals_agree_twoLayer :
    let plan : Plan := ⟨[], [⟨3, 4, 1, 2, 2, 3, 4, 1, 2, 2⟩]⟩
    deriveClosedHostPlan twoLayer.body .strictFusedPair = .ok plan ∧
      ∃ emission, emitClosedHostV1 twoLayer plan = some emission ∧
        emission.block.Realizes plan ∧
        ∀ path ∈ emission.block.paths,
          (path ++ [emission.completionFrontier]).Pairwise (· < ·) := by
  intro plan
  have hp : deriveClosedHostPlan twoLayer.body .strictFusedPair = .ok plan := by rfl
  obtain ⟨-, -, -, -, -, emission, he, -, hrealizes, -, hpaths, -⟩ :=
    traversals_agree verify_twoLayer (mem_singleton.2 rfl) hp
  exact ⟨hp, emission, he, hrealizes, hpaths⟩

end Matcore.ClosedHost
