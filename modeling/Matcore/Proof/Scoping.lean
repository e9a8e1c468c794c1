import Matcore.Proof.Emission

/-!
# The scoping of emitted statements

The emitted statements of an admitted program are scoped, with the intermediates of fused pairs left
out.
-/

namespace Matcore.ClosedHost

open Function (update_of_ne)
open List (mem_cons mem_append mem_cons_of_mem mem_cons_self nil_subset cons_subset count_cons)
open ClosedRegion

/-- A name in the emitted function. -/
inductive Name where
  | value (id : Id)
  | resource (id : Id)
  | shape (id : Id)

def dimensionNames (dim : Dimension) : List Name :=
  match dim.kind with
  | .literal => []
  | .shapeParameter => [.shape dim.reference]
  | .valueRows | .valueColumns => [.value dim.reference]

/-- The names in the arguments of a call. -/
def Call.names : Call → List Name
  | .read _ resource rows columns result =>
    .resource resource :: .value result :: (dimensionNames rows ++ dimensionNames columns)
  | .readForwarded _ resource rows columns published result =>
    .resource resource :: .value result :: .value published ::
      (dimensionNames rows ++ dimensionNames columns)
  | .gemm _ lhs rhs _ result => [.value lhs, .value rhs, .value result]
  | .gemmStrictFusedPair _ _ a b d result => [.value a, .value b, .value d, .value result]
  | .publish _ value resource => [.value value, .resource resource]
  | .observe _ resource => [.resource resource]

/-- The names that the emitted function has for its parameters. -/
def Parameters.names (ps : Parameters) : List Name :=
  ps.resources.map .resource ++ ps.shapes.map .shape

namespace Block

/-- The names in the statements of a block. -/
def names : Block → List Name
  | .nil => []
  | .declare id rest => .value id :: rest.names
  | .call c rest => c.names ++ rest.names
  | .branch lhs _ rhs thenBlock elseBlock rest =>
    dimensionNames lhs ++ dimensionNames rhs ++ (thenBlock.names ++ (elseBlock.names ++ rest.names))

/-- The values that a block declares, at any nesting. -/
def declared : Block → List Id
  | .nil => []
  | .declare id rest => id :: rest.declared
  | .call _ rest => rest.declared
  | .branch _ _ _ thenBlock elseBlock rest =>
    thenBlock.declared ++ (elseBlock.declared ++ rest.declared)

/-- Every name is declared in front of its uses, in their block or one around it, and none where
it is visible. -/
def Scoped : List Name → Block → Prop
  | _, .nil => True
  | scope, .declare id rest => .value id ∉ scope ∧ rest.Scoped (.value id :: scope)
  | scope, .call c rest => c.names ⊆ scope ∧ rest.Scoped scope
  | scope, .branch lhs _ rhs thenBlock elseBlock rest =>
    dimensionNames lhs ++ dimensionNames rhs ⊆ scope ∧ thenBlock.Scoped scope ∧
      elseBlock.Scoped scope ∧ rest.Scoped scope

variable {scope : List Name} {block : Block} {id : Id}

theorem mem_of_scoped (h : block.Scoped scope) (hid : .value id ∈ block.names) :
    .value id ∈ scope ∨ id ∈ block.declared := by
  induction block generalizing scope with
  | nil => cases hid
  | declare id' rest ih =>
    rcases mem_cons.1 hid with hid | hid
    · cases hid
      exact .inr mem_cons_self
    · rcases ih h.2 hid with hid | hid
      · rcases mem_cons.1 hid with hid | hid
        · cases hid
          exact .inr mem_cons_self
        · exact .inl hid
      · exact .inr (mem_cons_of_mem _ hid)
  | call c rest ih => exact (mem_append.1 hid).elim (fun hid => .inl (h.1 hid)) (ih h.2)
  | branch lhs comparison rhs thenBlock elseBlock rest iht ihe ihr =>
    obtain ⟨hdims, ht, he, hr⟩ := h
    simp only [names, declared, mem_append] at hid ⊢
    rcases hid with hid | hid | hid | hid
    · exact .inl (hdims (mem_append.2 hid))
    · exact (iht ht hid).imp_right .inl
    · exact (ihe he hid).imp_right fun h => .inr (.inl h)
    · exact (ihr hr hid).imp_right fun h => .inr (.inr h)

end Block

/-- The uses of a value in a dimension. -/
def dimensionUses (dim : Dimension) (id : Id) : ℕ :=
  if (dim.kind = .valueRows ∨ dim.kind = .valueColumns) ∧ dim.reference = id then 1 else 0

/-- The uses of a value in an operation, without its nested bodies. -/
def operationUses (op : Operation) (id : Id) : ℕ :=
  match op.kind with
  | .read => dimensionUses op.rows id + dimensionUses op.columns id
  | .gemm => (if op.lhs = id then 1 else 0) + (if op.rhs = id then 1 else 0)
  | .publish => if op.lhs = id then 1 else 0
  | .observe => 0
  | .shapeIf => dimensionUses op.conditionLhs id + dimensionUses op.conditionRhs id

/-- The uses of a value in a body. -/
def usesOf : Body → Id → ℕ
  | .nil, _ => 0
  | .cons op t e rest, id =>
    operationUses op id + (if op.kind = .shapeIf then usesOf t id + usesOf e id else 0) +
      usesOf rest id

theorem use_eq (uses : UseCounts) (id id' : Id) :
    use uses id id' = uses id' + if id = id' then 1 else 0 := by
  unfold use
  by_cases h : id = id'
  · subst h; simp
  · simp [h, update_of_ne (Ne.symm h)]

theorem dimensionUse_eq (dim : Dimension) (uses : UseCounts) (id : Id) :
    dimensionUse dim uses id = uses id + dimensionUses dim id := by
  unfold dimensionUse dimensionUses
  cases dim.kind <;> simp [use_eq]

theorem countUses_eq (b : Body) (uses : UseCounts) (id : Id) :
    countUses b uses id = uses id + usesOf b id := by
  induction b generalizing uses with
  | nil => rfl
  | cons op t e rest iht ihe ihr =>
    unfold countUses usesOf operationUses
    rw [ihr]
    cases op.kind <;> dsimp only
    · rw [dimensionUse_eq, dimensionUse_eq]; simp; omega
    · rw [use_eq, use_eq]; simp; omega
    · rw [use_eq]; simp; omega
    · simp
    · rw [ihe, iht, dimensionUse_eq, dimensionUse_eq]; simp; omega

variable {ctx : Context} {values after : Values} {scope : List Name} {b : Body} {depth : ℕ}

/-- The names in scope are those of parameters and admitted values, and hold every parameter and
every admitted value that the body uses. -/
structure Declared (ctx : Context) (values : Values) (scope : List Name) (b : Body) : Prop where
  known : ∀ id, .value id ∈ scope → id ∈ values.all
  used : ∀ id, (values.scope id).isSome → usesOf b id ≠ 0 → .value id ∈ scope
  resources : ∀ id ∈ ctx.resources, .resource id ∈ scope
  shapes : ∀ id ∈ ctx.parameters, .shape id ∈ scope

namespace Declared

variable {b' : Body} {result : Id} {shape : Shape} {dim : Dimension}

variable (hd : Declared ctx values scope b)

include hd

theorem define (hu : ∀ id, id ≠ result → usesOf b' id ≠ 0 → usesOf b id ≠ 0) :
    Declared ctx (values.define result shape) (.value result :: scope) b' where
  known id hid := by
    rcases mem_cons.1 hid with hid | hid
    · cases hid
      exact mem_cons_self
    · exact mem_cons_of_mem _ (hd.known id hid)
  used id hs hid := by
    by_cases h : id = result
    · exact h ▸ mem_cons_self
    · have hs : (values.scope id).isSome := by simpa only [Values.define, update_of_ne h] using hs
      exact mem_cons_of_mem _ (hd.used id hs (hu id h hid))
  resources id hid := mem_cons_of_mem _ (hd.resources id hid)
  shapes id hid := mem_cons_of_mem _ (hd.shapes id hid)

/-- A value that is not declared and not used. -/
theorem hide (hu : ∀ id, usesOf b' id ≠ 0 → id ≠ result ∧ usesOf b id ≠ 0) :
    Declared ctx (values.define result shape) scope b' where
  known id hid := mem_cons_of_mem _ (hd.known id hid)
  used id hs hid := by
    obtain ⟨h, hid⟩ := hu id hid
    exact hd.used id (by simpa only [Values.define, update_of_ne h] using hs) hid
  resources := hd.resources
  shapes := hd.shapes

theorem mono {values' : Values} (hscope : values'.scope = values.scope)
    (hall : ∀ id ∈ values.all, id ∈ values'.all)
    (hu : ∀ id, usesOf b' id ≠ 0 → usesOf b id ≠ 0) : Declared ctx values' scope b' where
  known id hid := hall id (hd.known id hid)
  used id hs hid := hd.used id (hscope ▸ hs) (hu id hid)
  resources := hd.resources
  shapes := hd.shapes

theorem dimension (h : DimensionOk ctx.parameters values.scope dim)
    (hu : ∀ id, dimensionUses dim id ≠ 0 → usesOf b id ≠ 0) : dimensionNames dim ⊆ scope := by
  unfold DimensionOk at h
  unfold dimensionNames
  cases hk : dim.kind <;> simp only [hk] at h ⊢
  · exact nil_subset _
  · exact cons_subset.2 ⟨hd.shapes _ h, nil_subset _⟩
  all_goals
    exact cons_subset.2 ⟨hd.used _ h (hu _ (by simp [dimensionUses, hk])), nil_subset _⟩

end Declared

variable {o : Optimization} {uses : UseCounts} {current : Option ForwardedRead} {reads : Reads}
  {n : ℕ} {block : Block}

theorem mem_of_forwardedRead {enabled : Bool} {op : Operation} {r : ForwardedRead}
    (hr : forwardedRead enabled current op n = some r) : ∃ c ∈ current, c.value = r.value := by
  unfold forwardedRead at hr
  obtain ⟨c, hc, hr⟩ := Option.bind_eq_some_iff.1 hr
  split at hr <;> cases hr
  exact ⟨c, hc, rfl⟩

/-- The statements of an admitted body are scoped. -/
theorem scoped_of_emits (hb : Emits o uses b current reads n block)
    (hv : verifyBody ctx depth b values = .ok after) (huses : ∀ id, usesOf b id ≤ uses id)
    (hd : Declared ctx values scope b) (hf : ∀ c ∈ current, .value c.value ∈ scope) :
    block.Scoped scope := by
  have hrest : ∀ {op : Operation} {t e rest : Body},
      (∀ id, usesOf (.cons op t e rest) id ≤ uses id) → ∀ id, usesOf rest id ≤ uses id :=
    fun h id => le_trans (by simp only [usesOf]; omega) (h id)
  have hkeep : ∀ {current : Option ForwardedRead} {scope : List Name} {id : Id},
      (∀ c ∈ current, .value c.value ∈ scope) →
      ∀ c ∈ current, .value c.value ∈ .value id :: scope :=
    fun h c hc => mem_cons_of_mem _ (h c hc)
  induction hb generalizing depth values after scope with
  | nil => trivial
  | @read op rest current _ n block kind _ ih =>
    obtain ⟨mid, ha, hv⟩ := verifyBody_cons hv
    obtain ⟨hres, hrows, hcolumns, hfresh, shape, rfl⟩ := ha.read_inv kind
    have hnames : dimensionNames op.rows ++ dimensionNames op.columns ⊆ scope :=
      List.append_subset.2
        ⟨hd.dimension hrows fun id hu => by simp only [usesOf, operationUses, kind]; omega,
          hd.dimension hcolumns fun id hu => by simp only [usesOf, operationUses, kind]; omega⟩
    refine ⟨fun h => hfresh (hd.known _ h), ?_, ih hv (hrest huses)
      (hd.define fun id _ hu => by simp only [usesOf]; omega) (hkeep hf)⟩
    have hcommon : dimensionNames op.rows ++ dimensionNames op.columns ⊆ .value op.result :: scope :=
      fun name hname => mem_cons_of_mem _ (hnames hname)
    cases hr : forwardedRead (o == .publicationReadForwarding) current op n with
    | none =>
      exact cons_subset.2 ⟨mem_cons_of_mem _ (hd.resources _ hres),
        cons_subset.2 ⟨mem_cons_self, hcommon⟩⟩
    | some r =>
      obtain ⟨c, hc, hvalue⟩ := mem_of_forwardedRead hr
      exact cons_subset.2 ⟨mem_cons_of_mem _ (hd.resources _ hres),
        cons_subset.2 ⟨mem_cons_self, cons_subset.2 ⟨hvalue ▸ hkeep hf c hc, hcommon⟩⟩⟩
  | @gemm op rest current _ n block kind _ _ ih =>
    obtain ⟨mid, ha, hv⟩ := verifyBody_cons hv
    obtain ⟨hl, hr, hfresh, shape, rfl⟩ := ha.gemm_inv kind
    refine ⟨fun h => hfresh (hd.known _ h), ?_, ih hv (hrest huses)
      (hd.define fun id _ hu => by simp only [usesOf]; omega) (hkeep hf)⟩
    have hlhs := hd.used _ hl (by simp [usesOf, operationUses, kind])
    have hrhs := hd.used _ hr (by simp [usesOf, operationUses, kind])
    simp [Call.names, hlhs, hrhs]
  | @pair op consumer beyond current reads n block p window _ ih =>
    obtain ⟨-, consumer', t', e', beyond', heq, hw⟩ := headWindow_eq_some window
    obtain ⟨rfl, -, -, rfl⟩ := Body.cons.inj heq
    obtain ⟨hk, -, hk', -, hl', h₁, ra, rb, rd, -, -, -, hp⟩ := PairDerivation.window_eq_some hw
    obtain ⟨mid, ha, hv⟩ := verifyBody_cons hv
    obtain ⟨hl, hr, _, shape, rfl⟩ := ha.gemm_inv hk
    obtain ⟨mid', ha', hv⟩ := verifyBody_cons hv
    obtain ⟨_, hrc, hfresh', shape', rfl⟩ := ha'.gemm_inv hk'
    subst hp
    -- the one use of the intermediate is the left operand of the consumer
    have hone := huses op.result
    simp only [usesOf, operationUses, hk, hk', hl', if_pos] at hone
    have hne : consumer.rhs ≠ op.result := by
      intro h
      simp only [h, if_pos] at hone
      omega
    have hbehind : Declared ctx ((values.define op.result shape).define consumer.result shape')
        (.value consumer.result :: scope) beyond := by
      refine (hd.hide fun id hu => ⟨?_, by simp only [usesOf]; omega⟩).define fun id _ hu => hu
      rintro rfl
      omega
    refine ⟨fun h => hfresh' (mem_cons_of_mem _ (hd.known _ h)), ?_,
      ih hv (hrest (hrest huses)) hbehind (hkeep hf)⟩
    have ha := hd.used _ hl (by simp [usesOf, operationUses, hk])
    have hb := hd.used _ hr (by simp [usesOf, operationUses, hk])
    have hd := hd.used consumer.rhs (by simpa only [Values.define, update_of_ne hne] using hrc)
      (by simp [usesOf, operationUses, hk'])
    simp [Call.names, ha, hb, hd]
  | @publish op rest current _ n block kind _ ih =>
    obtain ⟨mid, ha, hv'⟩ := verifyBody_cons hv
    obtain ⟨hres, hl, rfl⟩ := ha.publish_inv kind
    have hvalue := hd.used _ hl (by simp [usesOf, operationUses, kind])
    refine ⟨by simp [Call.names, hvalue, hd.resources _ hres], ih hv' (hrest huses)
      (hd.mono rfl (fun _ => id) fun id hu => by simp only [usesOf]; omega) ?_⟩
    rintro c hc
    cases hc
    exact hvalue
  | @observe op rest current _ n block kind _ ih =>
    obtain ⟨mid, ha, hv'⟩ := verifyBody_cons hv
    obtain ⟨hres, rfl⟩ := ha.observe_inv kind
    exact ⟨by simp [Call.names, hd.resources _ hres], ih hv' (hrest huses)
      (hd.mono rfl (fun _ => id) fun id hu => by simp only [usesOf]; omega) hf⟩
  | @shapeIf op t e rest current _ _ thenBlock elseBlock block kind _ _ _
      iht ihe ihr =>
    obtain ⟨mid, ha, hv⟩ := verifyBody_cons hv
    obtain ⟨hlhs, hrhs, afterThen, afterElse, thenOk, elseOk, rfl⟩ := ha.shapeIf_inv kind
    have hgrow : ∀ id ∈ values.all, id ∈ afterThen.all := subset_of_verify thenOk
    have hgrow' : ∀ id ∈ values.all, id ∈ afterElse.all := fun id hid =>
      subset_of_verify elseOk id (hgrow id hid)
    have hle : ∀ id, usesOf t id + usesOf e id ≤ usesOf (.cons op t e rest) id := by
      simp only [usesOf, kind, if_pos]
      omega
    have hcond : ∀ dim, (∀ id, dimensionUses dim id ≤ operationUses op id) →
        DimensionOk ctx.parameters values.scope dim → dimensionNames dim ⊆ scope :=
      fun dim hle hok => hd.dimension hok fun id hu => by
        have := hle id
        simp only [usesOf]
        omega
    refine ⟨List.append_subset.2 ⟨hcond _ (fun id => ?_) hlhs, hcond _ (fun id => ?_) hrhs⟩,
      iht thenOk (fun id => ?_) (hd.mono rfl (fun _ => id) fun id hu => ?_) nofun,
      ihe elseOk (fun id => ?_) (hd.mono rfl hgrow fun id hu => ?_) nofun,
      ihr hv (hrest huses) (hd.mono rfl hgrow' fun id hu => by simp only [usesOf]; omega) nofun⟩
    · simp only [operationUses, kind]; omega
    · simp only [operationUses, kind]; omega
    all_goals
      have := hle id
      have := huses id
      omega

/-- The values that a body defines, at any nesting. -/
def definitions (b : Body) : List Id :=
  (b.preorder.filter fun op => op.kind = .read ∨ op.kind = .gemm).map (·.result)

theorem definitions_of_verify (h : verifyBody ctx depth b values = .ok after)
    (hn : values.all.Nodup) :
    after.all.Nodup ∧ ∀ id, after.all.count id = (definitions b).count id + values.all.count id := by
  induction b generalizing depth values after with
  | nil => cases h; exact ⟨hn, fun id => (Nat.zero_add _).symm⟩
  | cons op t e rest iht ihe ihr =>
    obtain ⟨mid, ha, hr⟩ := verifyBody_cons h
    cases ha with
    | shapeIf kind _ _ thenOk elseOk =>
      obtain ⟨hnt, ht⟩ := iht thenOk hn
      obtain ⟨hne, he⟩ := ihe elseOk hnt
      obtain ⟨hnr, hr⟩ := ihr hr hne
      refine ⟨hnr, fun id => ?_⟩
      rw [hr, he, ht]
      simp [definitions, kind]
      omega
    | read kind _ _ _ fresh | gemm kind _ _ fresh =>
      obtain ⟨hn, hr⟩ := ihr hr (List.nodup_cons.2 ⟨fresh, hn⟩)
      refine ⟨hn, fun id => ?_⟩
      rw [hr]
      simp [definitions, kind, Values.define, count_cons]
      omega
    | publish kind | observe kind =>
      obtain ⟨hn, hr⟩ := ihr hr hn
      exact ⟨hn, fun id => by rw [hr]; simp [definitions, kind]⟩

/-- What the statements declare, and the intermediates of the fused pairs, are the values that the
body defines. -/
theorem declared_of_emits (hb : Emits o uses b current reads n block) (hnested : b.Nested) (id : Id) :
    ((planFrom o uses b current reads n).pairs.map (·.intermediate)).count id +
      block.declared.count id = (definitions b).count id := by
  induction hb with
  | nil => rw [planFrom_nil]; rfl
  | @read op rest current reads n block kind _ ih =>
    rw [planFrom_read o uses current reads n kind hnested.2.2.2]
    have := ih hnested.2.2.2
    simp [Plan.append, Block.declared, definitions, kind, count_cons] at this ⊢
    omega
  | @gemm op rest current reads n block kind window _ ih =>
    rw [planFrom_gemm o uses current reads n kind hnested.2.2.2 window]
    have := ih hnested.2.2.2
    simp [Block.declared, definitions, kind, count_cons] at this ⊢
    omega
  | @pair op consumer beyond current reads n block p window _ ih =>
    have hbeyond := hnested.2.2.2.2.2.2
    rw [planFrom_pair o uses current reads n hbeyond window]
    obtain ⟨-, _, _, _, _, heq, hw⟩ := headWindow_eq_some window
    obtain ⟨rfl, -, -, -⟩ := Body.cons.inj heq
    obtain ⟨hk, -, hk', -, -, -, _, _, _, -, -, -, rfl⟩ := PairDerivation.window_eq_some hw
    have := ih hbeyond
    simp [Plan.append, Block.declared, definitions, hk, hk', count_cons] at this ⊢
    omega
  | @publish op rest current reads n block kind _ ih =>
    rw [planFrom_publish o uses current reads n kind hnested.2.2.2]
    have := ih hnested.2.2.2
    simpa [Block.declared, definitions, kind] using this
  | @observe op rest current reads n block kind _ ih =>
    rw [planFrom_observe o uses current reads n kind hnested.2.2.2]
    have := ih hnested.2.2.2
    simpa [Block.declared, definitions, kind] using this
  | @shapeIf op t e rest current reads n thenBlock elseBlock block kind _ _ _ iht ihe ihr =>
    obtain ⟨-, hnt, hne, hnr⟩ := hnested
    rw [planFrom_shapeIf o uses current reads n kind hnt hne hnr]
    have := iht hnt
    have := ihe hne
    have := ihr hnr
    simp [Plan.append, Block.declared, definitions, kind] at *
    omega

variable {region : Region}

theorem scoped_of_region {emission : Emission}
    (hv : verifyBody ctx 0 region.body ⟨fun _ => none, []⟩ = .ok after)
    (hres : ∀ id ∈ ctx.resources, id ∈ region.resources.map (·.id))
    (hpar : ∀ id ∈ ctx.parameters, id ∈ region.shapeParameters.map (·.id))
    (he : emission.Of region o) : emission.block.Scoped emission.parameters.names := by
  rw [he.parameters]
  refine scoped_of_emits he.emits hv (fun id => by rw [countUses_eq]; simp) ?_ nofun
  constructor
  · simp [Parameters.names]
  · nofun
  · simpa [Parameters.names, Parameters.ofRegion] using hres
  · simpa [Parameters.names, Parameters.ofRegion] using hpar

/-- **Emitted host bodies are well scoped**, and name no intermediate of a fused pair. -/
theorem emission_scoped {program : Program} (h : verifyProgram program = .ok ())
    (hregion : region ∈ program.regions) {plan : Plan}
    (hp : deriveClosedHostPlan region.body o = .ok plan) :
    ∃ emission, emitClosedHostV1 region plan = some emission ∧
      emission.block.Scoped emission.parameters.names ∧ emission.block.declared.Nodup ∧
      ∀ p ∈ plan.pairs, p.intermediate ∉ emission.block.declared ∧
        .value p.intermediate ∉ emission.block.names := by
  obtain ⟨ctx, after, hres, hpar, hv⟩ := verifyBody_of_program h hregion
  have hnested := nested_of_verify hv
  have hplan := plan_of_derive hp
  obtain ⟨emission, he, hof⟩ := emission_of_plan hnested hplan
  have hscoped := scoped_of_region hv hres hpar hof
  obtain ⟨hnodup, hcount⟩ := definitions_of_verify hv List.nodup_nil
  have hle : ∀ id, (plan.pairs.map (·.intermediate)).count id +
      emission.block.declared.count id ≤ 1 := by
    intro id
    rw [hplan, declared_of_emits hof.emits hnested id]
    have := List.nodup_iff_count.1 hnodup id
    rw [hcount] at this
    simpa using this
  refine ⟨emission, he, hscoped, List.nodup_iff_count.2 fun id => ?_, fun p hp => ?_⟩
  · have := hle id
    omega
  · have hmem : p.intermediate ∈ plan.pairs.map (·.intermediate) := List.mem_map_of_mem hp
    have hfresh : p.intermediate ∉ emission.block.declared := by
      intro hd
      have := List.count_pos_iff.2 hmem
      have := List.count_pos_iff.2 hd
      have := hle p.intermediate
      omega
    refine ⟨hfresh, fun hname => ?_⟩
    rcases Block.mem_of_scoped hscoped hname with hscope | hdeclared
    · simp [Parameters.names] at hscope
    · exact hfresh hdeclared

/-- The two-layer region does not declare the product 3 of its fused pair. -/
theorem emission_scoped_twoLayer :
    let plan : Plan := ⟨[], [⟨3, 4, 1, 2, 2, 3, 4, 1, 2, 2⟩]⟩
    ∃ emission, emitClosedHostV1 twoLayer plan = some emission ∧
      emission.block.declared = [1, 2, 4, 5] ∧
      emission.block.Scoped emission.parameters.names ∧ .value 3 ∉ emission.block.names := by
  intro plan
  have hp : deriveClosedHostPlan twoLayer.body .strictFusedPair = .ok plan := by rfl
  obtain ⟨emission, he, hscoped, -, hpairs⟩ :=
    emission_scoped verify_twoLayer (List.mem_singleton.2 rfl) hp
  have hd : (emitClosedHostV1 twoLayer plan).map (·.block.declared) = some [1, 2, 4, 5] := by
    decide +kernel
  rw [he] at hd
  exact ⟨emission, he, Option.some.inj hd, hscoped, (hpairs _ (List.mem_singleton.2 rfl)).2⟩

end Matcore.ClosedHost
