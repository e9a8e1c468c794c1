import Matcore.Gpu.FillElision
import Matcore.Lib.Except

/-!
# Full subviews of a buffer

A memref that the pass takes for the whole buffer has its elements.
-/

namespace Matcore.Gpu.FillElision

open List (mem_cons_self mem_append_right zipWith map_cons length length_map get_eq_getElem
  getElem_map getElem?_map)
open Prod (fst snd)

/-- Two environments agree on some names. -/
def AgreesOn (names : List ℕ) (env env' : Env) : Prop :=
  ∀ name ∈ names, env.index name = env'.index name ∧ env.place name = env'.place name

variable {env env' : Env} {m buffer : MemRef} {i : Index}

theorem Index.eval_congr (h : AgreesOn i.names env env') : i.eval env = i.eval env' := by
  cases i with
  | attr n => rfl
  | constant n => rfl
  | value name => exact (h name mem_cons_self).1

theorem AgreesOn.mono {names names' : List ℕ} (h : AgreesOn names env env') (hle : names' ⊆ names) :
    AgreesOn names' env env' :=
  fun name hname => h name (hle hname)

theorem ViewDim.eval_congr {dim : ViewDim} (h : AgreesOn dim.names env env') :
    dim.eval env = dim.eval env' := by
  cases dim with
  | fixed size => rfl
  | dynamic size => exact congrArg Int.toNat (Index.eval_congr h)

theorem MemRef.layout_congr (h : AgreesOn m.names env env') : m.layout env = m.layout env' := by
  induction m with
  | value name shape bytes workgroup =>
    have hplace := (h name mem_cons_self).2
    simp only [MemRef.layout, hplace]
  | cast name source shape ih =>
    simp only [MemRef.layout, ih h]
  | view name source byteShift dims bytes ih =>
    simp only [MemRef.names] at h
    have hsource := ih (h.mono fun n hn => by simp [hn])
    have hshift : byteShift.eval env = byteShift.eval env' :=
      Index.eval_congr (h.mono fun n hn => by simp [hn])
    have hdims : dims.map (·.eval env) = dims.map (·.eval env') := by
      apply List.map_congr_left
      intro dim hdim
      refine ViewDim.eval_congr (h.mono fun n hn => ?_)
      exact mem_append_right _ (List.mem_flatMap.2 ⟨dim, hdim, hn⟩)
    simp only [MemRef.layout, hsource, hshift, hdims]
  | subview name source dims ih =>
    simp only [MemRef.names] at h
    have hsource := ih (h.mono fun n hn => by simp [hn])
    have hdim : ∀ dim ∈ dims, AgreesOn dim.names env env' := fun dim hdim =>
      h.mono fun n hn => mem_append_right _ (List.mem_flatMap.2 ⟨dim, hdim, hn⟩)
    have hoffset : zipWith (fun dim d => dim.offset.eval env * d.2) dims
        (source.layout env').dims = zipWith (fun dim d => dim.offset.eval env' * d.2) dims
          (source.layout env').dims := by
      rw [← List.map_uncurry_zip_eq_zipWith, ← List.map_uncurry_zip_eq_zipWith]
      apply List.map_congr_left
      intro pair hpair
      have := (hdim _ (List.of_mem_zip hpair).1).mono fun n hn =>
        List.mem_append_left _ (List.mem_append_left _ hn)
      simp only [Function.uncurry, Index.eval_congr this]
    simp only [MemRef.layout, hsource, hoffset]
    congr 1
    apply List.map_congr_left
    intro pair hpair
    have hnames := hdim _ (List.of_mem_zip (List.mem_of_mem_filter hpair)).1
    have hsize := Index.eval_congr (hnames.mono fun n hn =>
      List.mem_append_left _ (mem_append_right _ hn))
    have hstride := Index.eval_congr (hnames.mono fun n hn => mem_append_right _ hn)
    simp only [hsize, hstride]

/-- The elements of a memref depend on the values that it names. -/
theorem MemRef.elements_congr (h : AgreesOn m.names env env') :
    m.elements env = m.elements env' := by
  unfold MemRef.elements
  rw [MemRef.layout_congr h]

theorem map_fst_contiguous (bytes : ℕ) (sizes : List ℕ) :
    (contiguous bytes sizes).map fst = sizes := by
  induction sizes with
  | nil => rfl
  | cons size sizes ih => rw [contiguous, map_cons, ih]

variable {l : List (ℕ × ℤ)} {dims : List SubDim}

theorem map_fst_kept (h : dims.length = l.length) :
    ((dims.zip l).filter (!·.1.dropped)).map fst = dims.filter (!·.dropped) := by
  have hfst : (dims.zip l).map fst = dims := List.map_fst_zip h.le
  conv_rhs => rw [← hfst, List.filter_map]
  rfl

theorem MemRef.length_dims (env : Env) (h : m.Verified) :
    (m.layout env).dims.length = m.shape.length := by
  induction m with
  | value name shape bytes workgroup => exact List.length_mapIdx
  | cast name source shape ih =>
    obtain ⟨hsource, hshape⟩ := h
    have hlength : ((cast name source shape).layout env).dims.length =
        min shape.length (source.layout env).dims.length := List.length_zipWith
    rw [hlength, ih hsource, ← hshape.length_eq, Nat.min_self]
    rfl
  | view name source byteShift dims bytes _ =>
    have hsizes := congrArg length (map_fst_contiguous bytes (dims.map (·.eval env)))
    simpa [MemRef.layout, MemRef.shape] using hsizes
  | subview name source dims ih =>
    obtain ⟨hsource, hdims, -⟩ := h
    have hkept := congrArg length (map_fst_kept (hdims.trans (ih hsource).symm))
    simpa only [MemRef.layout, MemRef.shape, length_map] using hkept

theorem MemRef.static_sizes (env : Env) (h : m.Verified) :
    List.Forall₂ (fun size d => ∀ n, size = some n → d.1 = n) m.shape (m.layout env).dims := by
  rw [List.forall₂_iff_get]
  refine ⟨(length_dims env h).symm, fun i hi hi' n hn => ?_⟩
  cases m with
  | value name shape bytes workgroup | cast name source shape =>
    simp only [MemRef.shape, get_eq_getElem] at hn
    simp [MemRef.layout, hn]
  | view name source byteShift dims bytes =>
    simp only [MemRef.shape, get_eq_getElem, getElem_map] at hn
    have hsizes := map_fst_contiguous bytes (dims.map (·.eval env))
    have hsize : ((contiguous bytes (dims.map (·.eval env))).map fst)[i]? =
        (dims.map (·.eval env))[i]? := by rw [hsizes]
    have hdim : i < dims.length := by simpa [MemRef.shape] using hi
    simp only [MemRef.layout, get_eq_getElem] at hi' ⊢
    rw [getElem?_map, getElem?_map, List.getElem?_eq_getElem hi',
      List.getElem?_eq_getElem hdim] at hsize
    rw [Option.some.inj hsize]
    split at hn
    · rename_i hfixed
      rw [hfixed]
      exact Option.some.inj hn
    · cases hn
  | subview name source dims =>
    obtain ⟨hsource, hdims, -⟩ := h
    have hkept := map_fst_kept (hdims.trans (length_dims env hsource).symm)
    simp only [MemRef.shape, get_eq_getElem, getElem_map] at hn
    have hi'' : i < (dims.filter (!·.dropped)).length := by simpa [MemRef.shape] using hi
    have hdim : (((dims.zip (source.layout env).dims).filter (!·.1.dropped)).map fst)[i]? =
        (dims.filter (!·.dropped))[i]? := by rw [hkept]
    simp only [MemRef.layout, get_eq_getElem, length_map] at hi' ⊢
    rw [getElem?_map, List.getElem?_eq_getElem hi', List.getElem?_eq_getElem hi'',
      Option.map_some, Option.some.injEq] at hdim
    rw [getElem_map, hdim]
    split at hn
    · rename_i hattr
      rw [hattr]
      exact Option.some.inj hn
    · cases hn

variable {sizes : List ℕ}

theorem MemRef.sizes_of_static (env : Env) (h : m.Verified) (hstatic : m.staticShape = some sizes) :
    (m.layout env).dims.map fst = sizes := by
  have hshape := Option.forall₂_of_mapM hstatic
  clear hstatic
  have hdims := static_sizes env h
  generalize (m.layout env).dims = dims at hdims ⊢
  generalize m.shape = shape at hshape hdims
  induction hshape generalizing dims with
  | nil =>
    cases hdims
    rfl
  | cons hsize _ ih =>
    cases hdims with
    | cons hdim hdims => rw [map_cons, hdim _ hsize, ih _ hdims]

/-- An inferred shape fits a type. -/
def Fits (shape : List (Option ℕ)) (sizes : List ℕ) : Prop :=
  List.Forall₂ (fun size n => size = none ∨ size = some n) shape sizes

/-- The shape that is inferred has all dimensions: a view is static or has dynamic dimensions only,
and the type of a cast fits. -/
def MemRef.Sharp : MemRef → Prop
  | cast _ source shape => none ∈ shape →
    source.Sharp ∧ ∀ sizes, source.inferStaticShape = some sizes → Fits shape sizes
  | view _ _ _ dims _ => (∀ dim ∈ dims, ∃ size, dim = .fixed size) ∨
    ∀ dim ∈ dims, ∃ size, dim = .dynamic size
  | _ => True

theorem sizes_of_inferViewShape {byteShift : Index} {dims : List ViewDim}
    (hdims : ∀ dim ∈ dims, ∃ size, dim = .dynamic size)
    (h : MemRef.inferViewShape byteShift dims = some sizes) : dims.map (·.eval env) = sizes := by
  unfold MemRef.inferViewShape at h
  rw [Option.bind_eq_bind, Option.bind_eq_some_iff] at h
  obtain ⟨-, -, h⟩ := h
  have hsizes := Option.forall₂_of_mapM h
  clear h
  induction dims generalizing sizes with
  | nil =>
    cases hsizes
    rfl
  | cons dim dims ih =>
    obtain ⟨size, rfl⟩ := hdims dim mem_cons_self
    cases hsizes with
    | @cons _ n _ sizes hsize hsizes =>
      have hrest := ih (fun dim hdim => hdims dim (List.mem_cons_of_mem _ hdim)) hsizes
      rw [Option.bind_eq_some_iff] at hsize
      obtain ⟨k, hconst, hk⟩ := hsize
      have heval : size.eval env = k := by
        cases size with
        | attr n => exact Option.some.inj hconst
        | constant n => exact Option.some.inj hconst
        | value name => cases hconst
      split at hk
      · rw [map_cons, hrest, ← Option.some.inj hk, ← heval]
        rfl
      · cases hk

variable {shape : List (Option ℕ)}

theorem zipWith_fits {dims : List (ℕ × ℤ)} (h : Fits shape (dims.map fst)) :
    zipWith (fun size d => (size.getD d.1, d.2)) shape dims = dims := by
  induction dims generalizing shape with
  | nil =>
    cases h
    rfl
  | cons d dims ih =>
    cases h with
    | @cons size _ shape _ hsize hrest =>
      rw [List.zipWith_cons_cons, ih hrest]
      rcases hsize with rfl | rfl
      · rfl
      · rfl

theorem MemRef.exists_staticShape (h : none ∉ m.shape) : ∃ sizes, m.staticShape = some sizes := by
  unfold MemRef.staticShape
  generalize m.shape = shape at h
  induction shape with
  | nil => exact ⟨[], rfl⟩
  | cons size shape ih =>
    rw [List.mem_cons, not_or] at h
    obtain ⟨sizes, hsizes⟩ := ih h.2
    obtain ⟨n, rfl⟩ := Option.ne_none_iff_exists'.1 (Ne.symm h.1)
    exact ⟨n :: sizes, by rw [List.mapM_cons, hsizes]; rfl⟩

/-- The shape that the pass infers, of a view that is static or has dynamic dimensions only. -/
theorem MemRef.sizes_of_infer (env : Env) (h : m.Verified) (hsharp : m.Sharp)
    (hinfer : m.inferStaticShape = some sizes) : (m.layout env).dims.map fst = sizes := by
  induction m generalizing sizes with
  | value name shape bytes workgroup => exact sizes_of_static env h hinfer
  | subview name source dims _ => exact sizes_of_static env h hinfer
  | cast name source shape ih =>
    cases hstatic : (cast name source shape).staticShape with
    | some sizes' =>
      rw [MemRef.inferStaticShape, hstatic] at hinfer
      exact sizes_of_static env h (hstatic.trans hinfer)
    | none =>
      rw [MemRef.inferStaticShape, hstatic] at hinfer
      have hdynamic : none ∈ shape := by
        by_contra hall
        obtain ⟨sizes', hsizes⟩ := exists_staticShape (m := cast name source shape) hall
        rw [hsizes] at hstatic
        cases hstatic
      obtain ⟨hsharp, hfits⟩ := hsharp hdynamic
      have hsame := ih h.1 hsharp hinfer
      have hkeep : zipWith (fun size d => (size.getD d.1, d.2)) shape (source.layout env).dims =
          (source.layout env).dims := zipWith_fits (by rw [hsame]; exact hfits sizes hinfer)
      simp only [MemRef.layout, hkeep, hsame]
  | view name source byteShift dims bytes _ =>
    cases hstatic : (view name source byteShift dims bytes).staticShape with
    | some sizes' =>
      rw [MemRef.inferStaticShape, hstatic] at hinfer
      exact sizes_of_static env h (hstatic.trans hinfer)
    | none =>
      rw [MemRef.inferStaticShape, hstatic] at hinfer
      have hdynamic : ∀ dim ∈ dims, ∃ size, dim = .dynamic size := by
        refine hsharp.resolve_left fun hfixed => ?_
        have hall : none ∉ (view name source byteShift dims bytes).shape := by
          intro hnone
          obtain ⟨dim, hdim, hsize⟩ := List.mem_map.1 hnone
          obtain ⟨n, rfl⟩ := hfixed dim hdim
          cases hsize
        obtain ⟨sizes', hsizes⟩ := exists_staticShape hall
        rw [hsizes] at hstatic
        cases hstatic
      simp only [MemRef.layout, map_fst_contiguous, sizes_of_inferViewShape hdynamic hinfer]

theorem Index.eval_of_matchConstant (env : Env) {n : ℤ} (h : i.matchConstant = some n) :
    i.eval env = n := by
  cases i with
  | attr k => exact Option.some.inj h
  | constant k => exact Option.some.inj h
  | value name => cases h

theorem full_dims (env : Env) {lb : List (ℕ × ℤ)} (hlength : dims.length = lb.length)
    (hstrides : l.map snd = lb.map snd) (hkept : ∀ dim ∈ dims, dim.dropped = false)
    (hfull : (dims.zip (lb.map fst)).all fun (dim, size) => MemRef.isFullDim dim size) :
    (zipWith (fun dim d => dim.offset.eval env * d.2) dims l).sum = 0 ∧
      ((dims.zip l).filter (!·.1.dropped)).map
        (fun (dim, d) => ((dim.size.eval env).toNat, dim.stride.eval env * d.2)) = lb := by
  induction dims generalizing l lb with
  | nil =>
    obtain rfl := List.length_eq_zero_iff.1 hlength.symm
    exact ⟨rfl, rfl⟩
  | cons dim dims ih =>
    cases lb with
    | nil => cases hlength
    | cons b lb =>
      cases l with
      | nil => cases hstrides
      | cons d l =>
        rw [map_cons, map_cons, List.cons.injEq] at hstrides
        rw [map_cons, List.zip_cons_cons, List.all_cons, Bool.and_eq_true] at hfull
        obtain ⟨hsum, hdims⟩ := ih (Nat.succ.inj hlength) hstrides.2
          (fun dim hdim => hkept dim (List.mem_cons_of_mem _ hdim)) hfull.2
        have hfirst := hfull.1
        simp only [MemRef.isFullDim, Bool.and_eq_true, decide_eq_true_eq] at hfirst
        obtain ⟨⟨hoffset, hstride⟩, hsize⟩ := hfirst
        have hdim := hkept dim mem_cons_self
        constructor
        · rw [List.zipWith_cons_cons, List.sum_cons, hsum,
            Index.eval_of_matchConstant env hoffset, zero_mul, zero_add]
        · rw [List.zip_cons_cons, List.filter_cons_of_pos (by simp [hdim]), map_cons, hdims]
          simp only [Index.eval_of_matchConstant env hsize, Index.eval_of_matchConstant env hstride,
            one_mul, Int.toNat_natCast, hstrides.1]

theorem map_snd_zipWith {dims : List (ℕ × ℤ)} (h : shape.length = dims.length) :
    (zipWith (fun size d => (size.getD d.1, d.2)) shape dims).map snd =
      dims.map snd := by
  induction dims generalizing shape with
  | nil =>
    obtain rfl := List.length_eq_zero_iff.1 h
    rfl
  | cons d dims ih =>
    cases shape with
    | nil => cases h
    | cons size shape =>
      rw [List.zipWith_cons_cons, map_cons, map_cons, ih (Nat.succ.inj h)]

theorem elements_of_isSameBufferOrFullSubview (env : Env) (hm : m.Verified) (hb : buffer.Verified)
    (hsharp : buffer.Sharp) (h : m.isSameBufferOrFullSubview buffer = true) :
    m.elements env = buffer.elements env := by
  unfold MemRef.isSameBufferOrFullSubview at h
  rw [Bool.or_eq_true] at h
  rcases h with h | h
  · rw [of_decide_eq_true h]
  · cases m with
    | value _ _ _ _ => cases h
    | cast _ _ _ => cases h
    | view _ _ _ _ _ => cases h
    | subview name source dims =>
      simp only [Bool.and_eq_true, Bool.or_eq_true, decide_eq_true_eq] at h
      obtain ⟨hsource, hfull⟩ := h
      obtain ⟨hverified, hrank, -⟩ := hm
      have hlength := MemRef.length_dims env hverified
      -- the source is the buffer, or a cast of it
      have hsame : (source.layout env).block = (buffer.layout env).block ∧
          (source.layout env).offset = (buffer.layout env).offset ∧
          (source.layout env).dims.map snd = (buffer.layout env).dims.map snd ∧
          source.elementBytes = buffer.elementBytes := by
        rcases hsource with rfl | hcast
        · exact ⟨rfl, rfl, rfl, rfl⟩
        · cases source with
          | value _ _ _ _ => cases hcast
          | view _ _ _ _ _ => cases hcast
          | subview _ _ _ => cases hcast
          | cast cname csource shape =>
            obtain rfl := of_decide_eq_true hcast
            have hdims := MemRef.length_dims env hverified.1
            exact ⟨rfl, rfl, map_snd_zipWith (hverified.2.length_eq.trans hdims.symm), rfl⟩
      obtain ⟨hblock, hoffset, hstrides, hbytes⟩ := hsame
      cases hinfer : buffer.inferStaticShape with
      | none =>
        rw [hinfer] at hfull
        cases hfull
      | some sizes =>
        rw [hinfer] at hfull
        simp only [Bool.and_eq_true, decide_eq_true_eq] at hfull
        obtain ⟨hkeptRank, hfull⟩ := hfull
        have hsizes := MemRef.sizes_of_infer env hb hsharp hinfer
        -- no dimension is dropped
        have hdims : dims.length = (buffer.layout env).dims.length := by
          have := congrArg length hstrides
          simp only [length_map] at this
          omega
        have hfilter : (dims.filter (!·.dropped)).length = dims.length := by
          have hrank' : (MemRef.subview name source dims).shape.length =
              (dims.filter (!·.dropped)).length := length_map _
          have := congrArg length hsizes
          rw [length_map] at this
          omega
        have hkept : ∀ dim ∈ dims, dim.dropped = false := by
          intro dim hdim
          have := List.length_filter_eq_length_iff.1 hfilter dim hdim
          simpa using this
        rw [← hsizes] at hfull
        obtain ⟨hsum, hlayout⟩ := full_dims env hdims hstrides hkept hfull
        have hsame : (MemRef.subview name source dims).layout env = buffer.layout env := by
          simp only [MemRef.layout, hsum, hlayout, hblock, hoffset, add_zero]
        have hwidth : (MemRef.subview name source dims).elementBytes = buffer.elementBytes := hbytes
        unfold MemRef.elements
        rw [hsame, hwidth]

end Matcore.Gpu.FillElision
