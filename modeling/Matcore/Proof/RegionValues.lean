import Matcore.Proof.RegionCompute
import Matcore.Proof.RegionScan

/-!
# The values of an execution

What the values defined so far are: those of operations without effects follow from the values
before them, and all have the types that the function declares.
-/

namespace Matcore.TwoGemm

open List (getElem?_take_of_lt getElem?_take length_take mem_cons_self)
open Option (ite_none_right_eq_some bind_eq_some_iff bind_eq_bind bind_some)
open LoopNest (Tensor)

variable {function : RegionFunction} {arithmetic : Arithmetic} {values : List RuntimeValue}

variable {type : TensorType}

theorem conforms_iff {shape : List ℕ} : conforms shape type = true ↔
    shape.length = type.shape.length ∧ ∀ (i n : ℕ) (d : Option ℕ), shape[i]? = some n →
      type.shape[i]? = some d → d = none ∨ d = some n := by
  unfold conforms
  rw [Bool.and_eq_true, decide_eq_true_eq, List.all_eq_true]
  refine and_congr_right fun _ => ?_
  constructor
  · intro hall i n d hn hd
    have hzip : (n, d) ∈ shape.zip type.shape :=
      List.mem_iff_getElem?.2 ⟨i, by rw [List.getElem?_zip_eq_some]; exact ⟨hn, hd⟩⟩
    simpa using hall _ hzip
  · rintro hall ⟨n, d⟩ hm
    obtain ⟨i, hi⟩ := List.mem_iff_getElem?.1 hm
    rw [List.getElem?_zip_eq_some] at hi
    simpa using hall i n d hi.1 hi.2

def HasType : RuntimeValue → Ty → Prop
  | .descriptor _, .descriptor => True
  | .order, .order => True
  | .index _, .index => True
  | .float _, .f32 => True
  | .tensor tensor, .tensor type => type.element = .f32 ∧ conforms tensor.shape type = true
  | .foreign shape, .tensor type => type.element ≠ .f32 ∧ conforms shape type = true
  | .foreign _, .other _ => True
  | _, _ => False

variable {value : RuntimeValue}

theorem HasType.shape (h : HasType value (.tensor type)) :
    ∃ shape, value.shape = some shape ∧ conforms shape type = true := by
  cases value with
  | tensor tensor => exact ⟨tensor.shape, rfl, h.2⟩
  | foreign shape => exact ⟨shape, rfl, h.2⟩
  | _ => exact h.elim

/-- The values defined so far. -/
structure Evaluated (arithmetic : Arithmetic) (function : RegionFunction)
    (values : List RuntimeValue) : Prop where
  arguments : ∀ i < function.arguments.length, values[i]? = some (.descriptor i)
  typed : ∀ v value type, values[v]? = some value → function.scope.type v = some type →
    HasType value type
  follows : ∀ v k op, function.scope.definingOp v = some (k, op) → v < values.length →
    Incidental function.scope op → op.results.length = 1 →
    ∃ value, values[v]? = some value ∧ pureValue arithmetic (values.take v) k op = some value

theorem Evaluated.arguments_le (h : Evaluated arithmetic function values) :
    function.arguments.length ≤ values.length := by
  by_contra hlt
  rw [not_le] at hlt
  have := h.arguments _ hlt
  rw [List.getElem?_eq_none le_rfl] at this
  cases this

/-- **The next value** keeps the invariant when it has its type and follows from those before. -/
theorem evaluated_snoc (h : Evaluated arithmetic function values)
    (htype : ∀ type, function.scope.type values.length = some type → HasType value type)
    (hvalue : ∀ k op, function.scope.definingOp values.length = some (k, op) →
      Incidental function.scope op → op.results.length = 1 →
      pureValue arithmetic values k op = some value) :
    Evaluated arithmetic function (values ++ [value]) := by
  refine ⟨?_, ?_, ?_⟩
  · intro i hi
    rw [List.getElem?_append_left (lt_of_lt_of_le hi h.arguments_le)]
    exact h.arguments i hi
  · intro v found type hget hfound
    rcases Nat.lt_trichotomy v values.length with hlt | rfl | hgt
    · rw [List.getElem?_append_left hlt] at hget
      exact h.typed v found type hget hfound
    · rw [List.getElem?_concat_length] at hget
      cases hget
      exact htype type hfound
    · rw [List.getElem?_eq_none (by simp; omega)] at hget
      cases hget
  · intro v k op hop hlt hincidental hsingle
    rw [List.length_append, List.length_singleton] at hlt
    rcases Nat.lt_succ_iff_lt_or_eq.1 hlt with hold | rfl
    · rw [List.getElem?_append_left hold, List.take_append_of_le_length (le_of_lt hold)]
      exact h.follows v k op hop hold hincidental hsingle
    · rw [List.getElem?_concat_length, List.take_left]
      exact ⟨value, rfl, hvalue k op hop hincidental hsingle⟩

variable {n : ℕ}

theorem Evaluated.take (h : Evaluated arithmetic function values)
    (hn : function.arguments.length ≤ n) : Evaluated arithmetic function (values.take n) := by
  refine ⟨?_, ?_, ?_⟩
  · intro i hi
    rw [getElem?_take_of_lt (lt_of_lt_of_le hi hn)]
    exact h.arguments i hi
  · intro v value type hget
    rw [getElem?_take] at hget
    exact h.typed v value type (ite_none_right_eq_some.1 hget).2
  · intro v k op hop hlt hincidental hsingle
    rw [length_take] at hlt
    obtain ⟨hn, hlength⟩ := Nat.lt_min.1 hlt
    obtain ⟨value, hget, hvalue⟩ := h.follows v k op hop hlength hincidental hsingle
    refine ⟨value, ?_, ?_⟩
    · rw [getElem?_take_of_lt hn, hget]
    · rwa [List.take_take, Nat.min_eq_left (le_of_lt hn)]

variable {v : ℕ}

theorem Evaluated.typed_value (h : Evaluated arithmetic function values) {type : Ty}
    (hlt : v < values.length) (htype : function.scope.type v = some type) :
    ∃ value, values[v]? = some value ∧ HasType value type := by
  have hget := List.getElem?_eq_getElem hlt
  exact ⟨_, hget, h.typed v _ type hget htype⟩

variable {k : ℕ}

section

variable (hverify : function.verify = true)

include hverify

theorem operand_lt {op : Op} (hop : function.scope.definingOp v = some (k, op))
    (hsingle : op.results.length = 1) {operand : ℕ} (hm : operand ∈ op.operands) : operand < v :=
  (placed_verified hverify (placed_of_definingOp hop hsingle)).dominated operand hm

theorem strip_value_from (h : Evaluated arithmetic function values) (fuel v : ℕ)
    (hlt : v < values.length) : values[stripCastFrom function.scope fuel v]? = values[v]? := by
  induction fuel generalizing v with
  | zero => rfl
  | succ fuel ih =>
    unfold stripCastFrom
    split
    · rename_i k source type hcast
      split
      · rename_i htype
        have hsource : source < v := operand_lt hverify hcast rfl mem_cons_self
        obtain ⟨value, hget, hvalue⟩ := h.follows v k _ hcast hlt
          (by simpa [Incidental, safeIncidental] using htype) rfl
        rw [ih source (lt_trans hsource hlt), hget, ← getElem?_take_of_lt hsource]
        obtain ⟨found, hfound, hrest⟩ := bind_eq_some_iff.1 hvalue
        obtain ⟨shape, -, hcheck⟩ := bind_eq_some_iff.1 hrest
        rw [hfound, ← (ite_none_right_eq_some.1 hcheck).2]
      · rfl
    · rfl

/-- A cast does not change a value. -/
theorem strip_value (h : Evaluated arithmetic function values) (hlt : v < values.length) :
    values[stripCast function.scope v]? = values[v]? := strip_value_from hverify h v v hlt

theorem strip_lt (h : v < n) :
    stripCast function.scope v < n := lt_of_le_of_lt (stripCast_le hverify v) h

end

theorem constant_value (h : Evaluated arithmetic function values) {constant : Constant}
    (hop : function.scope.definingOp v = some (k, .constant constant)) (hlt : v < values.length) :
    values[v]? = some (constantValue arithmetic constant) := by
  obtain ⟨value, hget, hvalue⟩ := h.follows v k _ hop hlt rfl rfl
  rw [hget]
  exact hvalue.symm

theorem constantIndex_value (h : Evaluated arithmetic function values) {index : ℤ}
    (hindex : constantIndex function.scope v = some index) (hlt : v < values.length) :
    values[v]? = some (.index index) := by
  unfold constantIndex at hindex
  split at hindex
  · rename_i k constant hop
    cases hindex
    exact constant_value h hop hlt
  · cases hindex

variable {axis : ℕ}

theorem pureValue_dim {source position : ℕ} {shape : List ℕ}
    (hsource : values[source]? = some value) (hshape : value.shape = some shape)
    (haxis : values[axis]? = some (.index position)) :
    pureValue arithmetic values k (.dim source axis) =
      (shape[position]?).map fun (extent : ℕ) => .index (extent : ℤ) := by
  simp only [pureValue, hsource, hshape, haxis, bind_eq_bind, bind_some,
    Int.natCast_nonneg, if_true, Int.toNat_natCast]

/-- A function whose operations have passed MLIR's verifier and the scan. -/
structure Checked (function : RegionFunction) : Prop where
  verify : function.verify = true
  incidental : ∀ v k op, function.scope.definingOp v = some (k, op) → op.isBoundary = false →
    Incidental function.scope op

section

variable {size value : ℕ} (hf : Checked function) (h : Evaluated arithmetic function values)
  (hdimension : dimension function.scope size value axis = true) (hlt : size < values.length)

include hf h hdimension hlt

theorem dimension_index : ∃ n : ℕ, values[size]? = some (.index n) := by
  unfold dimension at hdimension
  split at hdimension
  · rename_i k constant hop
    split at hdimension
    · rename_i type _
      split at hdimension
      · rename_i extent _
        refine ⟨extent, ?_⟩
        rw [constant_value h hop hlt, constantValue, of_decide_eq_true hdimension]
      · cases hdimension
    · cases hdimension
  · rename_i k source position hop
    obtain ⟨found, hget, hvalue⟩ := h.follows size k _ hop hlt (hf.incidental size k _ hop rfl) rfl
    obtain ⟨value', -, hrest⟩ := bind_eq_some_iff.1 hvalue
    obtain ⟨shape, -, hrest⟩ := bind_eq_some_iff.1 hrest
    split at hrest
    · obtain ⟨-, hextent⟩ := ite_none_right_eq_some.1 hrest
      obtain ⟨extent, -, hextent⟩ := Option.map_eq_some_iff.1 hextent
      exact ⟨extent, by rw [hget, ← hextent]⟩
    · cases hrest
  · cases hdimension

/-- A size that the verifier has traced to a tensor is its extent. -/
theorem dimension_value (hvalue : value < values.length) {tensor : Tensor (BitVec 32)}
    (htensor : values[value]? = some (.tensor tensor)) (hn : values[size]? = some (.index n))
    (haxis : axis < tensor.shape.length) : tensor.shape[axis]? = some n := by
  unfold dimension at hdimension
  split at hdimension
  · rename_i k constant hop
    rw [constant_value h hop hlt] at hn
    cases hn
    split at hdimension
    · rename_i type htype
      have htyped := h.typed value _ _ htensor htype
      obtain ⟨_, hextents⟩ := conforms_iff.1 htyped.2
      split at hdimension
      · rename_i extent hextent
        have hsame : (n : ℤ) = extent := of_decide_eq_true hdimension
        have hget := List.getElem?_eq_getElem haxis
        rcases hextents axis _ _ hget hextent with hnone | hsome
        · cases hnone
        · rw [hget, ← Option.some.inj hsome]
          congr 1
          omega
      · cases hdimension
    · cases hdimension
  · rename_i k source position hop
    rw [Bool.and_eq_true, decide_eq_true_eq, decide_eq_true_eq] at hdimension
    obtain ⟨hsame, hposition⟩ := hdimension
    have hoperand : ∀ operand ∈ [source, position], operand < size := fun operand hm =>
      operand_lt hf.verify hop rfl hm
    have hsource := hoperand source mem_cons_self
    have hposition' := hoperand position (List.mem_cons_of_mem _ mem_cons_self)
    have hread : values[source]? = some (.tensor tensor) := by
      rw [← strip_value hf.verify h (lt_trans hsource hlt), hsame,
        strip_value hf.verify h hvalue, htensor]
    have hindex := constantIndex_value h hposition (lt_trans hposition' hlt)
    obtain ⟨found, hget, hfound⟩ := h.follows size k _ hop hlt (hf.incidental size k _ hop rfl) rfl
    rw [hn] at hget
    cases hget
    have htake : ∀ operand < size, (values.take size)[operand]? = values[operand]? :=
      fun operand hoperand' => getElem?_take_of_lt hoperand'
    rw [pureValue_dim ((htake source hsource).trans hread) rfl
      ((htake position hposition').trans hindex), Option.map_eq_some_iff] at hfound
    obtain ⟨extent, hextent, heq⟩ := hfound
    cases heq
    exact hextent
  · cases hdimension

end

/-- The extents of an empty tensor with two dimensions, as the verifier has traced them. -/
structure Extents (values : List RuntimeValue) (scope : Scope) (lhs rhs : ℕ) (sizes : List ℕ)
    (rows columns : Option ℕ) (m n : ℕ) : Prop where
  shape : ((sizes.mapM (values[·]?)).bind (emptyShape [rows, columns])) = some [m, n]
  rows_static : ∀ d, rows = some d → m = d
  columns_static : ∀ d, columns = some d → n = d
  rows_dynamic : rows = none → ∃ size < values.length, dimension scope size lhs 0 = true ∧
    values[size]? = some (.index m)
  columns_dynamic : columns = none → ∃ size < values.length, dimension scope size rhs 1 = true ∧
    values[size]? = some (.index n)

variable {columns rows : Option ℕ} {sizes : List ℕ} {scope : Scope} {rhs lhs : ℕ}

theorem Extents.conforms {m : ℕ} (h : Extents values scope lhs rhs sizes rows columns m n)
    (hshape : type.shape = [rows, columns]) : conforms [m, n] type = true := by
  refine conforms_iff.2 ⟨by rw [hshape]; rfl, ?_⟩
  intro i extent d hextent hd
  rw [hshape] at hd
  match i with
  | 0 =>
    cases hextent
    cases hd
    cases rows with
    | none => exact Or.inl rfl
    | some r => exact Or.inr (congrArg some (h.rows_static r rfl).symm)
  | 1 =>
    cases hextent
    cases hd
    cases columns with
    | none => exact Or.inl rfl
    | some r => exact Or.inr (congrArg some (h.columns_static r rfl).symm)
  | i + 2 => cases hextent

theorem exists_extents (hf : Checked function) (h : Evaluated arithmetic function values)
    (hshape : type.shape = [rows, columns])
    (hextents : extentsFollow function.scope type lhs rhs [0, 1] sizes = true)
    (hcount : sizes.length = type.shape.count none) (hlt : ∀ size ∈ sizes, size < values.length) :
    ∃ m n, Extents values function.scope lhs rhs sizes rows columns m n := by
  have hrows : type.isDynamicDim 0 = decide (rows = none) := by
    simp [TensorType.isDynamicDim, hshape]
  have hcolumns : type.isDynamicDim 1 = decide (columns = none) := by
    simp [TensorType.isDynamicDim, hshape]
  rw [hshape] at hcount
  unfold extentsFollow extentsFollow extentsFollow at hextents
  rw [hrows, hcolumns] at hextents
  cases rows with
  | some r =>
    cases columns with
    | some c =>
      obtain rfl : sizes = [] := by simpa using hcount
      exact ⟨r, c, rfl, by simp, by simp, nofun, nofun⟩
    | none =>
      obtain ⟨size, rfl⟩ : ∃ size, sizes = [size] := by
        rw [← List.length_eq_one_iff, hcount]
        rfl
      have hdimension : dimension function.scope size rhs 1 = true := by simpa using hextents
      have hsize := hlt size mem_cons_self
      obtain ⟨n, hn⟩ := dimension_index hf h hdimension hsize
      refine ⟨r, n, ?_, by simp, nofun, nofun, fun _ => ⟨size, hsize, hdimension, hn⟩⟩
      simp [hn, emptyShape]
  | none =>
    cases columns with
    | some c =>
      obtain ⟨size, rfl⟩ : ∃ size, sizes = [size] := by
        rw [← List.length_eq_one_iff, hcount]
        rfl
      have hdimension : dimension function.scope size lhs 0 = true := by simpa using hextents
      have hsize := hlt size mem_cons_self
      obtain ⟨m, hm⟩ := dimension_index hf h hdimension hsize
      refine ⟨m, c, ?_, nofun, by simp, fun _ => ⟨size, hsize, hdimension, hm⟩, nofun⟩
      simp [hm, emptyShape]
    | none =>
      obtain ⟨first, second, rfl⟩ : ∃ first second, sizes = [first, second] := by
        rw [← List.length_eq_two, hcount]
        rfl
      have hboth : dimension function.scope first lhs 0 = true ∧
          dimension function.scope second rhs 1 = true := by simpa using hextents
      have hfirst := hlt first mem_cons_self
      have hsecond := hlt second (List.mem_cons_of_mem _ mem_cons_self)
      obtain ⟨m, hm⟩ := dimension_index hf h hboth.1 hfirst
      obtain ⟨n, hn⟩ := dimension_index hf h hboth.2 hsecond
      refine ⟨m, n, ?_, nofun, nofun, fun _ => ⟨first, hfirst, hboth.1, hm⟩,
        fun _ => ⟨second, hsecond, hboth.2, hn⟩⟩
      simp [hm, hn, emptyShape]

theorem mapM_take {found : List RuntimeValue} (h : sizes.mapM ((values.take v)[·]?) = some found) :
    sizes.mapM (values[·]?) = some found := by
  induction sizes generalizing found with
  | nil => exact h
  | cons size rest ih =>
    rw [List.mapM_cons] at h ⊢
    obtain ⟨first, hfirst, h⟩ := bind_eq_some_iff.1 h
    obtain ⟨others, hothers, h⟩ := bind_eq_some_iff.1 h
    rw [getElem?_take] at hfirst
    rw [(ite_none_right_eq_some.1 hfirst).2, bind_eq_bind, bind_some,
      ih hothers]
    exact h

theorem Extents.of_take {m : ℕ} (h : Extents (values.take v) scope lhs rhs sizes rows columns m n) :
    Extents values scope lhs rhs sizes rows columns m n := by
  have hkept : ∀ size value, size < (values.take v).length → (values.take v)[size]? = some value →
      size < values.length ∧ values[size]? = some value := by
    intro size value hlt hget
    rw [length_take] at hlt
    rw [getElem?_take] at hget
    exact ⟨(Nat.lt_min.1 hlt).2, (ite_none_right_eq_some.1 hget).2⟩
  refine ⟨?_, h.rows_static, h.columns_static, ?_, ?_⟩
  · obtain ⟨found, hfound, hshape⟩ := bind_eq_some_iff.1 h.shape
    rw [mapM_take hfound]
    exact hshape
  · intro hnone
    obtain ⟨size, hlt, hdimension, hget⟩ := h.rows_dynamic hnone
    exact ⟨size, (hkept size _ hlt hget).1, hdimension, (hkept size _ hlt hget).2⟩
  · intro hnone
    obtain ⟨size, hlt, hdimension, hget⟩ := h.columns_dynamic hnone
    exact ⟨size, (hkept size _ hlt hget).1, hdimension, (hkept size _ hlt hget).2⟩

theorem arguments_le_of_definingOp {op : Op} (hop : function.scope.definingOp v = some (k, op)) :
    function.arguments.length ≤ v := by
  by_contra hlt
  rw [not_le] at hlt
  unfold Scope.definingOp RegionFunction.scope at hop
  rw [List.getElem?_append_left (by rwa [length_arguments]), List.getElem?_map,
    List.getElem?_eq_getElem hlt] at hop
  cases hop

variable {op : LinalgOp}

section

variable (hverify : function.verify = true)
  (hop : function.scope.definingOp v = some (k, .linalg op)) (hsingle : op.types.length = 1)

include hverify hop hsingle

theorem runnable (hlt : ∀ operand ∈ (Op.linalg op).operands, operand < values.length) :
    Runnable values op.body := by
  have hlength : (Op.linalg op).results.length = 1 := (List.length_map _).trans hsingle
  have hplaced := (placed_verified hverify (placed_of_definingOp hop hlength)).verified
  constructor
  · intro value hm
    refine hlt value ?_
    refine List.mem_append_right _ (List.mem_filterMap.2 ⟨.outer value, ?_, rfl⟩)
    exact List.mem_append_left _ hm
  · have hbody : op.verify function.scope = true := hplaced
    unfold LinalgOp.verify at hbody
    simp only [Bool.and_eq_true] at hbody
    exact hbody.2

theorem type_init {init : ℕ} (hinits : op.inits = [init]) (htypes : op.types = [type]) :
    function.scope.type init = some (.tensor type) := by
  have hlength : (Op.linalg op).results.length = 1 := (List.length_map _).trans hsingle
  have hplaced := (placed_verified hverify (placed_of_definingOp hop hlength)).verified
  have hbody : op.verify function.scope = true := hplaced
  unfold LinalgOp.verify at hbody
  simp only [Bool.and_eq_true, decide_eq_true_eq, hinits, htypes, List.map_cons, List.map_nil,
    List.cons.injEq, and_true] at hbody
  exact hbody.1.1.1.1.2

end

theorem linalgOp_eq_some (h : linalgOp scope v = some (k, op)) :
    scope.definingOp (stripCast scope v) = some (k, .linalg op) := by
  unfold linalgOp at h
  split at h
  · rename_i hop
    cases h
    exact hop
  · cases h

theorem emptyOp_eq_some (h : emptyOp scope v = some (k, sizes, type)) :
    scope.definingOp (stripCast scope v) = some (k, .empty sizes type) := by
  unfold emptyOp at h
  split at h
  · rename_i hop
    cases h
    exact hop
  · cases h

theorem isMatrix_eq_true (h : type.isMatrix = true) :
    ∃ rows columns, type.shape = [rows, columns] ∧ type.element = .f32 := by
  unfold TensorType.isMatrix at h
  simp only [Bool.and_eq_true, decide_eq_true_eq] at h
  obtain ⟨rows, columns, hshape⟩ := List.length_eq_two.1 h.1.1
  exact ⟨rows, columns, hshape, h.1.2⟩

section

variable {commit : RegionCommitOp} {lhs rhs : ℕ} (c : Computation function.scope commit lhs rhs)
  {rows columns : Option ℕ}

theorem empty_progress (hf : Checked function) (h : Evaluated arithmetic function values)
    (hshape : c.type.shape = [rows, columns]) (hf32 : c.type.element = .f32)
    (hlt : ∀ size ∈ c.sizes, size < values.length) :
    ∃ m n, Extents values function.scope lhs rhs c.sizes rows columns m n ∧
      pureValue arithmetic values c.emptyPosition (.empty c.sizes c.type) =
        some (.tensor ⟨[m, n], arithmetic.undefined c.emptyPosition⟩) := by
  have hop := emptyOp_eq_some c.empty_found
  have hplaced := (placed_verified hf.verify (placed_of_definingOp hop rfl)).verified
  have hcount : c.sizes.length = c.type.shape.count none := by
    unfold Op.verify at hplaced
    simp only [Bool.and_eq_true, decide_eq_true_eq] at hplaced
    exact hplaced.1
  obtain ⟨m, n, hextents⟩ := exists_extents hf h hshape c.extents hcount hlt
  refine ⟨m, n, hextents, ?_⟩
  obtain ⟨found, hfound, hempty⟩ := bind_eq_some_iff.1 hextents.shape
  simp only [pureValue, hfound, hshape, hempty, hf32, bind_eq_bind, bind_some, if_true]

variable {k : ℕ}

/-- What a value without effects was given follows from the values before it. -/
theorem value_of_progress (h : Evaluated arithmetic function values) {v : ℕ} {op : Op}
    (hop : function.scope.definingOp v = some (k, op)) (hlt : v < values.length)
    (hincidental : Incidental function.scope op) (hsingle : op.results.length = 1)
    {value : RuntimeValue} (hvalue : pureValue arithmetic (values.take v) k op = some value) :
    values[v]? = some value := by
  obtain ⟨found, hget, hfound⟩ := h.follows v k op hop hlt hincidental hsingle
  rw [hget, ← hfound, hvalue]

theorem empty_value (hf : Checked function) (h : Evaluated arithmetic function values)
    (hshape : c.type.shape = [rows, columns]) (hf32 : c.type.element = .f32)
    (hlt : c.target < values.length) :
    ∃ m n, Extents values function.scope lhs rhs c.sizes rows columns m n ∧
      values[c.target]? = some (.tensor ⟨[m, n], arithmetic.undefined c.emptyPosition⟩) := by
  have hop := emptyOp_eq_some c.empty_found
  have hstrip := strip_lt hf.verify hlt
  have htake := h.take (arguments_le_of_definingOp hop)
  obtain ⟨m, n, hextents, hvalue⟩ := empty_progress c hf htake hshape hf32 fun size hm => by
    rw [length_take, Nat.min_eq_left (le_of_lt hstrip)]
    exact operand_lt hf.verify hop rfl hm
  refine ⟨m, n, hextents.of_take, ?_⟩
  rw [← strip_value hf.verify h hlt]
  exact value_of_progress h hop hstrip trivial rfl hvalue

theorem positiveZero_value (h : Evaluated arithmetic function values) {v : ℕ}
    (hzero : positiveZero function.scope v = true) (hlt : v < values.length) :
    values[v]? = some (.float 0) := by
  unfold positiveZero at hzero
  split at hzero
  · rename_i k bits hop
    have hbits : bits = 0 := of_decide_eq_true hzero
    rw [constant_value h hop hlt, hbits]
    rfl
  · cases hzero

section

variable (hf : Checked function) (h : Evaluated arithmetic function values)
  (hshape : c.type.shape = [rows, columns]) (hf32 : c.type.element = .f32)

include hf h hshape hf32

theorem fill_progress (hlt : ∀ operand ∈ (Op.linalg c.fill).operands, operand < values.length) :
    ∃ m n Z, Extents values function.scope lhs rhs c.sizes rows columns m n ∧
      linalgValue arithmetic values c.fill = some (.tensor Z) ∧
      HasType (.tensor Z) (.tensor c.fillType) ∧ Z.shape = [m, n] ∧
      ∀ i < m, ∀ j < n, Z.get [i, j] = 0 := by
  have hop := linalgOp_eq_some c.fill_found
  have hsingle : c.fill.types.length = 1 := by
    rw [c.fill_types]
    rfl
  have htarget : c.target < values.length := hlt _ (by simp [Op.operands, c.fill_inits])
  have hzero : c.zero < values.length := hlt _ (by simp [Op.operands, c.fill_inputs])
  obtain ⟨m, n, hextents, hempty⟩ := empty_value c hf h hshape hf32 htarget
  obtain ⟨Z, hZ, hZshape, hZget⟩ := linalgValue_fill c.fill_maps c.fill_iterators c.fill_canonical
    (runnable hf.verify hop hsingle hlt) c.fill_inputs c.fill_inits c.fill_types
    (positiveZero_value h c.zero_bits hzero) hempty rfl
  have htype := type_init hf.verify hop hsingle c.fill_inits c.fill_types
  obtain ⟨hf32', hconforms⟩ := h.typed c.target _ _ hempty htype
  exact ⟨m, n, Z, hextents, hZ, ⟨hf32', hZshape ▸ hconforms⟩, hZshape, hZget⟩

theorem fill_value (hlt : c.init < values.length) :
    ∃ m n Z, Extents values function.scope lhs rhs c.sizes rows columns m n ∧
      values[c.init]? = some (.tensor Z) ∧ Z.shape = [m, n] ∧
      ∀ i < m, ∀ j < n, Z.get [i, j] = 0 := by
  have hop := linalgOp_eq_some c.fill_found
  have hstrip := strip_lt hf.verify hlt
  have hsingle : (Op.linalg c.fill).results.length = 1 := by
    rw [Op.results, c.fill_types]
    rfl
  have htake := h.take (arguments_le_of_definingOp hop)
  obtain ⟨m, n, Z, hextents, hvalue, -, hZ⟩ := fill_progress c hf htake hshape hf32
    fun operand hm => by
      rw [length_take, Nat.min_eq_left (le_of_lt hstrip)]
      exact operand_lt hf.verify hop hsingle hm
  refine ⟨m, n, Z, hextents.of_take, ?_, hZ⟩
  rw [← strip_value hf.verify h hlt]
  exact value_of_progress h hop hstrip trivial hsingle hvalue

end

/-- What the inputs of a contraction are when they have been read behind the guard of their call:
matrices that fit together, of the extents that the type of the output declares. -/
structure Inputs (values : List RuntimeValue) (type : TensorType) (lhs rhs : ℕ)
    (A B : Tensor (BitVec 32)) (m k n : ℕ) : Prop where
  lhs_lt : lhs < values.length
  rhs_lt : rhs < values.length
  lhs_value : values[lhs]? = some (.tensor A)
  rhs_value : values[rhs]? = some (.tensor B)
  lhs_shape : A.shape = [m, k]
  rhs_shape : B.shape = [k, n]
  declared : conforms [m, n] type = true

variable {n m : ℕ} {A B : Tensor (BitVec 32)}

section

variable (hf : Checked function) (h : Evaluated arithmetic function values)
  (hin : Inputs values c.type lhs rhs A B m k n)

include hf h hin

theorem extents_eq {m' n' : ℕ} (hshape : c.type.shape = [rows, columns])
    (hextents : Extents values function.scope lhs rhs c.sizes rows columns m' n') :
    m' = m ∧ n' = n := by
  obtain ⟨-, hdeclared⟩ := conforms_iff.1 hin.declared
  constructor
  · cases hrows : rows with
    | some d =>
      have hd : c.type.shape[0]? = some (some d) := by rw [hshape, hrows]; rfl
      rw [hextents.rows_static d hrows]
      rcases hdeclared 0 m _ rfl hd with hnone | hsome
      · cases hnone
      · exact Option.some.inj hsome
    | none =>
      obtain ⟨size, hlt, hdimension, hget⟩ := hextents.rows_dynamic hrows
      have hextent := dimension_value hf h hdimension hlt hin.lhs_lt hin.lhs_value hget
        (by rw [hin.lhs_shape]; exact Nat.succ_pos _)
      rw [hin.lhs_shape] at hextent
      exact (Option.some.inj hextent).symm
  · cases hcolumns : columns with
    | some d =>
      have hd : c.type.shape[1]? = some (some d) := by rw [hshape, hcolumns]; rfl
      rw [hextents.columns_static d hcolumns]
      rcases hdeclared 1 n _ rfl hd with hnone | hsome
      · cases hnone
      · exact Option.some.inj hsome
    | none =>
      obtain ⟨size, hlt, hdimension, hget⟩ := hextents.columns_dynamic hcolumns
      have hextent := dimension_value hf h hdimension hlt hin.rhs_lt hin.rhs_value hget
        (by rw [hin.rhs_shape]; exact Nat.lt_succ_self _)
      rw [hin.rhs_shape] at hextent
      exact (Option.some.inj hextent).symm

/-- **The contraction has the value of the source's** on the same inputs. -/
theorem matmul_progress (hmatrix : c.type.isMatrix = true)
    (hlt : ∀ operand ∈ (Op.linalg c.matmul).operands, operand < values.length) :
    ∃ T, linalgValue arithmetic values c.matmul = some (.tensor T) ∧
      HasType (.tensor T) (.tensor c.matmulType) ∧ T.shape = [m, n] ∧
      Agrees T (contraction arithmetic A B) := by
  obtain ⟨rows, columns, hshape, hf32⟩ := isMatrix_eq_true hmatrix
  have hop := linalgOp_eq_some c.matmul_found
  have hsingle : c.matmul.types.length = 1 := by
    rw [c.matmul_types]
    rfl
  have hleft : c.left < values.length := hlt _ (by simp [Op.operands, c.matmul_inputs])
  have hright : c.right < values.length := hlt _ (by simp [Op.operands, c.matmul_inputs])
  have hinit : c.init < values.length := hlt _ (by simp [Op.operands, c.matmul_inits])
  have hA : values[c.left]? = some (.tensor A) := by
    rw [← strip_value hf.verify h hleft, c.left_same, strip_value hf.verify h hin.lhs_lt,
      hin.lhs_value]
  have hB : values[c.right]? = some (.tensor B) := by
    rw [← strip_value hf.verify h hright, c.right_same, strip_value hf.verify h hin.rhs_lt,
      hin.rhs_value]
  obtain ⟨m', n', Z, hextents, hZ, hZshape, hZget⟩ := fill_value c hf h hshape hf32 hinit
  obtain ⟨rfl, rfl⟩ := extents_eq c hf h hin hshape hextents
  obtain ⟨T, hT, hTshape, hTget⟩ := linalgValue_matmul c.matmul_maps c.matmul_iterators
    c.matmul_canonical (runnable hf.verify hop hsingle hlt) c.matmul_inputs c.matmul_inits
    c.matmul_types hA hB hZ hin.lhs_shape hin.rhs_shape hZshape
  have htype := type_init hf.verify hop hsingle c.matmul_inits c.matmul_types
  obtain ⟨hf32', hconforms⟩ := h.typed c.init _ _ hZ htype
  rw [hZshape] at hconforms
  refine ⟨T, hT, ⟨hf32', hTshape ▸ hconforms⟩, hTshape, ?_, ?_⟩
  · rw [hTshape, shape_contraction hin.lhs_shape hin.rhs_shape]
  · intro key hkey
    rw [hTshape] at hkey
    obtain ⟨i, hi, j, hj, rfl⟩ := mem_points_matrix.1 hkey
    rw [hTget i hi j hj, hZget i hi j hj, contraction, hin.lhs_shape]
    rfl

theorem matmul_value (hmatrix : c.type.isMatrix = true) (hlhs : stripCast function.scope lhs = lhs)
    (hrhs : stripCast function.scope rhs = rhs) (hlt : commit.value < values.length) :
    ∃ T, values[commit.value]? = some (.tensor T) ∧ T.shape = [m, n] ∧
      Agrees T (contraction arithmetic A B) := by
  have hop := linalgOp_eq_some c.matmul_found
  have hsingle : (Op.linalg c.matmul).results.length = 1 := by
    rw [Op.results, c.matmul_types]
    rfl
  have hstrip := strip_lt hf.verify hlt
  have hoperand : ∀ operand ∈ (Op.linalg c.matmul).operands,
      operand < stripCast function.scope commit.value :=
    fun operand hm => operand_lt hf.verify hop hsingle hm
  have hlength : (values.take (stripCast function.scope commit.value)).length =
      stripCast function.scope commit.value := by
    rw [length_take, Nat.min_eq_left (le_of_lt hstrip)]
  have hlhs' : lhs < stripCast function.scope commit.value := by
    have hleft := hoperand c.left (by simp [Op.operands, c.matmul_inputs])
    rw [← hlhs, ← c.left_same]
    exact strip_lt hf.verify hleft
  have hrhs' : rhs < stripCast function.scope commit.value := by
    have hright := hoperand c.right (by simp [Op.operands, c.matmul_inputs])
    rw [← hrhs, ← c.right_same]
    exact strip_lt hf.verify hright
  have hin' : Inputs (values.take (stripCast function.scope commit.value)) c.type lhs rhs A B m k n :=
    ⟨by rwa [hlength], by rwa [hlength],
      by rw [getElem?_take_of_lt hlhs', hin.lhs_value],
      by rw [getElem?_take_of_lt hrhs', hin.rhs_value], hin.lhs_shape, hin.rhs_shape,
      hin.declared⟩
  obtain ⟨T, hT, -, hTshape, hagrees⟩ := matmul_progress c hf
    (h.take (arguments_le_of_definingOp hop)) hin' hmatrix
    fun operand hm => by rw [hlength]; exact hoperand operand hm
  refine ⟨T, ?_, hTshape, hagrees⟩
  rw [← strip_value hf.verify h hlt]
  exact value_of_progress h hop hstrip trivial hsingle hT

end

end

end Matcore.TwoGemm
