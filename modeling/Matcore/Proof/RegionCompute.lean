import Matcore.TwoGemm.Run

/-!
# The structured operations of a region

Tensors that agree on their elements, and what the verifier's checks of a body, of its maps and of
its iterators make of a structured operation: a contraction on top of its initial tensor, or a fill
with one number.
-/

namespace Matcore.TwoGemm

open Mlir (Value)
open LoopNest (Tensor Operand AffineMap points mem_points filter_points execute_eq execute boundsOf
  boundOf)
open List (range mem_cons_self append_assoc mem_cons mapM_nil)
open Option (bind_eq_bind bind_some pure_def bind)

/-- The tensors have the same elements. -/
structure Agrees (a b : Tensor (BitVec 32)) : Prop where
  shape : a.shape = b.shape
  get : ∀ key ∈ points a.shape, a.get key = b.get key

theorem Agrees.refl (a : Tensor (BitVec 32)) : Agrees a a := ⟨rfl, fun _ _ => rfl⟩

variable {b a : Tensor (BitVec 32)}

theorem Agrees.symm (h : Agrees a b) : Agrees b a :=
  ⟨h.shape.symm, fun key hm => (h.get key (h.shape ▸ hm)).symm⟩

theorem Agrees.trans {c : Tensor (BitVec 32)} (h : Agrees a b) (h' : Agrees b c) : Agrees a c :=
  ⟨h.shape.trans h'.shape, fun key hm => (h.get key hm).trans (h'.get key (h.shape ▸ hm))⟩

variable {n m : ℕ}

theorem mem_points_matrix {key : List ℕ} :
    key ∈ points [m, n] ↔ ∃ i < m, ∃ j < n, key = [i, j] := by
  rw [mem_points]
  constructor
  · rintro (_ | ⟨hi, _ | ⟨hj, _ | _⟩⟩)
    exact ⟨_, hi, _, hj, rfl⟩
  · rintro ⟨i, hi, j, hj, rfl⟩
    exact .cons hi (.cons hj .nil)

theorem elements_congr (h : Agrees a b) : elements a = elements b := by
  unfold elements
  rw [← h.shape]
  exact List.map_congr_left h.get

namespace View

variable {view : View} {memory : Memory} {value other : Tensor (BitVec 32)}

theorem element_lt {offset : ℕ} (h : offset < view.bytes) :
    [offset / 4 / view.columns.toNat, offset / 4 % view.columns.toNat] ∈ points view.shape := by
  have hbytes : offset / 4 < view.rows.toNat * view.columns.toNat := by
    unfold bytes at h
    omega
  have hpos : 0 < view.columns.toNat := by
    rcases Nat.eq_zero_or_pos view.columns.toNat with hzero | hpos
    · rw [hzero] at hbytes
      omega
    · exact hpos
  rw [shape, mem_points_matrix]
  exact ⟨_, Nat.div_lt_of_lt_mul (by rwa [Nat.mul_comm] at hbytes), _, Nat.mod_lt _ hpos, rfl⟩

theorem write_congr (h : Agrees value other) (hshape : value.shape = view.shape) :
    view.write memory value = view.write memory other := by
  funext address
  unfold write
  by_cases hin : view.data ≤ address ∧ address < view.data + view.bytes
  · have hoffset : address - view.data < view.bytes := by omega
    have hkey := element_lt hoffset
    rw [← hshape] at hkey
    rw [if_pos hin, if_pos hin]
    simp only [h.get _ hkey]
  · rw [if_neg hin, if_neg hin]

theorem loadWord_bytes {address : ℕ} {word : BitVec 32}
    (h : ∀ i < 4, memory (address + i) = UInt8.ofNat (word.toNat / 256 ^ i % 256)) :
    loadWord memory address = word := by
  have hbytes : (range 4).map (fun i => memory (address + i)) =
      LittleEndian.digits 4 word.toNat := by
    rw [LittleEndian.digits_eq_map]
    exact List.map_congr_left fun i hi => h i (List.mem_range.1 hi)
  have hword : word.toNat < 256 ^ 4 := word.isLt
  unfold loadWord
  rw [hbytes, LittleEndian.value_digits hword, BitVec.ofNat_toNat, BitVec.setWidth_eq]

/-- **Reading behind a commit** gives the committed tensor. -/
theorem read_write (hshape : value.shape = view.shape) :
    Agrees (view.read (view.write memory value)) value := by
  refine ⟨hshape.symm, ?_⟩
  intro key hkey
  obtain ⟨i, hi, j, hj, rfl⟩ := mem_points_matrix.1 hkey
  have hindex : i * view.columns.toNat + j < view.rows.toNat * view.columns.toNat :=
    calc i * view.columns.toNat + j
        < i * view.columns.toNat + view.columns.toNat := by omega
      _ = (i + 1) * view.columns.toNat := by ring
      _ ≤ view.rows.toNat * view.columns.toNat := Nat.mul_le_mul_right _ hi
  show loadWord (view.write memory value)
    (view.data + 4 * (i * view.columns.toNat + j)) = value.get [i, j]
  apply loadWord_bytes
  intro b hb
  have hin : view.data ≤ view.data + 4 * (i * view.columns.toNat + j) + b ∧
      view.data + 4 * (i * view.columns.toNat + j) + b < view.data + view.bytes := by
    unfold bytes
    omega
  have hoffset : view.data + 4 * (i * view.columns.toNat + j) + b - view.data =
      4 * (i * view.columns.toNat + j) + b := by omega
  have helement : (4 * (i * view.columns.toNat + j) + b) / 4 = i * view.columns.toNat + j := by
    omega
  have hbyte : (4 * (i * view.columns.toNat + j) + b) % 4 = b := by omega
  have hrow : (i * view.columns.toNat + j) / view.columns.toNat = i := by
    rw [Nat.mul_comm, Nat.mul_add_div (by omega), Nat.div_eq_of_lt hj, Nat.add_zero]
  have hcolumn : (i * view.columns.toNat + j) % view.columns.toNat = j := by
    rw [Nat.mul_comm, Nat.mul_add_mod, Nat.mod_eq_of_lt hj]
  unfold write
  rw [if_pos hin]
  simp only [hoffset, helement, hbyte, hrow, hcolumn]

end View

theorem shape_contraction {arithmetic : Arithmetic} {k : ℕ} (ha : a.shape = [m, k])
    (hb : b.shape = [k, n]) : (contraction arithmetic a b).shape = [m, n] := by
  unfold contraction
  rw [ha, hb]
  rfl

theorem Agrees.contraction {arithmetic : Arithmetic} {a' b' : Tensor (BitVec 32)} {k : ℕ}
    (ha : Agrees a a') (hb : Agrees b b') (hshape : a.shape = [m, k]) (hshape' : b.shape = [k, n]) :
    Agrees (contraction arithmetic a b) (contraction arithmetic a' b') := by
  have hleft : a'.shape = [m, k] := by rw [← ha.shape, hshape]
  have hright : b'.shape = [k, n] := by rw [← hb.shape, hshape']
  constructor
  · rw [shape_contraction hshape hshape', shape_contraction hleft hright]
  · intro key hkey
    rw [shape_contraction hshape hshape'] at hkey
    obtain ⟨i, hi, j, hj, rfl⟩ := mem_points_matrix.1 hkey
    simp only [TwoGemm.contraction, hshape, hleft]
    apply List.foldl_ext
    intro acc p hp
    have hp' : p < k := by simpa using hp
    have hlhs : a.get [i, p] = a'.get [i, p] :=
      ha.get _ (by rw [hshape, mem_points_matrix]; exact ⟨i, hi, p, hp', rfl⟩)
    have hrhs : b.get [p, j] = b'.get [p, j] :=
      hb.get _ (by rw [hshape', mem_points_matrix]; exact ⟨p, hp', j, hj, rfl⟩)
    rw [hlhs, hrhs]

variable {arithmetic : Arithmetic} {values : List RuntimeValue}

/-- The values of the function that a body uses are there. -/
def Captured (values : List RuntimeValue) (operands : List ScalarValue) : Prop :=
  ∀ value, ScalarValue.outer value ∈ operands → value < values.length

variable {inner : List RuntimeValue} {value : ScalarValue}

theorem scalarValue_isSome {operands : List ScalarValue} (hcaptured : Captured values operands)
    (hm : value ∈ operands) (h : value.definedBefore inner.length = true) :
    ∃ found, scalarValue values inner value = some found := by
  cases value with
  | inner value => exact ⟨_, List.getElem?_eq_getElem (of_decide_eq_true h)⟩
  | outer value => exact ⟨_, List.getElem?_eq_getElem (hcaptured value hm)⟩

theorem scalarValue_append {more : List RuntimeValue} {found : RuntimeValue}
    (h : scalarValue values inner value = some found) :
    scalarValue values (inner ++ more) value = some found := by
  cases value with
  | inner value =>
    obtain ⟨hlt, -⟩ := List.getElem?_eq_some_iff.1 h
    exact (List.getElem?_append_left hlt).trans h
  | outer value => exact h

variable {x : BitVec 32} {lhs rhs : ScalarValue}

theorem scalarArith_float (f : BitVec 32 → BitVec 32 → BitVec 32) {y : BitVec 32}
    (hx : scalarValue values inner lhs = some (.float x))
    (hy : scalarValue values inner rhs = some (.float y)) :
    scalarArith values inner f lhs rhs = some (.float (f x y)) := by
  unfold scalarArith
  rw [hx, hy]

theorem scalarArith_isSome (f : BitVec 32 → BitVec 32 → BitVec 32) {a b : RuntimeValue}
    (ha : scalarValue values inner lhs = some a) (hb : scalarValue values inner rhs = some b) :
    ∃ found, ∀ more, scalarArith values (inner ++ more) f lhs rhs = some found := by
  by_cases hfloat : ∃ x y, a = .float x ∧ b = .float y
  · obtain ⟨x, y, rfl, rfl⟩ := hfloat
    refine ⟨.float (f x y), fun more => ?_⟩
    unfold scalarArith
    rw [scalarValue_append ha, scalarValue_append hb]
  · refine ⟨.foreign [], fun more => ?_⟩
    unfold scalarArith
    rw [scalarValue_append ha, scalarValue_append hb]
    split
    · rename_i x y hx hy
      exact absurd ⟨x, y, Option.some.inj hx, Option.some.inj hy⟩ hfloat
    · rfl
    · rename_i hnone
      exact absurd rfl (hnone a b rfl)

/-- A supported operation has a value, which stays the same while the body goes on. -/
theorem scalarStep_isSome (arithmetic : Arithmetic) {op : ScalarOp} (hop : op.supported = true)
    (hcaptured : Captured values op.operands)
    (hdefined : op.operands.all (·.definedBefore inner.length) = true) :
    ∃ found, ∀ more, scalarStep arithmetic values (inner ++ more) op = some found := by
  rw [List.all_eq_true] at hdefined
  cases op with
  | constant value => exact ⟨constantValue arithmetic value, fun _ => rfl⟩
  | addf lhs rhs fastmath | mulf lhs rhs fastmath =>
    have hflags : fastmath = 0 := of_decide_eq_true hop
    obtain ⟨a, ha⟩ := scalarValue_isSome hcaptured mem_cons_self
      (hdefined lhs (by simp [ScalarOp.operands]))
    obtain ⟨b, hb⟩ := scalarValue_isSome hcaptured
      (List.mem_cons_of_mem _ mem_cons_self) (hdefined rhs (by simp [ScalarOp.operands]))
    rw [hflags]
    exact scalarArith_isSome _ ha hb
  | other name operands results effectFree => cases hop

/-- **A body of supported operations runs to its end**, and each operation has the value that its
operands give at that end. -/
theorem scalarRun_total (arithmetic : Arithmetic) (inner : List RuntimeValue)
    {yields : List ScalarValue} {ops : List ScalarOp} (hops : ops.all (·.supported) = true)
    (hcaptured : Captured values (ops.flatMap (·.operands)))
    (hverify : verifyBodyFrom yields inner.length ops = true) :
    ∃ results, scalarRun arithmetic values inner ops = some (inner ++ results) ∧
      ∀ k op, ops[k]? = some op → ∃ found, (inner ++ results)[inner.length + k]? = some found ∧
        scalarStep arithmetic values (inner ++ results) op = some found := by
  induction ops generalizing inner with
  | nil => exact ⟨[], by rw [scalarRun, List.append_nil], nofun⟩
  | cons op rest ih =>
    rw [List.all_cons, Bool.and_eq_true] at hops
    rw [verifyBodyFrom, Bool.and_eq_true] at hverify
    have hcaptured' : Captured values op.operands := fun value hm =>
      hcaptured value (List.mem_flatMap.2 ⟨op, mem_cons_self, hm⟩)
    have hcount : op.resultCount = 1 := by
      cases op with
      | other => cases hops.1
      | _ => rfl
    obtain ⟨found, hfound⟩ := scalarStep_isSome arithmetic hops.1 hcaptured'
      hverify.1
    have hrest : verifyBodyFrom yields (inner ++ [found]).length rest = true := by
      rw [List.length_append, List.length_singleton, ← hcount]
      exact hverify.2
    obtain ⟨results, hrun, heach⟩ := ih (inner ++ [found]) hops.2
      (fun value hm => hcaptured value (by
        rw [List.flatMap_cons]
        exact List.mem_append_right _ hm)) hrest
    have hstep : scalarStep arithmetic values inner op = some found := by
      simpa only [List.append_nil] using hfound []
    refine ⟨found :: results, ?_, ?_⟩
    · rw [scalarRun, hstep]
      simpa only [bind_eq_bind, bind_some, append_assoc,
        List.singleton_append] using hrun
    · intro k op' hk
      cases k with
      | zero =>
        have hsame : op = op' := by simpa using hk
        rw [← hsame]
        exact ⟨found, by simp, hfound _⟩
      | succ k =>
        obtain ⟨found', hget, hvalue⟩ := heach k op' (by simpa using hk)
        rw [append_assoc, List.singleton_append, List.length_append,
          List.length_singleton] at hget
        rw [append_assoc, List.singleton_append] at hvalue
        exact ⟨found', by rw [← hget]; congr 1; omega, hvalue⟩

variable {body : Body}

theorem definingOp_eq_some (hops : body.ops.all (·.supported) = true) {op : ScalarOp}
    (h : body.definingOp value = some op) :
    ∃ k, value = .inner (body.arguments + k) ∧ body.ops[k]? = some op := by
  have hsingle : (body.ops.flatMap fun op => List.replicate op.resultCount op) = body.ops := by
    have hone : ∀ op ∈ body.ops, List.replicate op.resultCount op = [op] := by
      intro op hm
      cases op with
      | other => cases List.all_eq_true.1 hops _ hm
      | _ => rfl
    rw [List.flatMap_congr hone]
    exact List.flatMap_singleton' body.ops
  cases value with
  | outer value => cases h
  | inner value =>
    unfold Body.definingOp at h
    rw [hsingle] at h
    obtain ⟨hge, hget⟩ := Option.ite_none_left_eq_some.1 h
    exact ⟨value - body.arguments, by congr 1; omega, hget⟩

theorem arguments_getElem? {arguments : List (BitVec 32)} {results : List RuntimeValue} {i : ℕ}
    (h : arguments[i]? = some x) :
    (arguments.map RuntimeValue.float ++ results)[i]? = some (.float x) := by
  obtain ⟨hlt, -⟩ := List.getElem?_eq_some_iff.1 h
  rw [List.getElem?_append_left (by simpa using hlt), List.getElem?_map, h]
  rfl

theorem isContraction_eq_true (hops : body.ops.all (·.supported) = true) {yielded : ScalarValue}
    (h : isContraction body yielded = true) :
    ∃ k l, yielded = .inner (body.arguments + k) ∧
      body.ops[k]? = some (.addf (.inner 2) (.inner (body.arguments + l)) 0) ∧
      body.ops[l]? = some (.mulf (.inner 0) (.inner 1) 0) := by
  unfold isContraction at h
  split at h
  · rename_i lhs rhs hadd
    split at h
    · rename_i left right hmul
      simp only [Bool.and_eq_true, decide_eq_true_eq] at h
      obtain ⟨⟨rfl, rfl⟩, rfl⟩ := h
      obtain ⟨k, hk, hadd'⟩ := definingOp_eq_some hops hadd
      obtain ⟨l, hl, hmul'⟩ := definingOp_eq_some hops hmul
      rw [hl] at hadd'
      exact ⟨k, l, hk, hadd', hmul'⟩
    · cases h
  · cases h

/-- What a canonical body has to be given to run. -/
structure Runnable (values : List RuntimeValue) (body : Body) : Prop where
  captured : Captured values (body.ops.flatMap (·.operands))
  verified : verifyBodyFrom (body.yields.getD []) body.arguments body.ops = true

variable {op : LinalgOp}

theorem canonicalScalar_eq_true {isGemm : Bool} (h : canonicalScalar op isGemm = true) :
    op.body.ops.all (·.supported) = true ∧ ∃ yielded, op.body.yields = some [yielded] ∧
      (if isGemm then op.body.arguments = 3 && isContraction op.body yielded
        else op.body.arguments = 2 && yielded = .inner 0) = true := by
  unfold canonicalScalar at h
  rw [Bool.and_eq_true] at h
  obtain ⟨hops, hyields⟩ := h
  split at hyields
  · rename_i yielded hyielded
    exact ⟨hops, yielded, hyielded, hyields⟩
  · cases hyields

/-- **The body of a contraction** adds the product of its inputs to its output. -/
theorem bodyValue_contraction (hcanonical : canonicalScalar op true = true)
    (hrun : Runnable values op.body) (x y z : BitVec 32) :
    bodyValue arithmetic values op.body [x, y, z] =
      some (arithmetic.addf z (arithmetic.mulf x y)) := by
  obtain ⟨hops, yielded, hyields, hbody⟩ := canonicalScalar_eq_true hcanonical
  rw [if_pos rfl, Bool.and_eq_true, decide_eq_true_eq] at hbody
  obtain ⟨hcount, hcontraction⟩ := hbody
  obtain ⟨k, l, rfl, hadd, hmul⟩ := isContraction_eq_true hops hcontraction
  rw [hcount] at hadd
  have hverified := hrun.verified
  rw [hcount] at hverified
  obtain ⟨results, hresults, heach⟩ :=
    scalarRun_total arithmetic ([x, y, z].map .float) hops hrun.captured hverified
  have hargument : ∀ i w, [x, y, z][i]? = some w →
      scalarValue values ([x, y, z].map RuntimeValue.float ++ results) (.inner i) =
        some (.float w) := fun i w h => arguments_getElem? h
  obtain ⟨product, hproduct, hmulf⟩ := heach l _ hmul
  have hproduct' : product = .float (arithmetic.mulf x y) := by
    have hvalue := scalarArith_float arithmetic.mulf (hargument 0 x rfl) (hargument 1 y rfl)
    exact Option.some.inj (hmulf.symm.trans hvalue)
  obtain ⟨sum, hsum, haddf⟩ := heach k _ hadd
  have hright : scalarValue values ([x, y, z].map RuntimeValue.float ++ results)
      (.inner (3 + l)) = some (.float (arithmetic.mulf x y)) := by
    rw [← hproduct']
    exact hproduct
  have hsum' : sum = .float (arithmetic.addf z (arithmetic.mulf x y)) := by
    have hvalue := scalarArith_float arithmetic.addf (hargument 2 z rfl) hright
    exact Option.some.inj (haddf.symm.trans hvalue)
  have hyielded : scalarValue values ([x, y, z].map RuntimeValue.float ++ results)
      (.inner (op.body.arguments + k)) =
        some (.float (arithmetic.addf z (arithmetic.mulf x y))) := by
    rw [hcount, ← hsum']
    exact hsum
  unfold bodyValue
  rw [if_pos (by rw [hcount]; rfl), hresults, hyields]
  simp only [hyielded]

/-- **The body of a fill** yields its input. -/
theorem bodyValue_fill (hcanonical : canonicalScalar op false = true)
    (hrun : Runnable values op.body) (x y : BitVec 32) :
    bodyValue arithmetic values op.body [x, y] = some x := by
  obtain ⟨hops, yielded, hyields, hbody⟩ := canonicalScalar_eq_true hcanonical
  simp only [Bool.false_eq_true, if_false, Bool.and_eq_true, decide_eq_true_eq] at hbody
  obtain ⟨hcount, rfl⟩ := hbody
  have hverified := hrun.verified
  rw [hcount] at hverified
  obtain ⟨results, hresults, -⟩ :=
    scalarRun_total arithmetic ([x, y].map .float) hops hrun.captured hverified
  have hyielded : scalarValue values ([x, y].map RuntimeValue.float ++ results) (.inner 0) =
      some (.float x) := arguments_getElem? rfl
  unfold bodyValue
  rw [if_pos (by rw [hcount]; rfl), hresults, hyields]
  simp only [hyielded]

theorem points_single (k : ℕ) : points [k] = (range k).map ([·]) := by
  simp [points, List.map_eq_flatMap]

variable {k n m : ℕ}

theorem mem_points_gemm {point : List ℕ} (h : point ∈ points [m, n, k]) :
    ∃ i j p, point = [i, j, p] := by
  obtain _ | ⟨-, _ | ⟨-, _ | ⟨-, _ | _⟩⟩⟩ := mem_points.1 h
  exact ⟨_, _, _, rfl⟩

/-- The operands of a contraction, with the maps that the verifier requires. -/
def gemmOperands (A B : Tensor (BitVec 32)) : List (Operand (BitVec 32)) :=
  [⟨.projection 3 [0, 2], A⟩, ⟨.projection 3 [2, 1], B⟩]

def gemmOutput (C : Tensor (BitVec 32)) : Operand (BitVec 32) := ⟨.projection 3 [0, 1], C⟩

variable {C B A : Tensor (BitVec 32)} {body : List (BitVec 32) → Option (BitVec 32)}

theorem execute_gemm
    (hbody : ∀ x y z, body [x, y, z] = some (arithmetic.addf z (arithmetic.mulf x y)))
    (hA : A.shape = [m, k]) (hB : B.shape = [k, n]) (hC : C.shape = [m, n]) :
    ∃ T, execute 3 (gemmOperands A B) (gemmOutput C) body = some T ∧ T.shape = [m, n] ∧
      ∀ i < m, ∀ j < n, T.get [i, j] = (range k).foldl (fun acc p =>
        arithmetic.addf acc (arithmetic.mulf (A.get [i, p]) (B.get [p, j]))) (C.get [i, j]) := by
  have hbounds : boundsOf 3 (gemmOperands A B ++ [gemmOutput C]) = some [m, n, k] := by
    simp [boundsOf, boundOf, gemmOperands, gemmOutput, AffineMap.projection, hA,
      hB, List.range_succ]
  have hshapes : ∀ operand ∈ gemmOperands A B ++ [gemmOutput C],
      operand.map.apply [m, n, k] = some operand.tensor.shape := by
    intro operand hm
    simp only [gemmOperands, gemmOutput, List.mem_append, mem_cons, List.not_mem_nil,
      or_false] at hm
    rcases hm with (rfl | rfl) | rfl
    · rw [hA]; rfl
    · rw [hB]; rfl
    · rw [hC]; rfl
  let read : List ℕ → List (BitVec 32) := fun point =>
    [A.get [point.getD 0 0, point.getD 2 0], B.get [point.getD 2 0, point.getD 1 0]]
  let value : List ℕ → BitVec 32 → BitVec 32 := fun point acc =>
    arithmetic.addf acc (arithmetic.mulf (A.get [point.getD 0 0, point.getD 2 0])
      (B.get [point.getD 2 0, point.getD 1 0]))
  have hread : ∀ point ∈ points [m, n, k],
      LoopNest.elements (gemmOperands A B) point = some (read point) := by
    intro point hm
    obtain ⟨i, j, p, rfl⟩ := mem_points_gemm hm
    rfl
  have htarget : ∀ point ∈ points [m, n, k],
      (gemmOutput C).map.apply point = some (point.take 2) := by
    intro point hm
    obtain ⟨i, j, p, rfl⟩ := mem_points_gemm hm
    rfl
  have hvalue : ∀ point ∈ points [m, n, k], ∀ z, body (read point ++ [z]) =
      some (value point z) := fun point _ z => hbody _ _ z
  refine ⟨_, execute_eq read (·.take 2) value hbounds hshapes hread htarget hvalue, hC, ?_⟩
  intro i hi j hj
  have hkey : [i, j] ∈ points [m, n] := mem_points_matrix.2 ⟨i, hi, j, hj, rfl⟩
  have hfilter := filter_points [k] hkey
  rw [points_single, List.map_map] at hfilter
  have hpoints : (points [m, n, k]).filter (fun point => point.take 2 = [i, j]) =
      (range k).map fun p => [i, j, p] := hfilter
  simp only [hpoints, List.foldl_map]
  rfl

variable {bits : BitVec 32}

theorem execute_fill (hbody : ∀ x y, body [x, y] = some x) (hC : C.shape = [m, n]) :
    ∃ T, execute 2 [⟨⟨2, 0, []⟩, .scalar bits⟩] ⟨.projection 2 [0, 1], C⟩ body = some T ∧
      T.shape = [m, n] ∧ ∀ i < m, ∀ j < n, T.get [i, j] = bits := by
  let inputs : List (Operand (BitVec 32)) := [⟨⟨2, 0, []⟩, .scalar bits⟩]
  let init : Operand (BitVec 32) := ⟨.projection 2 [0, 1], C⟩
  have hbounds : boundsOf 2 (inputs ++ [init]) = some [m, n] := by
    simp [boundsOf, boundOf, inputs, init, AffineMap.projection, hC,
      List.range_succ, List.findSome?_cons]
  have hshapes : ∀ operand ∈ inputs ++ [init],
      operand.map.apply [m, n] = some operand.tensor.shape := by
    intro operand hm
    simp only [inputs, init, List.mem_append, mem_cons, List.not_mem_nil, or_false] at hm
    rcases hm with rfl | rfl
    · rfl
    · rw [hC]; rfl
  have hread : ∀ point ∈ points [m, n], LoopNest.elements inputs point = some [bits] := by
    intro point hm
    obtain ⟨i, -, j, -, rfl⟩ := mem_points_matrix.1 hm
    rfl
  have htarget : ∀ point ∈ points [m, n], init.map.apply point = some (point.take 2) := by
    intro point hm
    obtain ⟨i, -, j, -, rfl⟩ := mem_points_matrix.1 hm
    rfl
  refine ⟨_, execute_eq (fun _ => [bits]) (·.take 2) (fun _ _ => bits) hbounds hshapes hread
    htarget fun point _ z => hbody bits z, hC, ?_⟩
  intro i hi j hj
  have hkey : [i, j] ∈ points [m, n] := mem_points_matrix.2 ⟨i, hi, j, hj, rfl⟩
  have hpoints : (points [m, n]).filter (fun point => point.take 2 = [i, j]) = [[i, j]] :=
    filter_points [] hkey
  simp only [hpoints]
  rfl

theorem operandOf_tensor {map : AffineMap} {value : Value} {tensor : Tensor (BitVec 32)}
    (h : values[value]? = some (.tensor tensor)) :
    operandOf values map value = some ⟨map, tensor⟩ := by
  unfold operandOf
  rw [h]
  rfl

variable {type : TensorType} {c : Value}

/-- **A contraction** adds the products of its inputs to its initial tensor. -/
theorem linalgValue_matmul {a b : Value} (hmaps : op.maps = gemmMaps)
    (hiterators : op.iterators = gemmIterators) (hcanonical : canonicalScalar op true = true)
    (hrun : Runnable values op.body) (hinputs : op.inputs = [a, b]) (hinits : op.inits = [c])
    (htypes : op.types = [type]) (ha : values[a]? = some (.tensor A))
    (hb : values[b]? = some (.tensor B)) (hc : values[c]? = some (.tensor C))
    (hA : A.shape = [m, k]) (hB : B.shape = [k, n]) (hC : C.shape = [m, n]) :
    ∃ T, linalgValue arithmetic values op = some (.tensor T) ∧ T.shape = [m, n] ∧
      ∀ i < m, ∀ j < n, T.get [i, j] = (range k).foldl (fun acc p =>
        arithmetic.addf acc (arithmetic.mulf (A.get [i, p]) (B.get [p, j]))) (C.get [i, j]) := by
  obtain ⟨T, hT, hshape, hget⟩ := execute_gemm
    (fun x y z => bodyValue_contraction hcanonical hrun x y z) hA hB hC
  refine ⟨T, ?_, hshape, hget⟩
  unfold linalgValue
  rw [hinits, htypes, hmaps, hinputs, hiterators]
  simp only [gemmMaps, List.cons_append, List.nil_append, List.zip_cons_cons, List.zip_nil_right,
    List.mapM_cons, mapM_nil, operandOf_tensor ha, operandOf_tensor hb, operandOf_tensor hc,
    pure_def, bind_eq_bind, bind_some]
  have hlast : [Operand.mk (.projection 3 [0, 2]) A, ⟨.projection 3 [2, 1], B⟩,
      ⟨.projection 3 [0, 1], C⟩].getLast? = some (gemmOutput C) := rfl
  rw [hlast]
  exact congrArg (bind · _) hT

/-- **A fill** stores its number everywhere. -/
theorem linalgValue_fill {z : Value} (hmaps : op.maps = fillMaps)
    (hiterators : op.iterators = [.parallel, .parallel])
    (hcanonical : canonicalScalar op false = true) (hrun : Runnable values op.body)
    (hinputs : op.inputs = [z]) (hinits : op.inits = [c]) (htypes : op.types = [type])
    (hz : values[z]? = some (.float bits)) (hc : values[c]? = some (.tensor C))
    (hC : C.shape = [m, n]) :
    ∃ T, linalgValue arithmetic values op = some (.tensor T) ∧ T.shape = [m, n] ∧
      ∀ i < m, ∀ j < n, T.get [i, j] = bits := by
  obtain ⟨T, hT, hshape, hget⟩ := execute_fill
    (fun x y => bodyValue_fill hcanonical hrun x y) hC
  refine ⟨T, ?_, hshape, hget⟩
  have hzero : operandOf values ⟨2, 0, []⟩ z = some ⟨⟨2, 0, []⟩, .scalar bits⟩ := by
    unfold operandOf
    rw [hz]
    rfl
  unfold linalgValue
  rw [hinits, htypes, hmaps, hinputs, hiterators]
  simp only [fillMaps, List.cons_append, List.nil_append, List.zip_cons_cons, List.zip_nil_right,
    List.mapM_cons, mapM_nil, operandOf_tensor hc, hzero, pure_def,
    bind_eq_bind, bind_some]
  exact congrArg (bind · _) hT

end Matcore.TwoGemm
